import Lev.Proofs.Simulation
import Mathlib.Algebra.Ring.Int.Defs

/-!
Folding against the instructions of the target. Integers of a width stand for vectors of as many bits, which the
instructions add, subtract and multiply without carry and divide toward zero. Main statement: at every width, folding
two integers gives the integer that the instruction gives on their bits, and gives none exactly where the instruction
is not defined; the result fits the width, so that wrapping it once more changes nothing.
-/
namespace Lev

/-- The integer is one that vectors of so many bits hold as a signed number. -/
def FitsBits (bits : Nat) (n : Int) : Prop := -2 ^ (bits - 1) ≤ n ∧ n < 2 ^ (bits - 1)

/-- What the instruction of the operator gives on bits. -/
def Operator.instruction {bits : Nat} (op : Operator) (a b : BitVec bits) : BitVec bits :=
  match op with
  | .add => a + b
  | .sub => a - b
  | .mul => a * b
  | .div => a.sdiv b

/-- The instruction is not defined on the operands: it divides by zero, or the quotient needs one bit more. -/
def Operator.Undefined (bits : Nat) (op : Operator) (left right : Int) : Prop :=
  op = .div ∧ (right = 0 ∨ left = -2 ^ (bits - 1) ∧ right = -1)

section
variable {bits : Nat} {n left right : Int}

theorem fitsBits_toInt (v : BitVec bits) : FitsBits bits v.toInt := ⟨BitVec.le_toInt v,BitVec.toInt_lt⟩
theorem FitsBits.toInt_eq (fits : FitsBits bits n) (positive : 1 ≤ bits) : (BitVec.ofInt bits n).toInt = n :=
  BitVec.toInt_ofInt_eq_self positive fits.1 fits.2
/-- An integer that fits is not changed by wrapping. -/
theorem FitsBits.wrap_eq (fits : FitsBits bits n) (positive : 1 ≤ bits) : wrap bits n = n :=
  (BitVec.toInt_ofInt n).symm.trans (fits.toInt_eq positive)
theorem FitsBits.eq_least (fits : FitsBits bits n) (positive : 1 ≤ bits) (least : BitVec.ofInt bits n = .intMin bits) :
    n = -2 ^ (bits - 1) := by
  rw [← fits.toInt_eq positive,least]
  exact BitVec.toInt_intMin_of_pos positive
theorem FitsBits.eq_minus (fits : FitsBits bits n) (positive : 1 ≤ bits) (minus : BitVec.ofInt bits n = -BitVec.ofNat bits 1) :
    n = -1 := by
  have wide : 0 < bits := positive
  rw [← fits.toInt_eq positive,minus,BitVec.neg_one_eq_allOnes,BitVec.toInt_allOnes,if_pos wide]
theorem Operator.fold_eq_none_iff (bits : Nat) (op : Operator) (left right : Int) :
    op.fold bits left right = none ↔ op.Undefined bits left right := by
  cases op with
  | add | sub | mul => simp [fold,Undefined]
  | div =>
    by_cases zero : right = 0
    · simp [fold,Undefined,zero]
    · simp [fold,Undefined,zero]
/-- What folding gives is what the instruction gives on the bits. -/
theorem Operator.fold_eq_instruction {op : Operator} (positive : 1 ≤ bits) (fitsLeft : FitsBits bits left)
    (fitsRight : FitsBits bits right) (folded : op.fold bits left right = some n) :
    n = (op.instruction (BitVec.ofInt bits left) (BitVec.ofInt bits right)).toInt := by
  have sameLeft := fitsLeft.toInt_eq positive
  have sameRight := fitsRight.toInt_eq positive
  have defined : ¬ op.Undefined bits left right := by
    rw [← fold_eq_none_iff,folded]
    simp
  cases op with
  | add =>
    cases folded
    simp only [instruction,BitVec.toInt_add,sameLeft,sameRight]
    rfl
  | sub =>
    cases folded
    simp only [instruction,BitVec.toInt_sub,sameLeft,sameRight]
    rfl
  | mul =>
    cases folded
    simp only [instruction,BitVec.toInt_mul,sameLeft,sameRight]
    rfl
  | div =>
    have divided : quotient left right = n := Option.some.inj (Option.ite_none_left_eq_some.mp folded).2
    rw [quotient_eq_tdiv] at divided
    -- The one quotient that no vector holds is not folded, so that the bits divide without overflow.
    have inside : BitVec.ofInt bits left ≠ .intMin bits ∨ BitVec.ofInt bits right ≠ -BitVec.ofNat bits 1 := by
      by_contra outside
      rw [not_or,not_not,not_not] at outside
      exact defined ⟨rfl,.inr ⟨fitsLeft.eq_least positive outside.1,fitsRight.eq_minus positive outside.2⟩⟩
    rw [instruction,BitVec.toInt_sdiv_of_ne_or_ne _ _ inside,sameLeft,sameRight,divided]

end

/-- At every width, folding two integers of the width gives none exactly if the instruction of the operator is not defined
    on them, and otherwise an integer of the width, which is the signed value of what the instruction gives on their bits.
    Wrapping it again, as for a constant of the program, gives the same. -/
theorem fold_agrees_with_instruction (bits : Nat) (positive : 1 ≤ bits) (op : Operator) (left right : Int)
    (fitsLeft : FitsBits bits left) (fitsRight : FitsBits bits right) :
    op.foldTo bits left right = .ok (op.fold bits left right) ∧
    (op.fold bits left right = none ↔ op = .div ∧ (right = 0 ∨ left = -2 ^ (bits - 1) ∧ right = -1)) ∧
    (∀ n, op.fold bits left right = some n →
      FitsBits bits n ∧ n = (op.instruction (BitVec.ofInt bits left) (BitVec.ofInt bits right)).toInt ∧ wrap bits n = n) ∧
    (bits = wordBits → ∀ n f, op.fold bits left right = some n →
      Build.arith op (.const left) (.const right) f = (.ok (.const n),f)) := by
  have result : ∀ n, op.fold bits left right = some n →
      FitsBits bits n ∧ n = (op.instruction (BitVec.ofInt bits left) (BitVec.ofInt bits right)).toInt := by
    intro n folded
    have same := Operator.fold_eq_instruction positive fitsLeft fitsRight folded
    exact ⟨same ▸ fitsBits_toInt _,same⟩
  refine ⟨?_,Operator.fold_eq_none_iff bits op left right,fun n folded => ?_,?_⟩
  · by_cases zero : op = .div ∧ right = 0
    · obtain ⟨rfl,rfl⟩ := zero
      simp [Operator.foldTo,Operator.fold]
    · have wide : ¬ (bits : Int) < 1 := by omega
      rw [Operator.foldTo,if_neg zero,if_neg wide,Int.toNat_natCast]
  · obtain ⟨fits,same⟩ := result n folded
    exact ⟨fits,same,fits.wrap_eq positive⟩
  · rintro rfl n f folded
    have known : op.folded? (.const left) (.const right) = some n := folded
    have constant : Value.ofInt n = .const n := congrArg Value.const ((result n folded).1.wrap_eq positive)
    simp only [Build.arith,known,constant]
    rfl

/-- With eight bits, the product of the least integer and minus one is the least integer, and their quotient is none. -/
theorem fold_agrees_with_instruction_least :
    FitsBits 8 (-128) ∧ FitsBits 8 (-1) ∧ Operator.mul.fold 8 (-128) (-1) = some (-128) ∧
    (-128 : Int) = (Operator.mul.instruction (BitVec.ofInt 8 (-128)) (BitVec.ofInt 8 (-1))).toInt ∧ wrap 8 (-128) = -128 ∧
    Operator.div.fold 8 (-128) (-1) = none := by
  have least : FitsBits 8 (-128) := by simp [FitsBits]
  have minus : FitsBits 8 (-1) := by simp [FitsBits]
  have product : Operator.mul.fold 8 (-128) (-1) = some (-128) := by decide
  obtain ⟨_,_,each,_⟩ := fold_agrees_with_instruction 8 (by decide) .mul (-128) (-1) least minus
  obtain ⟨_,undefined,_⟩ := fold_agrees_with_instruction 8 (by decide) .div (-128) (-1) least minus
  obtain ⟨_,same,wrapped⟩ := each _ product
  exact ⟨least,minus,product,same,wrapped,undefined.mpr ⟨rfl,.inr ⟨by simp,rfl⟩⟩⟩

end Lev
