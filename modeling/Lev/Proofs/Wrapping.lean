import Lev.Build.Constant
import Lev.Proofs.Attempt

/-!
Wrapping early and wrapping late. A constant of the program is wrapped where it is written, and the result of every
operation on constants is wrapped again. Main statement: what comes out is the exact value, in integers of any size,
wrapped once. At every width, folding respects wrapping, since wrapped integers agree with the exact ones modulo the
number of vectors of the width; by induction on the syntax, an expression of literals, sums, differences and products
is lowered to one constant, and nothing is emitted.
-/
namespace Lev

/-- What the operator gives on integers of any size. Quotients are left out. -/
def Operator.exactValue? (op : Operator) (left right : Int) : Option Int :=
  match op with
  | .add => some (left + right)
  | .sub => some (left - right)
  | .mul => some (left * right)
  | .div => none

/-- The value, in integers of any size, of an expression that is made of literals, sums, differences and products. -/
def Expr.exactValue? : Expr → Option Int
  | .literal n => some n
  | .binary left op right =>
    match left.exactValue?, right.exactValue? with
    | some a, some b => op.exactValue? a b
    | _, _ => none
  | _ => none

section
variable {bits : Nat} {op : Operator} {a b z : Int}

theorem wrap_wrap (bits : Nat) (n : Int) : wrap bits (wrap bits n) = wrap bits n := Int.bmod_bmod
/-- Folding wrapped operands wraps the exact result. -/
theorem Operator.fold_wrap (valued : op.exactValue? a b = some z) : op.fold bits (wrap bits a) (wrap bits b) = some (wrap bits z) := by
  unfold wrap
  cases op with
  | add =>
    cases valued
    exact congrArg some (Int.add_bmod a b _).symm
  | sub =>
    cases valued
    exact congrArg some (Int.sub_bmod a b _).symm
  | mul =>
    cases valued
    exact congrArg some (Int.mul_bmod a b _).symm
  | div => cases valued
theorem wrapTo_of_positive (positive : 1 ≤ bits) (n : Int) : wrapTo bits n = .ok (wrap bits n) := by
  have wide : ¬ (bits : Int) < 1 := by omega
  rw [wrapTo,if_neg wide,Int.toNat_natCast]
theorem Operator.foldTo_of_exact (positive : 1 ≤ bits) (valued : op.exactValue? a b = some z) (left right : Int) :
    op.foldTo bits left right = .ok (op.fold bits left right) := by
  have wide : ¬ (bits : Int) < 1 := by omega
  have whole : ¬ (op = .div ∧ right = 0) := by
    rintro ⟨rfl,_⟩
    cases valued
  rw [foldTo,if_neg whole,if_neg wide,Int.toNat_natCast]
/-- Operands that are constants of the program are folded into one. -/
theorem Operator.folded?_ofInt (valued : op.exactValue? a b = some z) :
    op.folded? (.ofInt a) (.ofInt b) = some (wrap wordBits z) := fold_wrap valued
theorem Value.ofInt_wrap (n : Int) : Value.ofInt (wrap wordBits n) = .ofInt n := congrArg Value.const (wrap_wrap wordBits n)
theorem Build.arith_ofInt (valued : op.exactValue? a b = some z) : Build.arith op (.ofInt a) (.ofInt b) = pure (.ofInt z) := by
  unfold Build.arith
  rw [Operator.folded?_ofInt valued]
  exact congrArg pure (Value.ofInt_wrap z)

end

/-- The parts of an operation that has an exact value have one. -/
theorem Expr.exactValue?_binary {left right : Expr} {op : Operator} {z : Int} (valued : (Expr.binary left op right).exactValue? = some z) :
    ∃ a b, left.exactValue? = some a ∧ right.exactValue? = some b ∧ op.exactValue? a b = some z := by
  rw [Expr.exactValue?] at valued
  split at valued
  · exact ⟨_,_,‹_›,‹_›,valued⟩
  · cases valued
theorem Expr.lower_exact (signatures : Table Nat) (e : Expr) (env : Environment) {z : Int} (valued : e.exactValue? = some z) :
    e.lower signatures env = pure (.ofInt z) := by
  cases e with
  | literal n =>
    cases valued
    rfl
  | binary left op right =>
    obtain ⟨a,b,valuedLeft,valuedRight,valuedOp⟩ := Expr.exactValue?_binary valued
    have lowered := Build.arith_ofInt valuedOp
    rw [Expr.lower,left.lower_exact signatures env valuedLeft,right.lower_exact signatures env valuedRight]
    exact lowered
  | var _ | call _ _ | scope _ | loop _ _ => cases valued
/-- The same where there is no function to fill. -/
theorem Expr.constant_exact (signatures : Table Nat) (e : Expr) (env : Environment) {z : Int} (valued : e.exactValue? = some z) :
    e.constant signatures env = .ok (.ofInt z) := by
  cases e with
  | literal n =>
    cases valued
    rfl
  | binary left op right =>
    obtain ⟨a,b,valuedLeft,valuedRight,valuedOp⟩ := Expr.exactValue?_binary valued
    have folded := Operator.folded?_ofInt valuedOp
    rw [Expr.constant,left.constant_exact signatures env valuedLeft,right.constant_exact signatures env valuedRight]
    simp only [Bind.bind,Except.bind,folded,Value.ofInt_wrap]
  | var _ | call _ _ | scope _ | loop _ _ => cases valued

/-- An expression of literals, sums, differences and products is lowered to the constant of 32 bits that its exact value wraps to,
    and the frame stays as it is; it needs no function to fill. At every width, folding operands that were wrapped gives the exact
    result, wrapped once. -/
theorem wrapping_early_is_wrapping_late :
    (∀ (signatures : Table Nat) (e : Expr) (env : Environment) (f : Frame) (z : Int), e.exactValue? = some z →
      e.lower signatures env f = (.ok (.const (wrap 32 z)),f) ∧ e.constant signatures env = .ok (.const (wrap 32 z))) ∧
    ∀ (bits : Nat) (op : Operator) (a b z : Int), 1 ≤ bits → op.exactValue? a b = some z →
      wrapTo bits a = .ok (wrap bits a) ∧ wrapTo bits b = .ok (wrap bits b) ∧ wrapTo bits z = .ok (wrap bits z) ∧
      op.foldTo bits (wrap bits a) (wrap bits b) = .ok (some (wrap bits z)) := by
  constructor
  · intro signatures e env f z valued
    refine ⟨?_,e.constant_exact signatures env valued⟩
    rw [e.lower_exact signatures env valued]
    rfl
  · intro bits op a b z positive valued
    refine ⟨wrapTo_of_positive positive a,wrapTo_of_positive positive b,wrapTo_of_positive positive z,?_⟩
    rw [Operator.foldTo_of_exact positive valued,Operator.fold_wrap valued]

/-- `2147483648 * 3 - 1`, which leaves the width at the literal, at the product and at the difference. -/
def overflowing : Expr := .binary (.binary (.literal 2147483648) .mul (.literal 3)) .sub (.literal 1)
/-- A function whose one block is empty, filled at the end of this block. -/
def emptyFrame : Frame := ⟨((Function.declare (lit "main") 0).addBlock (lit "entry")).2,⟨⟨lit "entry",0⟩,[]⟩,lit "entry",[],[]⟩
/-- The expression is lowered to the greatest integer of the width, and with eight bits 128 wraps before it is multiplied. -/
theorem wrapping_early_is_wrapping_late_overflowing :
    overflowing.exactValue? = some 6442450943 ∧ overflowing.lower [] .empty emptyFrame = (.ok (.const 2147483647),emptyFrame) ∧
    Operator.mul.exactValue? 128 3 = some 384 ∧ Operator.mul.foldTo 8 (-128) 3 = .ok (some (-128)) := by
  have valued : overflowing.exactValue? = some 6442450943 := by decide
  have product : Operator.mul.exactValue? 128 3 = some 384 := by decide
  obtain ⟨lowered,folded⟩ := wrapping_early_is_wrapping_late
  exact ⟨valued,(lowered [] overflowing .empty emptyFrame _ valued).1,product,(folded 8 .mul 128 3 384 (by decide) product).2.2.2⟩

end Lev
