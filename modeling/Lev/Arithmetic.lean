import Lev.Error

/-!
Two's complement arithmetic. Constants are folded the way the target computes: sums, differences and
products wrap, quotients are cut off toward zero, and a division that the target leaves undefined is
not folded.
-/
namespace Lev

/-- The signed number of `bits` bits that agrees with an integer modulo `2 ^ bits`. -/
def wrap (bits : Nat) (value : Int) : Int := value.bmod (Nat.pow 2 bits)

/-- Wraps to a width given as an integer; there is no width below one. -/
def wrapTo (bits value : Int) : Except Fault Int :=
  if bits < 1 then .error .negativeShift else .ok (wrap bits.toNat value)

/-- The quotient cut off toward zero: that of the absolute values, with the sign that the operands give it. -/
def Operator.quotient (left right : Int) : Int :=
  let quotient := Int.fdiv left.natAbs right.natAbs
  if decide (left < 0) != decide (right < 0) then -quotient else quotient

/-- The result of an operation on constants, or none if the target leaves it undefined. -/
def Operator.fold (bits : Nat) (op : Operator) (left right : Int) : Option Int :=
  match op with
  | .add => some (wrap bits (left + right))
  | .sub => some (wrap bits (left - right))
  | .mul => some (wrap bits (left * right))
  | .div =>
    if right = 0 ∨ (left = -Int.ofNat (Nat.pow 2 (bits - 1)) ∧ right = -1) then none
    else some (quotient left right)

/-- Folds at a width given as an integer. A division by zero is undefined at every width. -/
def Operator.foldTo (bits : Int) (op : Operator) (left right : Int) : Except Fault (Option Int) :=
  if op = .div ∧ right = 0 then .ok none
  else if bits < 1 then .error .negativeShift
  else .ok (op.fold bits.toNat left right)

/-- The width of Lev integers. -/
def wordBits : Nat := 32

end Lev
