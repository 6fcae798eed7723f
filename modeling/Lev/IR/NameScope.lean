import Lev.Table

/-!
The names of one function. A name is handed out as asked for if it is free; otherwise a dot and the
next number for which the result is free follow it. Names are never given back.
-/
namespace Lev

/-- The names in use, and the last number handed out for each base. -/
structure NameScope where
  used : List Text
  counters : Table Nat

namespace NameScope

/-- At first only the empty name is in use, so that nothing is called by it. -/
def empty : NameScope := ⟨[[]], []⟩

/-- A base with a number. -/
def numbered (base : Text) (number : Nat) : Text := base ++ lit "." ++ Text.ofNat number

/-- The first number from `number` on whose name is free. -/
def firstFree (used : List Text) (base : Text) : (fuel number : Nat) → Nat
  | 0, number => number
  | fuel + 1, number =>
    if used.contains (numbered base number) then firstFree used base fuel (number + 1) else number

/-- Hands out a name for a base. -/
def register (scope : NameScope) (base : Text) : Text × NameScope :=
  if scope.used.contains base then
    let last := (scope.counters.get? base).getD 0
    let number := firstFree scope.used base scope.used.length (last + 1)
    let name := numbered base number
    (name, ⟨name :: scope.used, scope.counters.set base number⟩)
  else (base, { scope with used := base :: scope.used })

end NameScope

end Lev
