import Lev.Json.Binary64
import Lev.Table

/-!
JSON values. Integers are unbounded and apart from floating-point numbers; an object keeps its
members in the order in which their names first appeared.
-/
namespace Lev

/-- A JSON value. -/
inductive Json where
  | null
  | bool (value : Bool)
  | int (value : Int)
  | float (value : Binary64)
  | text (value : Text)
  | list (items : List Json)
  | object (members : List (Text × Json))

namespace Json

/-- The greatest number of digits that an integer may have where it is read or printed. -/
def digitLimit : Nat := 4300

/-- The least number with more digits than that. -/
@[irreducible] def digitBound : Nat := Nat.pow 10 digitLimit

mutual

/-- Whether a value can be printed: no integer in it has too many digits. -/
def isPrintable : Json → Bool
  | .int n => decide (n.natAbs < digitBound)
  | .list items => arePrintable items
  | .object members => membersPrintable members
  | .null => true
  | .bool _ => true
  | .float _ => true
  | .text _ => true

def arePrintable : List Json → Bool
  | [] => true
  | item :: rest => isPrintable item && arePrintable rest

def membersPrintable : List (Text × Json) → Bool
  | [] => true
  | (_, value) :: rest => isPrintable value && membersPrintable rest

end

end Json

end Lev
