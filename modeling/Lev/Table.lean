import Lev.Text.Basic

/-!
Tables from names to values that remember the order in which names first appeared. Setting a name
again changes its value and keeps its place.
-/
namespace Lev

/-- Names with their values, in the order the names first appeared. -/
abbrev Table (α : Type) := List (Text × α)

namespace Table
variable {α : Type}

/-- The value of a name. -/
def get? (name : Text) : Table α → Option α
  | [] => none
  | (key, value) :: rest => if key = name then some value else get? name rest

/-- The table with one name set. -/
def set (name : Text) (value : α) : Table α → Table α
  | [] => [(name, value)]
  | (key, old) :: rest =>
    if key = name then (key, value) :: rest else (key, old) :: set name value rest

/-- Whether a name has a value. -/
def contains (table : Table α) (name : Text) : Bool := (get? name table).isSome

/-- The names in order. -/
def names (table : Table α) : List Text := table.map (·.1)

end Table

end Lev
