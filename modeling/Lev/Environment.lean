import Lev.Error
import Lev.IR.Basic

/-!
What the names of a program stand for while it is lowered. A boxed name stands for a cell, so that
reads load and assignments store; an unboxed name stands for a value together with the constant it
was bound to. Binding a name again keeps its place among the names.
-/
namespace Lev

/-- How a name is represented. -/
inductive Levity where
  | boxed
  | unboxed (constant : Int)
  deriving DecidableEq

def Levity.shown : Levity → Text
  | .boxed => lit "Boxed"
  | .unboxed constant => lit "Unboxed(" ++ Text.ofInt constant ++ lit ")"

/-- Whether two names are represented in the same way. -/
def Levity.sameKind : Levity → Levity → Bool
  | .boxed, .boxed => true
  | .unboxed _, .unboxed _ => true
  | _, _ => false

/-- What a name stands for. -/
structure Binding where
  value : Value
  levity : Levity
  deriving DecidableEq

def Binding.isBoxed (binding : Binding) : Bool := binding.levity = .boxed

/-- The names in force. -/
abbrev Environment := Table Binding

namespace Environment

def empty : Environment := []

/-- The environment with one name bound. -/
def bind (env : Environment) (name : Text) (value : Value) (levity : Levity) : Environment :=
  env.set name ⟨value, levity⟩

def lookup? (env : Environment) (name : Text) : Option Binding := env.get? name

def shown (env : Environment) : Text :=
  let entries := env.map fun (name, binding) => name ++ lit ": " ++ binding.levity.shown
  lit "Environment(\x7b" ++ Text.join (lit ", ") entries ++ lit "\x7d)"

end Environment

/-- One addressable word of the function that is filled, with its number in the arena. -/
structure Cell where
  index : Nat
  name : Text
  pointer : Value
  deriving DecidableEq

/-- The cells of a function and the place where the next one is allocated. -/
structure Arena where
  cursor : Cursor
  cells : List Cell

namespace Arena

/-- Allocates a cell at the arena's place. -/
def allocate (arena : Arena) (fn : Function) (name : Text) : Cell × Arena × Function :=
  let (result, fn) := fn.register name
  let (fn, cursor) := fn.insert arena.cursor (.alloca result)
  let cell : Cell := ⟨arena.cells.length, name, .reg result .pointer⟩
  (cell, ⟨cursor, arena.cells ++ [cell]⟩, fn)

/-- The place of a cell in the arena: negative indices count from the end. -/
def index? (arena : Arena) (index : Int) : Option Nat :=
  let size := Int.ofNat arena.cells.length
  let index := if index < 0 then index + size else index
  if 0 ≤ index ∧ index < size then some index.toNat else none

/-- The cell at an index. -/
def get (arena : Arena) (index : Int) : Except Fault Cell :=
  match arena.index? index with
  | none => .error .noCell
  | some place =>
    match arena.cells[place]? with
    | some cell => .ok cell
    | none => .error .noCell

end Arena

end Lev
