import Lev.Syntax.Basic
import Lev.Table
import Mathlib.Tactic.Common

/-!
What programs mean, said on their syntax: words wrap, operands and arguments are evaluated from left to
right, every execution of a mutable binding makes a new cell, a scope sees the cells around it, and a
loop yields zero. Functions that a program calls are outside of it; what they return may depend on all
calls before. An evaluation that goes on for ever, or divides as no word can, has no result.
-/
namespace Lev

/-- The words that programs compute with. -/
abbrev Word := BitVec 32

/-- A call that has returned. -/
structure Event where
  callee : Text
  args : List Word
  result : Word
  deriving DecidableEq

/-- How the functions outside behave: what a call returns, given the calls before it. -/
abbrev World := List Event → Text → List Word → Word

/-- The value of an operation, if it has one. -/
def Operator.apply (op : Operator) (a b : Word) : Option Word :=
  match op with
  | .add => some (.ofInt 32 (a.toInt + b.toInt))
  | .sub => some (.ofInt 32 (a.toInt - b.toInt))
  | .mul => some (.ofInt 32 (a.toInt * b.toInt))
  | .div =>
    if b.toInt = 0 ∨ (a.toInt = -2147483648 ∧ b.toInt = -1) then none
    else some (.ofInt 32 (a.toInt.tdiv b.toInt))

/-- What a name stands for: a word, or the cell of a number. -/
inductive Slot where
  | word (w : Word)
  | cell (number : Nat)

/-- The names in force. -/
abbrev Names := Table Slot

/-- What cells hold, in the order they were made, and the calls so far. -/
structure Memory where
  cells : List Word
  trace : List Event
  deriving DecidableEq

/-- A step of an evaluation. -/
abbrev Evaluation := StateT Memory Option

namespace Evaluation

/-- There is no result. -/
def stuck {α : Type} : Evaluation α := fun _ => none

/-- The value of a variable. -/
def read (names : Names) (name : Text) : Evaluation Word := fun memory =>
  match names.get? name with
  | none => none
  | some (.word w) => some (w, memory)
  | some (.cell number) => (memory.cells[number]?).map fun w => (w, memory)

/-- A new cell. -/
def make (w : Word) : Evaluation Nat := fun memory =>
  some (memory.cells.length, { memory with cells := memory.cells ++ [w] })

/-- An assignment to a variable. -/
def write (names : Names) (name : Text) (w : Word) : Evaluation Unit := fun memory =>
  match names.get? name with
  | some (.cell number) =>
    if number < memory.cells.length then some ((), { memory with cells := memory.cells.set number w }) else none
  | _ => none

/-- The value of an operation. -/
def compute (op : Operator) (a b : Word) : Evaluation Word := fun memory => (op.apply a b).map fun w => (w, memory)

/-- A call of a function outside. -/
def call (world : World) (callee : Text) (args : List Word) : Evaluation Word := fun memory =>
  let result := world memory.trace callee args
  some (result, { memory with trace := memory.trace ++ [⟨callee, args, result⟩] })

/-- A loop that is left after fewer tests than the bound. -/
def iterate (test body : Evaluation Word) : (bound : Nat) → Evaluation Unit
  | 0 => stuck
  | bound + 1 => do
    let w ← test
    if w = 0 then pure ()
    else do
      let _ ← body
      iterate test body bound

end Evaluation

mutual

/-- The value of an expression, if no loop needs more tests than the bound. -/
def Expr.eval (world : World) (bound : Nat) : Expr → Names → Evaluation Word
  | .literal n, _ => pure (.ofInt 32 n)
  | .var name, names => Evaluation.read names name
  | .binary left op right, names => do
    let a ← left.eval world bound names
    let b ← right.eval world bound names
    Evaluation.compute op a b
  | .call callee args, names => do
    let words ← args.eval world bound names
    Evaluation.call world callee words
  | .scope body, names => body.eval world bound names
  | .loop cond body, names => do
    Evaluation.iterate (cond.eval world bound names) (body.eval world bound names) bound
    pure 0

/-- The values of arguments. -/
def Args.eval (world : World) (bound : Nat) : Args → Names → Evaluation (List Word)
  | .nil, _ => pure []
  | .cons first rest, names => do
    let w ← first.eval world bound names
    let words ← rest.eval world bound names
    pure (w :: words)

/-- The names in force after a statement. -/
def Stmt.eval (world : World) (bound : Nat) : Stmt → Names → Evaluation Names
  | .discard value, names => do
    let _ ← value.eval world bound names
    pure names
  | .bindConst name value, names => do
    let w ← value.eval world bound names
    pure (names.set name (.word w))
  | .bindMut name value, names => do
    let w ← value.eval world bound names
    let number ← Evaluation.make w
    pure (names.set name (.cell number))
  | .assign name value, names => do
    let w ← value.eval world bound names
    Evaluation.write names name w
    pure names

/-- The value of a block. -/
def Block.eval (world : World) (bound : Nat) : Block → Names → Evaluation Word
  | .result value, names => value.eval world bound names
  | .step first rest, names => do
    let names ← first.eval world bound names
    rest.eval world bound names

end

/-- The value of a program. -/
def Program.eval (world : World) (bound : Nat) : Program → Evaluation Word
  | .expr e => e.eval world bound []
  | .block b => b.eval world bound []

/-- The program returns a word after a sequence of calls. -/
def Program.Evaluates (world : World) (program : Program) (w : Word) (trace : List Event) : Prop :=
  ∃ bound cells, program.eval world bound ⟨[], []⟩ = some (w, ⟨cells, trace⟩)

/-! ### Capture -/

mutual

/-- The variables that an expression reads or assigns, wherever they are bound. -/
def Expr.mentions : Expr → List Text
  | .literal _ => []
  | .var name => [name]
  | .binary left _ right => left.mentions ++ right.mentions
  | .call _ args => args.mentions
  | .scope body => body.mentions
  | .loop cond body => cond.mentions ++ body.mentions

def Args.mentions : Args → List Text
  | .nil => []
  | .cons first rest => first.mentions ++ rest.mentions

def Stmt.mentions : Stmt → List Text
  | .discard value => value.mentions
  | .bindConst _ value => value.mentions
  | .bindMut _ value => value.mentions
  | .assign name value => name :: value.mentions

def Block.mentions : Block → List Text
  | .result value => value.mentions
  | .step first rest => first.mentions ++ rest.mentions

end

/-- The name that a statement binds. -/
def Stmt.binder? : Stmt → Option Text
  | .bindConst name _ => some name
  | .bindMut name _ => some name
  | _ => none

/-- The names that the statements of a block bind, inner blocks apart. -/
def Block.binders (b : Block) : List Text := b.stmts.filterMap Stmt.binder?

theorem Block.binders_step (first : Stmt) (rest : Block) :
    (Block.step first rest).binders = first.binder?.toList ++ rest.binders := by
  cases named : first.binder? <;> simp [binders,stmts,named]

mutual

/-- The names that an expression assigns and does not bind itself. -/
def Expr.targets : Expr → List Text
  | .literal _ => []
  | .var _ => []
  | .binary left _ right => left.targets ++ right.targets
  | .call _ args => args.targets
  | .scope body => body.targets
  | .loop cond body => cond.targets ++ body.targets

def Args.targets : Args → List Text
  | .nil => []
  | .cons first rest => first.targets ++ rest.targets

def Stmt.targets : Stmt → List Text
  | .discard value => value.targets
  | .bindConst _ value => value.targets
  | .bindMut _ value => value.targets
  | .assign name value => name :: value.targets

def Block.targets : Block → List Text
  | .result value => value.targets
  | .step first rest => first.targets ++ rest.targets.filter fun name => first.binder? ≠ some name

end

mutual

/-- Whether no loop has a body that binds a name its condition mentions. -/
def Expr.isCaptureFree : Expr → Bool
  | .literal _ => true
  | .var _ => true
  | .binary left _ right => left.isCaptureFree && right.isCaptureFree
  | .call _ args => args.isCaptureFree
  | .scope body => body.isCaptureFree
  | .loop cond body =>
    cond.isCaptureFree && body.isCaptureFree && body.binders.all fun name => !cond.mentions.contains name

def Args.isCaptureFree : Args → Bool
  | .nil => true
  | .cons first rest => first.isCaptureFree && rest.isCaptureFree

def Stmt.isCaptureFree : Stmt → Bool
  | .discard value => value.isCaptureFree
  | .bindConst _ value => value.isCaptureFree
  | .bindMut _ value => value.isCaptureFree
  | .assign _ value => value.isCaptureFree

def Block.isCaptureFree : Block → Bool
  | .result value => value.isCaptureFree
  | .step first rest => first.isCaptureFree && rest.isCaptureFree

end

def Program.isCaptureFree : Program → Bool
  | .expr e => e.isCaptureFree
  | .block b => b.isCaptureFree

end Lev
