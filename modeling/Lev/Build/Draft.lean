import Lev.Analysis.Bindings
import Lev.Analysis.Calls
import Lev.IR.Printer
import Lev.Build.Constant

/-!
Building a module. The entry function evaluates the program; every other function it calls is
declared. What can be found without emitting anything (arity conflicts, names that the target cannot
carry, violations of scope) is collected and reported together before anything is emitted. A draft
builds one module; a failed build leaves what was emitted so far.
-/
namespace Lev

/-- The settings of a build. The triple of the host, the machine that the compiler runs on, stands in for
    one that is not chosen. -/
structure Options where
  moduleName : Text := lit "Main"
  entryName : Text := lit "main"
  triple : Option Text := none
  host : Text := lit "unknown-unknown-unknown"

/-- The chosen triple; an empty one stands for the host's. -/
def Options.target (options : Options) : Text :=
  match options.triple with
  | none => options.host
  | some triple => if triple.isEmpty then options.host else triple

/-- Where the entry function is being filled. -/
structure Filling where
  arena : Arena
  block : Text

/-- The state of a build: the functions of the module so far, the table of the parameters that a call of
    each has to fill, the entry function once it is declared, where it is being filled, the merge points of
    finished loops and the log. -/
structure Draft where
  options : Options
  built : Bool
  functions : List Function
  signatures : Table Nat
  entry : Option Text
  filling : Option Filling
  points : List MergePoint
  log : List Text

/-- A step of a build. -/
abbrev Session := Attempt Draft

namespace Draft

/-- A draft that has built nothing. -/
def new (options : Options) : Draft :=
  { options, built := false, functions := [], signatures := [], entry := none, filling := none, points := [], log := [] }

/-- The module as it is. -/
def module (draft : Draft) : Module :=
  ⟨draft.options.moduleName, draft.options.target, draft.functions⟩

/-- The function of a name. -/
def function? (draft : Draft) (name : Text) : Option Function :=
  draft.functions.find? (·.name = name)

/-- The entry function. -/
def entryFunction? (draft : Draft) : Option Function := draft.entry.bind draft.function?

/-- Puts a function in the place of the one of its name. -/
def replace (draft : Draft) (fn : Function) : List Function :=
  draft.functions.map fun old => if old.name = fn.name then fn else old

/-- Takes over what a frame holds. -/
def resume (draft : Draft) (frame : Frame) : Draft :=
  { draft with
    functions := draft.replace frame.function
    filling := some ⟨frame.arena, frame.block⟩
    points := frame.points
    log := frame.log }

/-- The frame of a function that is filled at the given place. -/
def frame (draft : Draft) (function : Function) (filling : Filling) : Frame :=
  ⟨function, filling.arena, filling.block, draft.points, draft.log⟩

/-- Runs a step of filling in the entry function; where there is none to fill, `idle` is the outcome. -/
def fill {α : Type} (work : Build α) (idle : Except Fault α) : Session α := fun draft =>
  match draft.entryFunction?, draft.filling with
  | some fn, some filling =>
    let (result, frame) := work (draft.frame fn filling)
    (result, draft.resume frame)
  | _, _ => (idle, draft)

/-- Lowers an expression with the signatures declared so far. -/
def lowerExpr (subject : Subject) (env : Environment) : Session Value := fun draft =>
  fill (subject.lowerExpr draft.signatures env) (subject.constantExpr draft.signatures env) draft

/-- Lowers a statement with the signatures declared so far. -/
def lowerStmt (subject : Subject) (env : Environment) : Session Environment := fun draft =>
  fill (subject.lowerStmt draft.signatures env) (subject.constantStmt draft.signatures env) draft

/-- Lowers a block with the signatures declared so far. -/
def lowerBlock (subject : Subject) (env : Environment) : Session (Value × Environment) := fun draft =>
  fill (subject.lowerBlock draft.signatures env) (subject.constantBlock draft.signatures env) draft

/-- Lowers a program with the signatures declared so far. -/
def lowerProgram (subject : Subject) (env : Environment) : Session Value := fun draft =>
  fill (subject.lowerProgram draft.signatures env) (subject.constantProgram draft.signatures env) draft

/-- Declares a function and enters it in the table, unless it is there with the same number of
    parameters; gives its name. A number below zero gives a function without parameters. -/
def declare (name : Text) (arity : Int) : Session Text := do
  match ← Attempt.read fun draft => draft.signatures.get? name with
  | some count =>
    if count = arity then pure name
    else Attempt.reject (.arityConflict (.text name) (some count) (some arity))
  | none =>
    match Identifier.error? name with
    | some error => Attempt.reject error
    | none =>
      let fn := Function.declare name arity.toNat
      let line := lit "lowering.core: Declared " ++ name ++ lit "/" ++ Text.ofInt arity
      Attempt.modify fun draft =>
        { draft with
          functions := draft.functions ++ [fn]
          signatures := draft.signatures.set name fn.params.length
          log := draft.log ++ [line] }
      pure fn.name

/-- Declares functions in order. -/
def declareAll : Table Int → Session Unit
  | [] => pure ()
  | (name, arity) :: rest => do
    let _ ← declare name arity
    declareAll rest

/-- The signatures of the functions a subject calls, the entry function among them, and what is wrong
    with them: conflicts first, then names the target cannot carry. -/
def discover (options : Options) (subject : Subject) : Except Fault (Table Int × List ProgramError) := do
  let sites ← subject.calls
  let found := Signatures.ofCalls [(options.entryName, 0)] sites
  .ok (found.table, found.conflicts.map Conflict.error ++ found.table.names.filterMap Identifier.error?)

/-- Fills the entry function from its first block on: the cells stand in a block of their own, which
    goes on to the program. -/
def fillEntry (signatures : Table Nat) (subject : Subject) : Build Unit := do
  let start ← Build.currentBlock
  let value ← subject.lowerProgram signatures .empty
  Build.terminate (.ret value)
  Build.closeArena start
  let name ← Attempt.read fun frame => frame.function.name
  let cells ← Attempt.read fun frame => frame.arena.cells.length
  let points ← Attempt.read fun frame => frame.points.length
  Build.note (lit "lowering.core: Built " ++ name ++ lit " with " ++ Text.ofNat cells ++
    lit " cell(s) and " ++ Text.ofNat points ++ lit " merge point(s)")

/-- Opens the blocks of the entry function. -/
def openEntry : Session Unit := fun draft =>
  match draft.entryFunction? with
  | none => (.error (.noFunction .entry), draft)
  | some fn =>
    let (entry, fn) := fn.addBlock (lit "entry")
    let (start, fn) := fn.addBlock (lit "start")
    (.ok (), draft.resume (draft.frame fn ⟨⟨⟨entry, 0⟩, []⟩, start⟩))

/-- Fills the entry function with a program and returns its value. -/
def buildEntry (subject : Subject) : Session Unit := do
  openEntry
  let signatures ← Attempt.read Draft.signatures
  fill (fillEntry signatures subject) (.error (.noFunction .entry))

/-- A step whose failure because of the program is reported as a failed build. -/
def reported {α : Type} (step : Session α) : Session α := fun draft =>
  match step draft with
  | (.error (.program error), after) => (.error (.program (.build [error])), after)
  | outcome => outcome

/-- A draft builds once. -/
def once (work : Session Unit) : Session Unit := do
  if ← Attempt.read Draft.built then Attempt.fail .alreadyBuilt
  else
    Attempt.modify fun draft => { draft with built := true }
    work

/-- Builds the module of a program. -/
def build (subject : Subject) : Session Unit := once do
  let options ← Attempt.read Draft.options
  let (table, errors) ← Attempt.ofExcept (discover options subject)
  let violations ← Attempt.ofExcept (subject.check [])
  match errors ++ violations.map Violation.error with
  | [] =>
    declareAll (table.filter fun (name, _) => name ≠ options.entryName)
    let entry ← declare options.entryName 0
    Attempt.modify fun draft => { draft with entry := some entry }
    reported (buildEntry subject)
  | errors => Attempt.reject (.build errors)

/-- A build that is given a list where the name of the entry function belongs: it gets as far as the calls,
    whose table is to begin with that name. -/
def buildUnnamed (subject : Subject) : Session Unit := once do
  let _ ← Attempt.ofExcept subject.calls
  Attempt.fail .listName

end Draft

end Lev
