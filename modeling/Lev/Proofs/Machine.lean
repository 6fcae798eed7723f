import Lev.Proofs.Code
import Lev.Proofs.Evaluation
import Mathlib.Logic.Relation

/-!
How the target runs a function: registers hold words, bits and addresses, cells start out empty, the phis
of a block are all set at once on the way into it, and arithmetic is that of 32-bit words. A machine
that cannot go on (an operand is missing or of another kind, an empty cell is loaded, a quotient is
undefined, the callee is not a function outside) returns nothing.
-/
namespace Lev

/-- What a register holds. -/
inductive Datum where
  | word (w : Word)
  | bit (b : Bool)
  | address (place : Nat)
  deriving DecidableEq

/-- The state of a running function: the place of the next instruction, registers, cells and the calls so far. -/
structure Machine where
  block : Text
  index : Nat
  registers : Text → Option Datum
  memory : List (Option Word)
  trace : List Event

/-- What a step leads to. -/
inductive Turn where
  | next (s : Machine)
  | done (w : Word) (trace : List Event)

/-- The result of an arithmetic instruction. -/
def Operator.compute (op : Operator) (a b : Word) : Option Word :=
  match op with
  | .add => some (a + b)
  | .sub => some (a - b)
  | .mul => some (a * b)
  | .div => if b = 0 ∨ (a = .intMin 32 ∧ b = -1) then none else some (a.sdiv b)

/-- A function of the module that is defined elsewhere and takes that many arguments. -/
def Module.declares (module : Module) (callee : Text) (count : Nat) : Bool :=
  match module.functions.find? (·.name = callee) with
  | some fn => fn.isDeclaration && fn.params.length = count
  | none => false

namespace Machine

/-- The machine at the first instruction of a function. -/
def start (entry : Text) : Machine := ⟨entry, 0, fun _ => none, [], []⟩

/-- What a value stands for. -/
def value? (s : Machine) : Value → Option Datum
  | .const n => some (.word (.ofInt 32 n))
  | .reg name _ => s.registers name

def word? (s : Machine) (value : Value) : Option Word :=
  match s.value? value with
  | some (.word w) => some w
  | _ => none

def address? (s : Machine) (value : Value) : Option Nat :=
  match s.value? value with
  | some (.address place) => some place
  | _ => none

def bit? (s : Machine) (value : Value) : Option Bool :=
  match s.value? value with
  | some (.bit b) => some b
  | _ => none

/-- The next instruction. -/
def skip (s : Machine) : Machine := { s with index := s.index + 1 }

/-- The next instruction, with a result. -/
def yield (s : Machine) (result : Text) (datum : Datum) : Machine :=
  { s.skip with registers := fun name => if name = result then some datum else s.registers name }

/-- What a phi takes on the way out of the current block. -/
def select? (s : Machine) : Instr → Option (Text × Datum)
  | .phi result _ incoming =>
    match incoming.find? (·.2 = s.block) with
    | some (value, _) => (s.value? value).map fun datum => (result, datum)
    | none => none
  | _ => none

/-- The machine at the first instruction after the phis of a block, which are set all at once. -/
def enter (fn : Function) (s : Machine) (target : Text) : Option Machine := do
  let code ← fn.code? target
  let phis := code.takeWhile Instr.isPhi
  let data ← phis.mapM s.select?
  some { s with
    block := target
    index := phis.length
    registers := fun name => (Table.get? name data).or (s.registers name) }

section
variable (module : Module) (fn : Function) (world : World)

/-- What one instruction does. -/
def execute (s : Machine) : Instr → Option Turn
  | .alloca result =>
    some (.next { s.yield result (.address s.memory.length) with memory := s.memory ++ [none] })
  | .store value address => do
    let w ← s.word? value
    let place ← s.address? address
    if place < s.memory.length then some (.next { s.skip with memory := s.memory.set place (some w) }) else none
  | .load result address => do
    let place ← s.address? address
    let w ← (s.memory[place]?).join
    some (.next (s.yield result (.word w)))
  | .arith result op left right => do
    let a ← s.word? left
    let b ← s.word? right
    let w ← op.compute a b
    some (.next (s.yield result (.word w)))
  | .call result callee args => do
    let words ← args.mapM s.word?
    if module.declares callee words.length then
      let w := world s.trace callee words
      some (.next { s.yield result (.word w) with trace := s.trace ++ [⟨callee, words, w⟩] })
    else none
  | .isZero result value => do
    let w ← s.word? value
    some (.next (s.yield result (.bit (w = 0))))
  | .phi _ _ _ => none
  | .br target => (s.enter fn target).map .next
  | .condBr cond yes no => do
    let b ← s.bit? cond
    (s.enter fn (if b then yes else no)).map .next
  | .ret value => do
    let w ← s.word? value
    some (.done w s.trace)

/-- One step. -/
def step (s : Machine) : Option Turn := do
  let code ← fn.code? s.block
  let instr ← code[s.index]?
  s.execute module fn world instr

/-- What the machine returns within a number of steps. -/
def run : (steps : Nat) → Machine → Option (Word × List Event)
  | 0, _ => none
  | steps + 1, s =>
    match s.step module fn world with
    | some (.next s') => run steps s'
    | some (.done w trace) => some (w, trace)
    | none => none

/-- The machine goes on from the first state to the second. -/
def Reaches : Machine → Machine → Prop := Relation.ReflTransGen fun s s' => s.step module fn world = some (.next s')

end

end Machine

/-- Running the function of a name, from its first block, returns a word after a sequence of calls. -/
def Module.Returns (module : Module) (world : World) (name : Text) (w : Word) (trace : List Event) : Prop :=
  ∃ fn entry steps, module.functions.find? (·.name = name) = some fn ∧ fn.labels.head? = some entry ∧
    Machine.run module fn world steps (.start entry) = some (w, trace)

namespace Machine
variable {module : Module} {fn : Function} {world : World} {s s' : Machine}

theorem run_succ {steps : Nat} {result : Word × List Event} (returned : run module fn world steps s = some result) :
    run module fn world (steps + 1) s = some result := by
  induction steps generalizing s with
  | zero => cases returned
  | succ steps ih =>
    rw [run] at returned ⊢
    cases turn : s.step module fn world with
    | none => simp [turn] at returned
    | some turned =>
      cases turned with
      | next s' =>
        simp only [turn] at returned ⊢
        exact ih returned
      | done w trace =>
        simp only [turn] at returned ⊢
        exact returned
theorem run_mono {steps more : Nat} (le : steps ≤ more) {result : Word × List Event}
    (returned : run module fn world steps s = some result) : run module fn world more s = some result := by
  induction le with
  | refl => exact returned
  | step _ ih => exact run_succ ih
/-- A machine returns one thing only. -/
theorem run_unique {steps steps' : Nat} {result result' : Word × List Event}
    (returned : run module fn world steps s = some result) (returned' : run module fn world steps' s = some result') :
    result = result' := by
  have first := run_mono (Nat.le_max_left steps steps') returned
  have second := run_mono (Nat.le_max_right steps steps') returned'
  exact Option.some.inj (first.symm.trans second)
theorem run_eq_none_of_le {steps more : Nat} (le : steps ≤ more) (running : run module fn world more s = none) :
    run module fn world steps s = none := by
  cases returned : run module fn world steps s with
  | none => rfl
  | some result =>
    rw [run_mono le returned] at running
    cases running
theorem run_next (turn : s.step module fn world = some (.next s')) (steps : Nat) :
    run module fn world (steps + 1) s = run module fn world steps s' := by
  rw [run,turn]
theorem Reaches.returns (reaches : Reaches module fn world s s') {steps : Nat} {result : Word × List Event}
    (returned : run module fn world steps s' = some result) : ∃ more, run module fn world more s = some result := by
  induction reaches using Relation.ReflTransGen.head_induction_on with
  | refl => exact ⟨steps,returned⟩
  | head turn _ ih =>
    obtain ⟨more,later⟩ := ih
    exact ⟨more + 1,(run_next turn more).trans later⟩
/-- What does not return from a later state does not return sooner from an earlier one. -/
theorem Reaches.running (reaches : Reaches module fn world s s') {steps : Nat}
    (running : run module fn world steps s' = none) : run module fn world steps s = none := by
  induction reaches using Relation.ReflTransGen.head_induction_on with
  | refl => exact running
  | head turn _ ih => exact run_eq_none_of_le (Nat.le_succ steps) ((run_next turn steps).trans ih)
theorem run_stuck (stuck : s.step module fn world = none) (steps : Nat) : run module fn world steps s = none := by
  cases steps with
  | zero => rfl
  | succ steps => rw [run,stuck]

end Machine

namespace Module
variable {module : Module} {world : World} {name : Text}

/-- What the function of a name returns within a number of steps. -/
def run? (module : Module) (world : World) (name : Text) (steps : Nat) : Option (Word × List Event) := do
  let fn ← module.functions.find? (·.name = name)
  let entry ← fn.labels.head?
  Machine.run module fn world steps (.start entry)

theorem returns_iff_run? {w : Word} {trace : List Event} :
    module.Returns world name w trace ↔ ∃ steps, module.run? world name steps = some (w,trace) := by
  constructor
  · rintro ⟨fn,entry,steps,found,first,returned⟩
    refine ⟨steps,?_⟩
    simp only [run?,found,first,Option.bind_eq_bind,Option.bind_some,returned]
  · rintro ⟨steps,ran⟩
    simp only [run?,Option.bind_eq_bind,Option.bind_eq_some_iff] at ran
    obtain ⟨fn,found,entry,first,returned⟩ := ran
    exact ⟨fn,entry,steps,found,first,returned⟩
theorem Returns.unique {w w' : Word} {trace trace' : List Event} (returns : module.Returns world name w trace)
    (returns' : module.Returns world name w' trace') : w = w' ∧ trace = trace' := by
  obtain ⟨fn,entry,steps,found,first,returned⟩ := returns
  obtain ⟨fn',entry',steps',found',first',returned'⟩ := returns'
  cases found.symm.trans found'
  cases first.symm.trans first'
  cases Machine.run_unique returned returned'
  exact ⟨rfl,rfl⟩

end Module

end Lev
