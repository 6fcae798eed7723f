import Lev.Proofs.Code
import Mathlib.Logic.Relation

/-!
Functions in static single assignment form: what it means that a function is well formed, said over
the paths of its control flow graph, and a certificate for it. The certificate gives for every label
some of the labels that each path to it has passed before; it only has to be checked edge by edge.
-/
namespace Lev

namespace Instr

/-- The operands of the instruction; those of a phi belong to its edges. -/
def operands : Instr → List Value
  | .store value address => [value,address]
  | .load _ address => [address]
  | .arith _ _ left right => [left,right]
  | .call _ _ args => args
  | .isZero _ value => [value]
  | .condBr cond _ _ => [cond]
  | .ret value => [value]
  | _ => []
/-- The operands have the types that the instruction asks for, and a call has as many as its callee. -/
def WellTyped (signatures : Table Nat) : Instr → Prop
  | .alloca _ => True
  | .store value address => value.type = .i32 ∧ address.type = .pointer
  | .load _ address => address.type = .pointer
  | .arith _ _ left right => left.type = .i32 ∧ right.type = .i32
  | .call _ callee args => signatures.get? callee = some args.length ∧ ∀ arg ∈ args, arg.type = .i32
  | .isZero _ value => value.type = .i32
  | .phi _ type incoming => ∀ edge ∈ incoming, edge.1.type = type
  | .br _ => True
  | .condBr cond _ _ => cond.type = .i1
  | .ret value => value.type = .i32

end Instr

/-- Phis stand before everything else. -/
def PhisFirst (instrs : List Instr) : Prop :=
  ∃ phis rest, instrs = phis ++ rest ∧ (∀ instr ∈ phis, instr.isPhi = true) ∧ ∀ instr ∈ rest, instr.isPhi = false

theorem PhisFirst.snoc {instrs : List Instr} {instr : Instr} (first : PhisFirst instrs) (plain : instr.isPhi = false) :
    PhisFirst (instrs ++ [instr]) := by
  obtain ⟨phis,rest,rfl,leading,following⟩ := first
  refine ⟨phis,rest ++ [instr],by simp,leading,?_⟩
  intro other member
  rcases List.mem_append.mp member with old | new
  · exact following other old
  · exact List.mem_singleton.mp new ▸ plain

namespace Function

/-- The labels passed on a way from the entry, the latest first. -/
inductive Path (fn : Function) (entry : Text) : List Text → Prop
  | start : Path fn entry [entry]
  | step {source target : Text} {before : List Text} :
      Path fn entry (source :: before) → fn.Edge source target → Path fn entry (target :: source :: before)

/-- An instruction that yields the value of this name and type lies on every path from the entry to the
    place before an index of the block of a label. -/
def Available (fn : Function) (entry name : Text) (type : Ty) (label : Text) (index : Nat) : Prop :=
  ∃ place position instr, fn.At place position instr ∧ instr.yields? = some (name,type) ∧
    ∀ before, fn.Path entry (label :: before) → place ∈ before ∨ (place = label ∧ position < index)

/-- The function is in static single assignment form with its entry at the given label. -/
structure WellFormed (fn : Function) (signatures : Table Nat) (entry : Text) : Prop where
  first : fn.labels.head? = some entry
  distinct : fn.labels.Nodup
  single : ∀ place index instr place' index' instr' name, fn.At place index instr → fn.At place' index' instr' →
    instr.result? = some name → instr'.result? = some name → place = place' ∧ index = index'
  closed : ∀ block ∈ fn.blocks, block.isClosed = true
  phisFirst : ∀ block ∈ fn.blocks, PhisFirst block.instrs
  edges : ∀ label index result type incoming, fn.At label index (.phi result type incoming) →
    (incoming.map Prod.snd).Nodup ∧ ∀ source, source ∈ incoming.map Prod.snd ↔ fn.Edge source label
  operands : ∀ label index instr name type, fn.At label index instr → .reg name type ∈ instr.operands →
    fn.Available entry name type label index
  incoming : ∀ label index result type incoming, fn.At label index (.phi result type incoming) →
    ∀ name type source, (.reg name type,source) ∈ incoming →
      ∃ instrs, fn.code? source = some instrs ∧ fn.Available entry name type source instrs.length
  typed : ∀ label index instr, fn.At label index instr → instr.WellTyped signatures
  reachable : ∀ label ∈ fn.labels, ∃ before, fn.Path entry (label :: before)
  unentered : ∀ source, ¬ fn.Edge source entry

variable {fn : Function} {entry : Text}

/-- If no edge loses a label of the certificate, every path to a label has passed those above it. -/
theorem Path.passed {above : Text → List Text} (top : above entry = [])
    (kept : ∀ source target, fn.Edge source target → ∀ label ∈ above target, label = source ∨ label ∈ above source)
    {path : List Text} (way : fn.Path entry path) :
    ∀ label before, path = label :: before → ∀ passed ∈ above label, passed ∈ before := by
  induction way with
  | start =>
    intro label before same passed member
    cases same
    simp [top] at member
  | @step source target earlier _ edge ih =>
    intro label before same passed member
    cases same
    rcases kept source target edge passed member with rfl | higher
    · exact List.mem_cons_self
    · exact List.mem_cons_of_mem _ (ih source earlier rfl passed higher)
theorem available_of_above {above : Text → List Text} (top : above entry = [])
    (kept : ∀ source target, fn.Edge source target → ∀ label ∈ above target, label = source ∨ label ∈ above source)
    {name label place : Text} {type : Ty} {index position : Nat} {instr : Instr} (found : fn.At place position instr)
    (yields : instr.yields? = some (name,type)) (visible : place ∈ above label ∨ (place = label ∧ position < index)) :
    fn.Available entry name type label index := by
  refine ⟨place,position,instr,found,yields,?_⟩
  intro before way
  rcases visible with higher | here
  · exact .inl (way.passed top kept label before rfl place higher)
  · exact .inr here
theorem Path.of_reachable {root label : Text} {before : List Text} (path : fn.Path entry (root :: before))
    (way : Relation.ReflTransGen fn.Edge root label) : ∃ before, fn.Path entry (label :: before) := by
  induction way with
  | refl => exact ⟨before,path⟩
  | @tail source target _ edge ih =>
    obtain ⟨earlier,path⟩ := ih
    exact ⟨source :: earlier,path.step edge⟩

end Function

end Lev
