import Lev.IR.Basic
import Lev.Proofs.Names
import Mathlib.Data.List.Nodup
import Mathlib.Tactic.Common

/-!
The code of a function seen through its labels. Every change that a build makes to a function is an
instruction at the end of a block, a new empty block or one more edge of a phi; the lemmas say which
instruction stands where afterwards.
-/
namespace Lev

@[simp] theorem Constant.known?_word (n : Int) : (word n).known? = some n := rfl

namespace Instr

def isPhi : Instr → Bool
  | .phi _ _ _ => true
  | _ => false
/-- The name and type of the value that the instruction yields. -/
def yields? : Instr → Option (Text × Ty)
  | .alloca result => some (result,.pointer)
  | .load result _ => some (result,.i32)
  | .arith result _ _ _ => some (result,.i32)
  | .call result _ _ => some (result,.i32)
  | .isZero result _ => some (result,.i1)
  | .phi result type _ => some (result,type)
  | _ => none
/-- The labels that control can pass to from the instruction. -/
def targets : Instr → List Text
  | .br target => [target]
  | .condBr _ yes no => [yes,no]
  | _ => []

theorem result?_eq (instr : Instr) : instr.result? = instr.yields?.map Prod.fst := by
  cases instr <;> rfl
theorem targets_eq_nil {instr : Instr} (stays : instr.isTerminator = false) : instr.targets = [] := by
  cases instr <;> simp_all [isTerminator,targets]

section
variable (name : Text) (edge : Value × Text) (instr : Instr)

@[simp] theorem isTerminator_addIncoming : (instr.addIncoming name edge).isTerminator = instr.isTerminator := by
  cases instr <;> rfl
@[simp] theorem yields?_addIncoming : (instr.addIncoming name edge).yields? = instr.yields? := by
  cases instr <;> rfl
@[simp] theorem targets_addIncoming : (instr.addIncoming name edge).targets = instr.targets := by
  cases instr <;> rfl
theorem addIncoming_of_ne (other : instr.result? ≠ some name) : instr.addIncoming name edge = instr := by
  cases instr <;> simp_all [addIncoming,result?]

end

end Instr

namespace Function

/-- The labels of the blocks in order. -/
def labels (fn : Function) : List Text := fn.blocks.map BasicBlock.label
/-- The instructions of the block of a label. -/
def code? (fn : Function) (label : Text) : Option (List Instr) :=
  (fn.blocks.find? (·.label = label)).map BasicBlock.instrs
/-- The instruction stands at an index of the block of a label. -/
def At (fn : Function) (label : Text) (index : Nat) (instr : Instr) : Prop :=
  ∃ instrs, fn.code? label = some instrs ∧ instrs[index]? = some instr
/-- Control can pass from the block of one label to the block of another. -/
def Edge (fn : Function) (source target : Text) : Prop :=
  ∃ index instr, fn.At source index instr ∧ target ∈ instr.targets

theorem mem_labels_iff {fn : Function} {label : Text} : label ∈ fn.labels ↔ ∃ instrs, fn.code? label = some instrs := by
  constructor
  · intro member
    obtain ⟨block,inside,rfl⟩ := List.mem_map.mp member
    have found : (fn.blocks.find? (·.label = block.label)).isSome := by
      rw [List.find?_isSome]
      exact ⟨block,inside,by simp⟩
    obtain ⟨first,same⟩ := Option.isSome_iff_exists.mp found
    exact ⟨first.instrs,by rw [code?,same]; rfl⟩
  · rintro ⟨instrs,found⟩
    obtain ⟨block,first,_⟩ := Option.map_eq_some_iff.mp found
    have same : block.label = label := by simpa using List.find?_some first
    exact List.mem_map.mpr ⟨block,List.mem_of_find?_eq_some first,same⟩
/-- Where labels are distinct, a block is the code of its label. -/
theorem mem_blocks_iff {fn : Function} (distinct : fn.labels.Nodup) {block : BasicBlock} :
    block ∈ fn.blocks ↔ fn.code? block.label = some block.instrs := by
  constructor
  · intro member
    have found := mem_labels_iff.mp (List.mem_map_of_mem member : block.label ∈ fn.labels)
    obtain ⟨instrs,code⟩ := found
    obtain ⟨other,first,rfl⟩ := Option.map_eq_some_iff.mp code
    have same : other.label = block.label := by simpa using List.find?_some first
    have equal := List.inj_on_of_nodup_map distinct (List.mem_of_find?_eq_some first) member same
    rw [code,equal]
  · intro code
    obtain ⟨other,first,same⟩ := Option.map_eq_some_iff.mp code
    have label : other.label = block.label := by simpa using List.find?_some first
    have equal : other = block := by
      cases other; cases block
      simp_all
    exact equal ▸ List.mem_of_find?_eq_some first
theorem At.mem_labels {fn : Function} {label : Text} {index : Nat} {instr : Instr} (place : fn.At label index instr) :
    label ∈ fn.labels := by
  obtain ⟨instrs,code,_⟩ := place
  exact mem_labels_iff.mpr ⟨instrs,code⟩
theorem At.mem {fn : Function} {label : Text} {index : Nat} {instr : Instr} {instrs : List Instr}
    (place : fn.At label index instr) (code : fn.code? label = some instrs) : instr ∈ instrs := by
  obtain ⟨others,found,inside⟩ := place
  rw [code] at found
  cases found
  exact List.mem_of_getElem? inside
theorem At.of_mem {fn : Function} {label : Text} {instr : Instr} {instrs : List Instr}
    (code : fn.code? label = some instrs) (member : instr ∈ instrs) : ∃ index, fn.At label index instr := by
  obtain ⟨index,inside⟩ := List.getElem?_of_mem member
  exact ⟨index,instrs,code,inside⟩
/-- An instruction stays in its place if its block only gets longer. -/
theorem At.longer {fn after : Function} {label : Text} {index : Nat} {instr : Instr} (place : fn.At label index instr)
    (grown : ∀ instrs, fn.code? label = some instrs → ∃ added, after.code? label = some (instrs ++ added)) : after.At label index instr := by
  obtain ⟨instrs,code,inside⟩ := place
  obtain ⟨added,later⟩ := grown instrs code
  refine ⟨instrs ++ added,later,?_⟩
  rw [List.getElem?_append_left (List.getElem?_eq_some_iff.mp inside).1]
  exact inside
theorem isTerminated_eq_false {fn : Function} (distinct : fn.labels.Nodup) {label : Text} {instrs : List Instr}
    (code : fn.code? label = some instrs) (unended : ∀ instr ∈ instrs, instr.isTerminator = false) :
    fn.isTerminated label = false := by
  rw [isTerminated,List.any_eq_false]
  intro block member ended
  simp only [Bool.and_eq_true,decide_eq_true_eq] at ended
  obtain ⟨rfl,ended⟩ := ended
  have found := (mem_blocks_iff distinct).mp member
  rw [code] at found
  cases found
  obtain ⟨instr,inside,ends⟩ := List.any_eq_true.mp ended
  rw [unended instr inside] at ends
  cases ends

/-! ### The names of a function are no part of its code -/

section
variable (fn : Function) (base label : Text)

@[simp] theorem code?_register : (fn.register base).2.code? label = fn.code? label := rfl
@[simp] theorem used_register : (fn.register base).2.names.used = (fn.register base).1 :: fn.names.used :=
  NameScope.register_used fn.names base

end

/-! ### Changes to the code -/

theorem labels_updateBlock (fn : Function) (label : Text) (change : List Instr → List Instr) :
    (fn.updateBlock label change).labels = fn.labels := by
  simp only [updateBlock,labels,List.map_map]
  apply List.map_congr_left
  intro block _
  simp only [Function.comp]
  split <;> rfl
theorem code?_updateBlock (fn : Function) (label other : Text) (change : List Instr → List Instr) :
    (fn.updateBlock label change).code? other =
      if other = label then (fn.code? label).map change else fn.code? other := by
  unfold updateBlock code?
  induction fn.blocks with
  | nil => simp
  | cons block rest ih =>
    by_cases asked : other = label
    · subst asked
      by_cases here : block.label = other
      · simp [here]
      · simpa [here] using ih
    · by_cases here : block.label = label
      · have elsewhere : ¬ block.label = other := fun same => asked (same.symm.trans here)
        simpa [here,asked,elsewhere,Ne.symm asked] using ih
      · by_cases found : block.label = other
        · simp [asked,found]
        · simpa [here,asked,found] using ih

/-- The second function is the first with an instruction at the end of the block of a label. Names that
    were handed out meanwhile do not matter. -/
structure Appended (fn after : Function) (label : Text) (instrs : List Instr) (instr : Instr) : Prop where
  before : fn.code? label = some instrs
  code : ∀ other, after.code? other = if other = label then some (instrs ++ [instr]) else fn.code? other
  labels : after.labels = fn.labels

theorem appended_append {fn : Function} {label : Text} {instrs : List Instr} (code : fn.code? label = some instrs)
    (instr : Instr) : Appended fn (fn.append label instr) label instrs instr where
  before := code
  code other := by rw [append,code?_updateBlock,code]; rfl
  labels := labels_updateBlock fn label _
/-- A cursor at the end of its block inserts at the end. -/
theorem appended_insert {fn : Function} {cursor : Cursor} {instrs : List Instr}
    (code : fn.code? cursor.block = some instrs) (atEnd : cursor.offset = instrs.length) (instr : Instr) :
    Appended fn (fn.insert cursor instr).1 cursor.block instrs instr where
  before := code
  code other := by simp [insert,code?_updateBlock,code,atEnd]
  labels := labels_updateBlock fn cursor.block _
theorem Appended.after_register {fn after : Function} {base label : Text} {instrs : List Instr} {instr : Instr}
    (added : Appended (fn.register base).2 after label instrs instr) : Appended fn after label instrs instr :=
  ⟨added.before,added.code,added.labels⟩

namespace Appended
variable {fn after : Function} {label : Text} {instrs : List Instr} {instr : Instr}

theorem code_same (added : Appended fn after label instrs instr) : after.code? label = some (instrs ++ [instr]) := by
  rw [added.code,if_pos rfl]
theorem code_other (added : Appended fn after label instrs instr) {other : Text} (elsewhere : other ≠ label) :
    after.code? other = fn.code? other := by
  rw [added.code,if_neg elsewhere]
/-- An instruction stands where it stood, or it is the one that was added. -/
theorem at_iff (added : Appended fn after label instrs instr) {place : Text} {index : Nat} {found : Instr} :
    after.At place index found ↔
      fn.At place index found ∨ (place = label ∧ index = instrs.length ∧ found = instr) := by
  unfold At
  rw [added.code]
  by_cases here : place = label
  · subst here
    simp only [if_true,added.before,Option.some.injEq,exists_eq_left']
    rw [List.getElem?_append]
    by_cases inside : index < instrs.length
    · have : index ≠ instrs.length := by omega
      simp [inside,this]
    · by_cases last : index = instrs.length
      · simp [last,eq_comm]
      · have gap : index - instrs.length ≠ 0 := by omega
        simp [inside,last,gap]
  · simp [here]
theorem edge_iff (added : Appended fn after label instrs instr) {source target : Text} :
    after.Edge source target ↔ fn.Edge source target ∨ (source = label ∧ target ∈ instr.targets) := by
  unfold Edge
  simp only [added.at_iff]
  constructor
  · rintro ⟨index,found,old | ⟨rfl,rfl,rfl⟩,leads⟩
    · exact .inl ⟨index,found,old,leads⟩
    · exact .inr ⟨rfl,leads⟩
  · rintro (⟨index,found,old,leads⟩ | ⟨rfl,leads⟩)
    · exact ⟨index,found,.inl old,leads⟩
    · exact ⟨instrs.length,instr,.inr ⟨rfl,rfl,rfl⟩,leads⟩

end Appended

/-- The second function is the first with a new empty block. -/
structure Opened (fn after : Function) (label : Text) : Prop where
  fresh : label ∉ fn.labels
  code : ∀ other, after.code? other = if other = label then some [] else fn.code? other
  labels : after.labels = fn.labels ++ [label]

theorem opened_addBlock {fn : Function} {base : Text} (fresh : (fn.addBlock base).1 ∉ fn.labels) :
    Opened fn (fn.addBlock base).2 (fn.addBlock base).1 where
  fresh := fresh
  code other := by
    have blocks : (fn.addBlock base).2.blocks = fn.blocks ++ [⟨(fn.addBlock base).1,[]⟩] := rfl
    unfold code?
    rw [blocks,List.find?_append]
    by_cases asked : other = (fn.addBlock base).1
    · have missing : fn.blocks.find? (·.label = other) = none := by
        rw [List.find?_eq_none]
        intro block member same
        exact fresh (List.mem_map.mpr ⟨block,member,by simpa [asked] using same⟩)
      rw [missing]
      simp [asked]
    · simp [asked,Ne.symm asked]
  labels := by simp [addBlock,Function.labels,register]

namespace Opened
variable {fn after : Function} {label : Text}

theorem code_same (added : Opened fn after label) : after.code? label = some [] := by
  rw [added.code,if_pos rfl]
theorem code_other (added : Opened fn after label) {other : Text} (elsewhere : other ≠ label) :
    after.code? other = fn.code? other := by
  rw [added.code,if_neg elsewhere]
theorem at_iff (added : Opened fn after label) {place : Text} {index : Nat} {found : Instr} :
    after.At place index found ↔ fn.At place index found := by
  unfold At
  rw [added.code]
  by_cases here : place = label
  · subst here
    have missing : fn.code? place = none := by
      rw [Option.eq_none_iff_forall_ne_some]
      exact fun instrs code => added.fresh (mem_labels_iff.mpr ⟨instrs,code⟩)
    simp [missing]
  · simp [here]
theorem edge_iff (added : Opened fn after label) {source target : Text} :
    after.Edge source target ↔ fn.Edge source target := by
  simp only [Edge,added.at_iff]

end Opened

/-- The second function is the first with every instruction changed in its place. -/
structure Patched (fn after : Function) (change : Instr → Instr) : Prop where
  code : ∀ label, after.code? label = (fn.code? label).map (List.map change)
  labels : after.labels = fn.labels

theorem patched_addIncoming (fn : Function) (phi : Text) (edge : Value × Text) :
    Patched fn (fn.addIncoming phi edge) (Instr.addIncoming phi edge) where
  code label := by
    unfold addIncoming code?
    simp only [List.find?_map,Option.map_map]
    rfl
  labels := by simp [addIncoming,Function.labels,Function.comp_def]
theorem Patched.refl (fn : Function) : Patched fn fn id := ⟨by simp,rfl⟩
theorem Patched.trans {fn mid after : Function} {change next : Instr → Instr} (first : Patched fn mid change)
    (second : Patched mid after next) : Patched fn after (next ∘ change) where
  code label := by rw [second.code,first.code,Option.map_map,List.map_comp_map]
  labels := second.labels.trans first.labels
theorem Patched.at_iff {fn after : Function} {change : Instr → Instr} (patched : Patched fn after change)
    {place : Text} {index : Nat} {found : Instr} :
    after.At place index found ↔ ∃ old, fn.At place index old ∧ found = change old := by
  unfold At
  rw [patched.code]
  constructor
  · rintro ⟨instrs,code,inside⟩
    obtain ⟨olds,before,rfl⟩ := Option.map_eq_some_iff.mp code
    rw [List.getElem?_map] at inside
    obtain ⟨old,here,rfl⟩ := Option.map_eq_some_iff.mp inside
    exact ⟨old,⟨olds,before,here⟩,rfl⟩
  · rintro ⟨old,⟨olds,before,here⟩,rfl⟩
    exact ⟨olds.map change,by rw [before]; rfl,by rw [List.getElem?_map,here]; rfl⟩
theorem Patched.edge_iff {fn after : Function} {change : Instr → Instr} (patched : Patched fn after change)
    (targets : ∀ instr, (change instr).targets = instr.targets) {source target : Text} :
    after.Edge source target ↔ fn.Edge source target := by
  unfold Edge
  simp only [patched.at_iff]
  constructor
  · rintro ⟨index,_,⟨old,found,rfl⟩,leads⟩
    exact ⟨index,old,found,targets old ▸ leads⟩
  · rintro ⟨index,old,found,leads⟩
    exact ⟨index,change old,⟨old,found,rfl⟩,(targets old).symm ▸ leads⟩

/-- Every instruction satisfies the condition, in the block of its label. -/
def Each (holds : Text → Instr → Prop) (fn : Function) : Prop :=
  ∀ block ∈ fn.blocks, ∀ instr ∈ block.instrs, holds block.label instr

namespace Each
variable {fn : Function} {holds : Text → Instr → Prop} {label : Text} {instr : Instr}

theorem updateBlock (each : fn.Each holds) {change : List Instr → List Instr}
    (kept : ∀ instrs, (∀ instr ∈ instrs, holds label instr) → ∀ instr ∈ change instrs, holds label instr) :
    (fn.updateBlock label change).Each holds := by
  intro block member
  obtain ⟨old,listed,rfl⟩ := List.mem_map.mp member
  by_cases here : old.label = label
  · simp only [here,if_true]
    exact kept old.instrs (here ▸ each old listed)
  · simp only [here,if_false]
    exact each old listed
theorem append (each : fn.Each holds) (last : holds label instr) : (fn.append label instr).Each holds := by
  refine each.updateBlock fun instrs before other inside => ?_
  rcases List.mem_append.mp inside with old | new
  · exact before other old
  · exact List.mem_singleton.mp new ▸ last
theorem insert (each : fn.Each holds) {cursor : Cursor} (new : holds cursor.block instr) :
    (fn.insert cursor instr).1.Each holds := by
  refine each.updateBlock fun instrs before other inside => ?_
  rcases List.mem_append.mp inside with early | late
  · exact before other (List.mem_of_mem_take early)
  · rcases List.mem_cons.mp late with rfl | later
    · exact new
    · exact before other (List.mem_of_mem_drop later)
theorem addBlock (each : fn.Each holds) (base : Text) : (fn.addBlock base).2.Each holds := by
  intro block member instr inside
  rcases List.mem_append.mp member with old | new
  · exact each block old instr inside
  · cases List.mem_singleton.mp new
    cases inside
theorem addIncoming (each : fn.Each holds) {phi : Text} {edge : Value × Text}
    (kept : ∀ label instr, holds label instr → holds label (instr.addIncoming phi edge)) :
    (fn.addIncoming phi edge).Each holds := by
  intro block member instr inside
  obtain ⟨old,listed,rfl⟩ := List.mem_map.mp member
  obtain ⟨before,earlier,rfl⟩ := List.mem_map.mp inside
  exact kept _ _ (each old listed before earlier)

end Each

end Function

end Lev
