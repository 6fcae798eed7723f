import Lev.Build.MergePoint
import Lev.Proofs.Attempt
import Lev.Proofs.Sound

/-!
The steps of filling a function outside of loops and what each of them keeps: an instruction at the
current place, and a cell.
-/
namespace Lev

namespace Frame

/-- The name that a base gets next. -/
def fresh (f : Frame) (base : Text) : Text := (f.function.register base).1
/-- The frame after an instruction has taken a name and its place. -/
def emitted (f : Frame) (base : Text) (instr : Instr) : Frame :=
  { f with function := (f.function.register base).2.append f.block instr }

variable {signatures : Table Nat} {root : Text} {pending : List Text} {above : Text → List Text} {f : Frame}

theorem fresh_not_used (f : Frame) (base : Text) : f.fresh base ∉ f.function.names.used :=
  NameScope.register_fresh f.function.names base
theorem used_emitted (f : Frame) (base : Text) (instr : Instr) :
    (f.emitted base instr).function.names.used = f.fresh base :: f.function.names.used :=
  Function.used_register f.function base
theorem appended_emitted (base : Text) {instrs : List Instr} (code : f.function.code? f.block = some instrs) (instr : Instr) :
    Function.Appended f.function (f.emitted base instr).function f.block instrs instr :=
  Function.Appended.after_register (Function.appended_append (by simpa using code) instr)
theorem Ready.named_emitted (ready : f.Ready) {base : Text} {instr : Instr}
    (result : ∀ name, instr.result? = some name → name = f.fresh base) : (f.emitted base instr).function.Named := by
  obtain ⟨instrs,code,_⟩ := ready.current
  have used := used_emitted f base instr
  refine ready.named.appended (appended_emitted base code instr) (by simp +contextual [used]) ?_
  intro name yields
  rw [result name yields,used]
  exact ⟨f.fresh_not_used base,List.mem_cons_self⟩

/-- The invariant depends on the function, its cells and the current place only. -/
theorem Sound.congr (sound : f.Sound signatures root pending above) {f' : Frame} (function : f'.function = f.function)
    (arena : f'.arena = f.arena) (block : f'.block = f.block) : f'.Sound signatures root pending above := by
  obtain ⟨fn,cells,place,points,log⟩ := f
  obtain ⟨fn',cells',place',points',log'⟩ := f'
  simp only at function arena block
  subst function arena block
  exact ⟨sound.named,sound.linked,sound.reached,sound.cells,sound.offset,sound.current,sound.inside,sound.waiting,
    sound.closed,sound.below⟩
theorem edge_emitted (sound : f.Sound signatures root pending above) (base : Text) (instr : Instr)
    (stays : instr.isTerminator = false) (source target : Text) : (f.emitted base instr).function.Edge source target ↔ f.function.Edge source target := by
  obtain ⟨instrs,code,_⟩ := sound.current
  rw [(appended_emitted base code instr).edge_iff,Instr.targets_eq_nil stays]
  simp
/-- An instruction that leaves the current block open keeps the invariant if it keeps control flow and
    visibility in order. -/
theorem Sound.emitted_of_linked (sound : f.Sound signatures root pending above) {base : Text} {instr : Instr}
    (stays : instr.isTerminator = false) (result : ∀ name, instr.result? = some name → name = f.fresh base)
    (linked : (f.emitted base instr).function.Linked signatures f.entry root above) : (f.emitted base instr).Sound signatures root pending above := by
  obtain ⟨instrs,code,unended⟩ := sound.current
  have added := appended_emitted base code instr
  constructor
  · exact sound.ready.named_emitted result
  · exact linked
  · intro label member
    rw [added.labels] at member
    rcases sound.reached label member with entry | way
    · exact .inl entry
    · exact .inr (Relation.ReflTransGen.mono (fun source target => (edge_emitted sound base instr stays source target).mpr) _ _ way)
  · obtain ⟨names,cells,pointers⟩ := sound.cells
    exact ⟨names,(added.code_other sound.inside.symm).trans cells,pointers⟩
  · exact sound.offset
  · exact ⟨instrs ++ [instr],added.code_same,unended.snoc stays⟩
  · exact sound.inside
  · intro label member
    obtain ⟨empty,notCurrent,notEntry⟩ := sound.waiting label member
    exact ⟨(added.code_other notCurrent).trans empty,notCurrent,notEntry⟩
  · intro label others found
    by_cases here : label = f.block
    · exact .inl here
    · rw [added.code_other here] at found
      exact sound.closed label others found
  · exact sound.below
/-- An instruction at the current place, whose operands are known there. -/
theorem Sound.emitted (sound : f.Sound signatures root pending above) {base : Text} {instr : Instr} (plain : instr.isPhi = false)
    (stays : instr.isTerminator = false) (typed : instr.WellTyped signatures) (known : ∀ value ∈ instr.operands, f.Knows above value)
    (result : ∀ name, instr.result? = some name → name = f.fresh base) :
    (f.emitted base instr).Sound signatures root pending above ∧ Advance above above f (f.emitted base instr) := by
  obtain ⟨instrs,code,_⟩ := sound.current
  have added := appended_emitted base code instr
  refine ⟨sound.emitted_of_linked stays result ?_,?_⟩
  · exact sound.linked.appended added plain typed known (by simp [Instr.targets_eq_nil stays])
  · constructor
    · intro label others found
      by_cases here : label = f.block
      · subst here
        rw [code] at found
        cases found
        refine ⟨[instr],added.code_same,?_,fun elsewhere => absurd rfl elsewhere⟩
        intro other member
        exact List.mem_singleton.mp member ▸ plain
      · exact ⟨[],by rw [List.append_nil]; exact (added.code_other here).trans found,by simp,fun _ _ => rfl⟩
    · exact added.labels ▸ List.prefix_refl _
    · exact .inl rfl
    · exact fun source target _ => edge_emitted sound base instr stays source target
    · simp +contextual [used_emitted]
    · rfl
    · exact List.prefix_refl _
    · exact List.prefix_refl _
    · exact ⟨rfl,rfl⟩
    · exact fun _ _ => rfl
    · exact fun _ visible => visible
theorem knows_emitted (sound : f.Sound signatures root pending above) (base : Text) {instr : Instr} {name : Text} {type : Ty}
    (yields : instr.yields? = some (name,type)) : (f.emitted base instr).Knows above (.reg name type) := by
  obtain ⟨instrs,code,_⟩ := sound.current
  exact ⟨f.block,instrs.length,instr,(appended_emitted base code instr).at_iff.mpr (.inr ⟨rfl,rfl,rfl⟩),yields,.inr rfl⟩

/-! ### Cells -/

/-- The cell that is allocated next. -/
abbrev newCell (f : Frame) (name : Text) : Cell := ⟨f.arena.cells.length,name,.reg (f.fresh name) .pointer⟩
/-- The frame after a cell has been allocated. -/
def allocated (f : Frame) (name : Text) : Frame :=
  { f with
    arena := ⟨⟨f.entry,f.arena.cursor.offset + 1⟩,f.arena.cells ++ [f.newCell name]⟩
    function := ((f.function.register name).2.insert f.arena.cursor (.alloca (f.fresh name))).1 }

theorem used_allocated (f : Frame) (name : Text) :
    (f.allocated name).function.names.used = f.fresh name :: f.function.names.used :=
  Function.used_register f.function name
theorem Ready.appended_allocated (ready : f.Ready) (name : Text) :
    ∃ instrs, Function.Appended f.function (f.allocated name).function f.entry instrs (.alloca (f.fresh name)) := by
  obtain ⟨instrs,code,atEnd⟩ := ready.cells
  have registered : (f.function.register name).2.code? f.arena.cursor.block = some instrs := code
  exact ⟨instrs,Function.Appended.after_register (Function.appended_insert registered atEnd _)⟩
theorem Ready.named_allocated (ready : f.Ready) (name : Text) : (f.allocated name).function.Named := by
  obtain ⟨instrs,added⟩ := ready.appended_allocated name
  have used := used_allocated f name
  refine ready.named.appended added (by simp +contextual [used]) ?_
  intro other yields
  cases yields
  rw [used]
  exact ⟨f.fresh_not_used name,List.mem_cons_self⟩
theorem appended_allocated (sound : f.Sound signatures root pending above) (name : Text) :
    ∃ names : List Text, f.arena.cells.map Cell.pointer = names.map (Value.reg · .pointer) ∧
      Function.Appended f.function (f.allocated name).function f.entry (names.map .alloca) (.alloca (f.fresh name)) := by
  obtain ⟨names,code,pointers⟩ := sound.cells
  obtain ⟨instrs,added⟩ := sound.ready.appended_allocated name
  cases added.before.symm.trans code
  exact ⟨names,pointers,added⟩
/-- A cell goes to the entry, which is above the current block. -/
theorem Sound.allocated (sound : f.Sound signatures root pending above) (name : Text) :
    (f.allocated name).Sound signatures root pending above ∧ Advance above above f (f.allocated name) ∧
      (f.allocated name).Knows above (.reg (f.fresh name) .pointer) := by
  obtain ⟨names,pointers,added⟩ := appended_allocated sound name
  have grown : ∀ other ∈ f.function.names.used, other ∈ (f.allocated name).function.names.used := by
    simp +contextual [used_allocated]
  have ways : ∀ source target, (f.allocated name).function.Edge source target ↔ f.function.Edge source target := by
    intro source target
    rw [added.edge_iff]
    simp [Instr.targets]
  refine ⟨?_,?_,?_⟩
  · constructor
    · exact sound.ready.named_allocated name
    · exact sound.linked.appended added rfl trivial (by simp [Instr.operands]) (by simp [Instr.targets])
    · intro label member
      rw [added.labels] at member
      rcases sound.reached label member with entry | way
      · exact .inl entry
      · exact .inr (Relation.ReflTransGen.mono (fun source target edge => (ways source target).mpr edge) _ _ way)
    · refine ⟨names ++ [f.fresh name],?_,?_⟩
      · rw [List.map_append]
        exact added.code_same
      · simp [Frame.allocated,pointers]
    · simp [Frame.allocated,sound.offset]
    · obtain ⟨instrs,code,unended⟩ := sound.current
      exact ⟨instrs,(added.code_other sound.inside).trans code,unended⟩
    · exact sound.inside
    · intro label member
      obtain ⟨empty,notCurrent,notEntry⟩ := sound.waiting label member
      exact ⟨(added.code_other notEntry).trans empty,notCurrent,notEntry⟩
    · intro label others found
      by_cases here : label = f.entry
      · exact .inr (.inl here)
      · rw [added.code_other here] at found
        exact sound.closed label others found
    · exact sound.below
  · constructor
    · intro label others found
      by_cases here : label = f.entry
      · subst here
        rw [added.before] at found
        cases found
        refine ⟨[.alloca (f.fresh name)],added.code_same,by simp [Instr.isPhi],fun _ elsewhere => absurd rfl elsewhere⟩
      · exact ⟨[],by rw [List.append_nil]; exact (added.code_other here).trans found,by simp,fun _ _ => rfl⟩
    · exact added.labels ▸ List.prefix_refl _
    · exact .inl rfl
    · exact fun source target _ => ways source target
    · exact grown
    · rfl
    · exact List.prefix_append _ _
    · exact List.prefix_refl _
    · exact ⟨rfl,rfl⟩
    · exact fun _ _ => rfl
    · exact fun _ visible => visible
  · exact ⟨f.entry,_,_,added.at_iff.mpr (.inr ⟨rfl,rfl,rfl⟩),rfl,.inl sound.below⟩

end Frame

namespace Build

theorem register_run (base : Text) (f : Frame) :
    register base f = (.ok (f.fresh base),{ f with function := (f.function.register base).2 }) := rfl
theorem emitUnnamed_run (instr : Instr) (f : Frame) : emitUnnamed instr f = (.ok (),f.emitted [] instr) := rfl
theorem emitNamed_run (base : Text) (instr : Text → Instr) (f : Frame) :
    emitNamed base instr f = (.ok (.reg (f.fresh base) .i32),f.emitted base (instr (f.fresh base))) := rfl
theorem allocate_run (name : Text) (f : Frame) :
    allocate name f = (.ok (f.newCell name),f.allocated name) := rfl
/-- A block that is open can be ended. -/
theorem terminate_run {f : Frame} {instrs : List Instr} (named : f.function.Named)
    (code : f.function.code? f.block = some instrs) (unended : Unended instrs) (instr : Instr) :
    terminate instr f = (.ok (),f.emitted [] instr) := by
  have registered : (f.function.register []).2.isTerminated f.block = false :=
    Function.isTerminated_eq_false named.labels code unended
  unfold terminate
  rw [Attempt.bind_run_ok (register_run [] f),Attempt.bind_run_ok (Attempt.read_run _ _),if_neg (by simp [registered])]
  rfl

end Build

end Lev
