import Lev.Build.Draft
import Lev.Proofs.Lowering

/-!
The entry function from its first block to its last instruction. It starts with an empty block for the
cells and an empty one for the program; lowering fills them; the value is returned and the cells lead
to the program. The result is in static single assignment form.
-/
namespace Lev
open Attempt (Meets)

namespace Function

/-- A function whose invariants hold, all of whose blocks have their end and whose entry leads to the root,
    is well formed. -/
theorem Linked.wellFormed {fn : Function} {signatures : Table Nat} {entry root : Text} {above : Text → List Text}
    (linked : fn.Linked signatures entry root above) (named : fn.Named) (top : above entry = [])
    (first : fn.labels.head? = some entry) (closed : ∀ label instrs, fn.code? label = some instrs → Closed instrs)
    (reached : ∀ label ∈ fn.labels, label = entry ∨ Relation.ReflTransGen fn.Edge root label)
    (enters : fn.Edge entry root) : fn.WellFormed signatures entry where
  first := first
  distinct := named.labels
  single := named.resultOnce
  closed block member := Closed.isClosed (closed _ _ ((mem_blocks_iff named.labels).mp member))
  phisFirst block member := linked.phisFirst _ _ ((mem_blocks_iff named.labels).mp member)
  edges := linked.edges
  operands label index instr name type found member := by
    obtain ⟨place,position,other,at_other,yields,visible⟩ := linked.operands label index instr found _ member
    exact available_of_above top linked.kept at_other yields visible
  incoming label index result type incoming found name kind source member := by
    have edge := ((linked.edges label index result type incoming found).2 source).mp (List.mem_map_of_mem member)
    obtain ⟨_,_,⟨instrs,code,_⟩,_⟩ := edge
    have seen := (linked.incoming label index result type incoming found _ source member).before code
    obtain ⟨place,position,other,at_other,yields,visible⟩ := seen
    exact ⟨instrs,code,available_of_above top linked.kept at_other yields visible⟩
  typed := linked.typed
  reachable label member := by
    rcases reached label member with rfl | way
    · exact ⟨[],.start⟩
    · exact (Path.start.step enters).of_reachable way
  unentered source edge := (linked.targets source entry edge).2 rfl

/-! ### A function without blocks -/

section
variable {fn : Function}

theorem not_at_of_empty (empty : fn.blocks = []) {label : Text} {index : Nat} {instr : Instr} : ¬ fn.At label index instr := by
  rintro ⟨instrs,code,_⟩
  simp [code?,empty] at code
theorem labels_of_empty (empty : fn.blocks = []) : fn.labels = [] := by simp [labels,empty]
theorem named_of_empty (empty : fn.blocks = []) : fn.Named where
  labels := by simp [labels_of_empty empty]
  labelUsed := by simp [labels_of_empty empty]
  resultUsed _ _ _ _ found := absurd found (not_at_of_empty empty)
  resultOnce _ _ _ _ _ _ _ found := absurd found (not_at_of_empty empty)
  apart _ _ _ found := absurd found (not_at_of_empty empty)
theorem linked_of_empty (empty : fn.blocks = []) (signatures : Table Nat) (entry root : Text) (above : Text → List Text) :
    fn.Linked signatures entry root above where
  targets _ _ edge := absurd edge.choose_spec.choose_spec.1 (not_at_of_empty empty)
  rootPlain _ _ found := absurd found (not_at_of_empty empty)
  phisFirst label instrs code := by simp [code?,empty] at code
  edges _ _ _ _ _ found := absurd found (not_at_of_empty empty)
  kept _ _ edge := absurd edge.choose_spec.choose_spec.1 (not_at_of_empty empty)
  operands _ _ _ found := absurd found (not_at_of_empty empty)
  incoming _ _ _ _ _ found := absurd found (not_at_of_empty empty)
  typed _ _ _ found := absurd found (not_at_of_empty empty)

end

end Function

namespace Frame

/-- The frame of a function that has its first two blocks. -/
def initial (fn : Function) (points : List MergePoint) (log : List Text) : Frame :=
  let entry := (fn.addBlock (lit "entry")).1
  let opened := (fn.addBlock (lit "entry")).2
  ⟨(opened.addBlock (lit "start")).2,⟨⟨entry,0⟩,[]⟩,(opened.addBlock (lit "start")).1,points,log⟩
/-- The certificate to start with: only the entry is above the root. -/
def belowEntry (entry root : Text) : Text → List Text := fun label => if label = root then [entry] else []

theorem initial_sound {fn : Function} (empty : fn.blocks = []) (signatures : Table Nat) (points : List MergePoint)
    (log : List Text) {f : Frame} (start : f = initial fn points log) :
    f.Sound signatures f.block [] (belowEntry f.entry f.block) ∧ f.function.labels = [f.entry,f.block] ∧
      f.function.code? f.block = some [] := by
  obtain ⟨opened,same⟩ : ∃ opened, opened = (fn.addBlock (lit "entry")).2 := ⟨_,rfl⟩
  have none := Function.labels_of_empty empty
  have first : Function.Opened fn opened f.entry := by
    subst same start
    exact Function.opened_addBlock (by simp [none])
  have used : opened.names.used = f.entry :: fn.names.used := by
    subst same start
    exact Function.used_register fn _
  have entryNew : f.entry ∉ fn.names.used := by
    subst start
    exact NameScope.register_fresh _ _
  have named := (Function.named_of_empty empty).opened first (by simp +contextual [used]) entryNew (by simp [used])
  have rootNew : f.block ∉ opened.names.used := by
    subst same start
    exact NameScope.register_fresh _ _
  have rootNewLabel : f.block ∉ opened.labels := fun member => rootNew (named.labelUsed _ member)
  have second : Function.Opened opened f.function f.block := by
    subst same start
    exact Function.opened_addBlock rootNewLabel
  have usedLater : f.function.names.used = f.block :: opened.names.used := by
    subst same start
    exact Function.used_register _ _
  have labels : f.function.labels = [f.entry,f.block] := by
    rw [second.labels,first.labels,none]
    rfl
  have apart : f.entry ≠ f.block := by
    intro equal
    rw [first.labels,none] at rootNewLabel
    exact rootNewLabel (by simp [equal])
  refine ⟨?_,labels,second.code_same⟩
  constructor
  · exact named.opened second (by simp +contextual [usedLater]) rootNew (by simp [usedLater])
  · exact ((Function.linked_of_empty empty signatures _ _ _).opened first).opened second
  · intro label member
    simp only [labels,List.mem_cons,List.not_mem_nil,or_false] at member
    rcases member with entry | root
    · exact .inl entry
    · exact .inr (root ▸ .refl)
  · exact ⟨[],by rw [second.code_other apart,first.code_same]; rfl,by rw [start]; rfl⟩
  · rw [start]; rfl
  · exact ⟨[],second.code_same,fun _ member => absurd member List.not_mem_nil⟩
  · exact apart.symm
  · simp
  · intro label instrs code
    have member : label ∈ f.function.labels := Function.mem_labels_iff.mpr ⟨_,code⟩
    simp only [labels,List.mem_cons,List.not_mem_nil,or_false] at member
    exact member.elim (fun entry => .inr (.inl entry)) .inl
  · simp [belowEntry]

/-! ### The end -/

/-- The frame after the value has been returned and the cells lead to the program. -/
def finished (f : Frame) (value : Value) (root : Text) : Frame :=
  let returned := f.emitted [] (.ret value)
  { returned with
    function := ((returned.function.register []).2.insert f.arena.cursor (.br root)).1
    arena := { f.arena with cursor := ⟨f.entry,f.arena.cursor.offset + 1⟩ } }

variable {signatures : Table Nat} {root : Text} {above : Text → List Text} {f : Frame}

theorem Sound.appended_finished (sound : f.Sound signatures root [] above) (value : Value) :
    ∃ (instrs : List Instr) (names : List Text), Unended instrs ∧ f.function.code? f.block = some instrs ∧
      Function.Appended f.function (f.emitted [] (.ret value)).function f.block instrs (.ret value) ∧
      Function.Appended (f.emitted [] (.ret value)).function (f.finished value root).function f.entry
        (names.map .alloca) (.br root) := by
  obtain ⟨instrs,code,unended⟩ := sound.current
  obtain ⟨names,cells,pointers⟩ := sound.cells
  have added := appended_emitted [] code (.ret value)
  refine ⟨instrs,names,unended,code,added,?_⟩
  have size : f.arena.cursor.offset = (names.map Instr.alloca).length := by
    have same := congrArg List.length pointers
    simp only [List.length_map] at same ⊢
    rw [sound.offset,same]
  have later : ((f.emitted [] (.ret value)).function.register []).2.code? f.arena.cursor.block = some (names.map .alloca) :=
    (added.code_other sound.inside.symm).trans cells
  exact Function.Appended.after_register (Function.appended_insert later size _)
theorem Sound.named_finished (sound : f.Sound signatures root [] above) (value : Value) : (f.finished value root).function.Named := by
  obtain ⟨_,_,_,_,returned,entered⟩ := sound.appended_finished value
  have usedReturned := used_emitted f [] (.ret value)
  have used : (f.finished value root).function.names.used = _ := Function.used_register (f.emitted [] (.ret value)).function []
  refine (sound.named.appended returned (by simp +contextual [usedReturned]) (by simp [Instr.result?])).appended entered
    (by rw [used]; exact fun _ => List.mem_cons_of_mem _) (by simp [Instr.result?])
/-- Filling ends in a well formed function. -/
theorem Sound.finished (sound : f.Sound signatures root [] above) {value : Value} (known : f.Knows above value)
    (type : value.type = .i32) (aboveRoot : above root = [f.entry]) (top : above f.entry = [])
    (first : f.function.labels.head? = some f.entry) :
    (f.finished value root).function.WellFormed signatures f.entry := by
  obtain ⟨instrs,names,unended,code,returned,entered⟩ := sound.appended_finished value
  have linked := sound.linked.appended returned rfl type (fun _ member => List.mem_singleton.mp member ▸ known)
    (by simp [Instr.targets])
  have plain : ∀ index other, (f.emitted [] (.ret value)).function.At root index other → other.isPhi = false := linked.rootPlain
  have rootInside : root ≠ f.entry := by
    rintro rfl
    rw [top] at aboveRoot
    cases aboveRoot
  have linked' : (f.finished value root).function.Linked signatures f.entry root above := by
    refine linked.appended entered rfl trivial (by simp [Instr.operands]) ?_
    intro target member
    cases List.mem_singleton.mp member
    refine ⟨?_,rootInside,plain,?_⟩
    · rw [returned.labels]
      exact sound.root_label
    · rw [aboveRoot]
      exact fun passed member => .inl (List.mem_singleton.mp member)
  refine linked'.wellFormed (sound.named_finished value) top ?_ ?_ ?_ ?_
  · rw [entered.labels,returned.labels]
    exact first
  · intro label others found
    by_cases atEntry : label = f.entry
    · subst atEntry
      rw [entered.code_same] at found
      cases found
      refine Unended.close ?_ rfl
      intro instr member
      obtain ⟨name,_,rfl⟩ := List.mem_map.mp member
      rfl
    · rw [entered.code_other atEntry] at found
      by_cases atEnd : label = f.block
      · subst atEnd
        rw [returned.code_same] at found
        cases found
        exact unended.close rfl
      · rw [returned.code_other atEnd] at found
        rcases sound.closed label others found with current | entry | waiting | closed
        · exact absurd current atEnd
        · exact absurd entry atEntry
        · cases waiting
        · exact closed
  · intro label member
    rw [entered.labels,returned.labels] at member
    refine (sound.reached label member).imp_right ?_
    exact Relation.ReflTransGen.mono (fun source target edge => entered.edge_iff.mpr (.inl (returned.edge_iff.mpr (.inl edge)))) _ _
  · exact entered.edge_iff.mpr (.inr ⟨rfl,List.mem_cons_self⟩)

/-- The block of the cells can be ended, once. -/
theorem Sound.closeArena_run (sound : f.Sound signatures root [] above) (value : Value) :
    Build.closeArena root (f.emitted [] (.ret value)) = (.ok (),f.finished value root) := by
  obtain ⟨_,names,_,_,returned,entered⟩ := sound.appended_finished value
  have named : (f.emitted [] (.ret value)).function.Named :=
    sound.named.appended returned (by simp +contextual [used_emitted]) (by simp [Instr.result?])
  have unended : Unended (names.map .alloca) := by
    intro instr member
    obtain ⟨name,_,rfl⟩ := List.mem_map.mp member
    rfl
  have registered : ((f.emitted [] (.ret value)).function.register []).2.isTerminated f.entry = false :=
    Function.isTerminated_eq_false named.labels entered.before unended
  unfold Build.closeArena
  rw [Attempt.bind_run_ok (Build.register_run [] _),Attempt.bind_run_ok (Attempt.read_run _ _)]
  exact congrFun (if_neg (Bool.eq_false_iff.mp registered)) _

end Frame

theorem Program.lower_sound (signatures : Table Nat) (program : Program) {root : Text} {pending : List Text}
    {above : Text → List Text} {f : Frame} (sound : f.Sound signatures root pending above) {env : Environment}
    (binds : f.Binds above env) :
    Meets (program.subject.lowerProgram signatures env) f (Frame.Gives signatures root pending above f)
      (fun fault f' => Raised signatures program.node.calls fault ∧ Frame.Stopped signatures root f f') := by
  cases program with
  | expr e => exact e.lower_sound signatures sound binds
  | block b =>
    refine .andThen (b.lower_sound signatures sound binds) ?_
    rintro ⟨value,_⟩ f₁ ⟨above₁,sound₁,advance₁,_,known₁,type₁⟩
    exact .of_run rfl ⟨above₁,sound₁,advance₁,known₁,type₁⟩

namespace Draft

/-- Filling the entry function is lowering the program and then ending the blocks that are left open. -/
theorem fillEntry_run {signatures : Table Nat} {subject : Subject} {f f' : Frame} {value : Value} {above : Text → List Text}
    (lowered : subject.lowerProgram signatures .empty f = (.ok value,f')) (sound : f'.Sound signatures f.block [] above) :
    ∃ log, fillEntry signatures subject f = (.ok (),{ f'.finished value f.block with log }) := by
  obtain ⟨instrs,code,unended⟩ := sound.current
  unfold fillEntry
  rw [Attempt.bind_run_ok (Build.currentBlock_run f),Attempt.bind_run_ok lowered,
    Attempt.bind_run_ok (Build.terminate_run sound.named code unended _),Attempt.bind_run_ok (sound.closeArena_run value)]
  exact ⟨_,rfl⟩
theorem fillEntry_run_error {signatures : Table Nat} {subject : Subject} {f f' : Frame} {fault : Fault}
    (failed : subject.lowerProgram signatures .empty f = (.error fault,f')) :
    fillEntry signatures subject f = (.error fault,f') := by
  unfold fillEntry
  rw [Attempt.bind_run_ok (Build.currentBlock_run f),Attempt.bind_run_error failed]

end Draft

end Lev
