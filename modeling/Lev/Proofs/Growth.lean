import Lev.Proofs.Loops

/-!
What lowering leaves of what was there, in any environment and whether it succeeds or not. A frame `Grows` if blocks other
than the current one and the entry stay as they are, these two only get longer, the entry by cells alone, and only loops that
are complete are listed. It `Continues` if, in addition, every block that was begun has its end, up to the one that is current
then. Main statement: lowering continues the frame it starts from if it succeeds, and lets it grow if it fails.
-/
namespace Lev
open Attempt (Meets)
open MergePoint (opening)

/-- The loop of the merge point stands in the function from its start to its end: the block before it and its latch both
    branch past the loop or into it, and the phi has an edge from each of them. -/
structure MergePoint.Completed (fn : Function) (header exit latch : Text) (point : MergePoint) : Prop where
  latched : point.latch = some latch
  edges : ∃ index first carried, fn.At header index (.phi point.phi point.type [(first,point.preheader),(carried,latch)])
  entered : ∃ index skip, fn.At point.preheader index (.condBr skip exit header)
  repeated : ∃ index leave, fn.At latch index (.condBr leave exit header)
  left : exit ∈ fn.labels

/-- The loop stays complete if the instructions of its header, and elsewhere those that are no phis, stay in their places. -/
theorem MergePoint.Completed.mono {fn fn' : Function} {header exit latch : Text} {point : MergePoint}
    (completed : point.Completed fn header exit latch)
    (kept : ∀ label index instr, label = header ∨ instr.isPhi = false → fn.At label index instr → fn'.At label index instr)
    (labels : ∀ label ∈ fn.labels, label ∈ fn'.labels) : point.Completed fn' header exit latch where
  latched := completed.latched
  edges := by
    obtain ⟨index,first,carried,found⟩ := completed.edges
    exact ⟨index,first,carried,kept _ _ _ (.inl rfl) found⟩
  entered := by
    obtain ⟨index,skip,found⟩ := completed.entered
    exact ⟨index,skip,kept _ _ _ (.inr rfl) found⟩
  repeated := by
    obtain ⟨index,leave,found⟩ := completed.repeated
    exact ⟨index,leave,kept _ _ _ (.inr rfl) found⟩
  left := labels _ completed.left

namespace Frame

/-- What is left of the first frame in the second, and what may be new there. -/
structure Grows (f f' : Frame) : Prop where
  ready : f'.Ready
  others : ∀ label instrs, label ≠ f.block → label ≠ f.entry → f.function.code? label = some instrs →
    f'.function.code? label = some instrs
  current : ∀ instrs, f.function.code? f.block = some instrs → ∃ added, f'.function.code? f.block = some (instrs ++ added)
  allocas : ∀ instrs, f.function.code? f.entry = some instrs →
    ∃ names : List Text, f'.function.code? f.entry = some (instrs ++ names.map .alloca)
  blocks : f.function.labels <+: f'.function.labels
  moved : f'.block = f.block ∨ f'.block ∉ f.function.labels
  entry : f'.entry = f.entry
  cells : f.arena.cells <+: f'.arena.cells
  points : ∃ listed, f'.points = f.points ++ listed ∧ ∀ point ∈ listed, ∃ header exit latch,
    (∀ label ∈ [header,exit,latch], label ∉ f.function.labels) ∧ point.Completed f'.function header exit latch
  declared : f'.function.name = f.function.name ∧ f'.function.params = f.function.params

/-- The second frame goes on where the first stood, or in a new block; in that case the block that was left has its end. All
    other new blocks have their end as well. -/
structure Continues (f f' : Frame) : Prop extends Grows f f' where
  left : f'.block ≠ f.block → ∃ instrs, f'.function.code? f.block = some instrs ∧ Closed instrs
  created : ∀ label instrs, label ∉ f.function.labels → f'.function.code? label = some instrs → label = f'.block ∨ Closed instrs

/-- All loops whose merge points are listed are complete. -/
def Complete (f : Frame) : Prop := ∀ point ∈ f.points, ∃ header exit latch, point.Completed f.function header exit latch

variable {f f' f'' : Frame}

/-! ### Growth is transitive -/

theorem Grows.code (grown : f.Grows f') {label : Text} {instrs : List Instr} (found : f.function.code? label = some instrs) :
    ∃ added, f'.function.code? label = some (instrs ++ added) := by
  by_cases atBlock : label = f.block
  · subst atBlock
    exact grown.current instrs found
  · by_cases atEntry : label = f.entry
    · subst atEntry
      obtain ⟨names,later⟩ := grown.allocas instrs found
      exact ⟨_,later⟩
    · exact ⟨[],by rw [List.append_nil]; exact grown.others label instrs atBlock atEntry found⟩
theorem Grows.place (grown : f.Grows f') {label : Text} {index : Nat} {instr : Instr} (found : f.function.At label index instr) :
    f'.function.At label index instr :=
  found.longer fun _ => grown.code
theorem Grows.completed (grown : f.Grows f') {header exit latch : Text} {point : MergePoint}
    (completed : point.Completed f.function header exit latch) : point.Completed f'.function header exit latch :=
  completed.mono (fun _ _ _ _ => grown.place) fun _ member => grown.blocks.subset member
/-- A block that was there and is not current does not become current again. -/
theorem Grows.not_current (grown : f.Grows f') {label : Text} (member : label ∈ f.function.labels) (elsewhere : label ≠ f.block) :
    label ≠ f'.block := by
  rcases grown.moved with same | new
  · exact same ▸ elsewhere
  · exact fun same => new (same ▸ member)
theorem Grows.trans (first : f.Grows f') (second : f'.Grows f'') : f.Grows f'' where
  ready := second.ready
  others label instrs elsewhere notEntry found := by
    have notCurrent := first.not_current (Function.mem_labels_iff.mpr ⟨_,found⟩) elsewhere
    exact second.others label instrs notCurrent (first.entry ▸ notEntry) (first.others label instrs elsewhere notEntry found)
  current instrs found := by
    obtain ⟨added,mid⟩ := first.current instrs found
    obtain ⟨more,last⟩ := second.code mid
    exact ⟨added ++ more,by rw [last,List.append_assoc]⟩
  allocas instrs found := by
    obtain ⟨names,mid⟩ := first.allocas instrs found
    obtain ⟨more,last⟩ := second.allocas _ (first.entry ▸ mid)
    exact ⟨names ++ more,by rw [← first.entry,last,List.map_append,List.append_assoc]⟩
  blocks := first.blocks.trans second.blocks
  moved := by
    rcases second.moved with same | new
    · exact same ▸ first.moved
    · exact .inr fun member => new (first.blocks.subset member)
  entry := second.entry.trans first.entry
  cells := first.cells.trans second.cells
  points := by
    obtain ⟨listed,same,each⟩ := first.points
    obtain ⟨more,same',each'⟩ := second.points
    refine ⟨listed ++ more,by rw [same',same,List.append_assoc],List.forall_mem_append.mpr ⟨fun point member => ?_,fun point member => ?_⟩⟩
    · obtain ⟨header,exit,latch,new,completed⟩ := each point member
      exact ⟨header,exit,latch,new,second.completed completed⟩
    · obtain ⟨header,exit,latch,new,completed⟩ := each' point member
      exact ⟨header,exit,latch,fun label inside old => new label inside (first.blocks.subset old),completed⟩
  declared := ⟨second.declared.1.trans first.declared.1,second.declared.2.trans first.declared.2⟩
theorem Grows.complete (grown : f.Grows f') (complete : f.Complete) : f'.Complete := by
  obtain ⟨listed,same,each⟩ := grown.points
  intro point member
  rw [same] at member
  rcases List.mem_append.mp member with old | new
  · obtain ⟨header,exit,latch,completed⟩ := complete point old
    exact ⟨header,exit,latch,grown.completed completed⟩
  · obtain ⟨header,exit,latch,_,completed⟩ := each point new
    exact ⟨header,exit,latch,completed⟩
/-- A block that was left, or begun and left, stays as it is. -/
theorem Continues.trans (ready : f.Ready) (first : f.Continues f') (second : f'.Continues f'') : f.Continues f'' where
  toGrows := first.toGrows.trans second.toGrows
  left away := by
    by_cases stayed : f'.block = f.block
    · exact stayed ▸ second.left (stayed ▸ away)
    · obtain ⟨instrs,code,closed⟩ := first.left stayed
      exact ⟨instrs,second.others _ _ (Ne.symm stayed) (first.entry ▸ ready.inside) code,closed⟩
  created label instrs new found := by
    by_cases old : label ∈ f'.function.labels
    · by_cases atBlock : label = f'.block
      · by_cases stayed : f''.block = f'.block
        · exact .inl (atBlock.trans stayed.symm)
        · obtain ⟨others,code,closed⟩ := second.left stayed
          cases found.symm.trans (atBlock ▸ code)
          exact .inr closed
      · obtain ⟨others,code⟩ := Function.mem_labels_iff.mp old
        have notEntry : label ≠ f'.entry := fun same => new (same.trans first.entry ▸ ready.entryHere)
        cases found.symm.trans (second.others label others atBlock notEntry code)
        exact .inr ((first.created label instrs new code).resolve_left atBlock)
    · exact second.created label instrs old found

/-! ### Single steps -/

/-- The log plays no part. -/
theorem Ready.noted (ready : f.Ready) (log : List Text) : f.Continues { f with log } where
  ready := ⟨ready.named,ready.cells,ready.current,ready.inside⟩
  others _ _ _ _ found := found
  current instrs found := ⟨[],by rw [List.append_nil]; exact found⟩
  allocas instrs found := ⟨[],by rw [List.map_nil,List.append_nil]; exact found⟩
  blocks := List.prefix_refl _
  moved := .inl rfl
  entry := rfl
  cells := List.prefix_refl _
  points := ⟨[],(List.append_nil _).symm,by simp⟩
  declared := ⟨rfl,rfl⟩
  left away := absurd rfl away
  created _ _ new found := absurd (Function.mem_labels_iff.mpr ⟨_,found⟩) new
theorem Ready.continues (ready : f.Ready) : f.Continues f := ready.noted f.log
/-- An instruction at the end of the current block that leaves it open. -/
theorem Ready.emitted (ready : f.Ready) {base : Text} {instr : Instr} (stays : instr.isTerminator = false)
    (result : ∀ name, instr.result? = some name → name = f.fresh base) : f.Continues (f.emitted base instr) := by
  obtain ⟨instrs,code,unended⟩ := ready.current
  obtain ⟨cells,entry,atEnd⟩ := ready.cells
  have added := appended_emitted base code instr
  have entry' : (f.emitted base instr).function.code? f.entry = some cells := (added.code_other ready.inside.symm).trans entry
  constructor
  · constructor
    · exact ⟨ready.named_emitted result,⟨cells,entry',atEnd⟩,⟨_,added.code_same,unended.snoc stays⟩,ready.inside⟩
    · exact fun label others elsewhere _ found => (added.code_other elsewhere).trans found
    · intro others found
      cases code.symm.trans found
      exact ⟨[instr],added.code_same⟩
    · intro others found
      cases entry.symm.trans found
      exact ⟨[],by rw [List.map_nil,List.append_nil]; exact entry'⟩
    · exact added.labels ▸ List.prefix_refl _
    · exact .inl rfl
    · rfl
    · exact List.prefix_refl _
    · exact ⟨[],(List.append_nil _).symm,by simp⟩
    · exact ⟨rfl,rfl⟩
  · exact fun away => absurd rfl away
  · exact fun label others new found => absurd (added.labels ▸ Function.mem_labels_iff.mpr ⟨_,found⟩) new
theorem Ready.allocated (ready : f.Ready) (name : Text) : f.Continues (f.allocated name) := by
  obtain ⟨instrs,code,unended⟩ := ready.current
  obtain ⟨cells,added⟩ := ready.appended_allocated name
  obtain ⟨_,entry,atEnd⟩ := ready.cells
  cases added.before.symm.trans entry
  have code' : (f.allocated name).function.code? f.block = some instrs := (added.code_other ready.inside).trans code
  constructor
  · constructor
    · refine ⟨ready.named_allocated name,⟨_,added.code_same,?_⟩,⟨instrs,code',unended⟩,ready.inside⟩
      simp [Frame.allocated,atEnd]
    · exact fun label others _ notEntry found => (added.code_other notEntry).trans found
    · intro others found
      cases code.symm.trans found
      exact ⟨[],by rw [List.append_nil]; exact code'⟩
    · intro others found
      cases entry.symm.trans found
      exact ⟨[f.fresh name],added.code_same⟩
    · exact added.labels ▸ List.prefix_refl _
    · exact .inl rfl
    · rfl
    · exact List.prefix_append _ _
    · exact ⟨[],(List.append_nil _).symm,by simp⟩
    · exact ⟨rfl,rfl⟩
  · exact fun away => absurd rfl away
  · exact fun label others new found => absurd (added.labels ▸ Function.mem_labels_iff.mpr ⟨_,found⟩) new
/-- The branch into a loop. The block after the loop has no end yet. -/
theorem Ready.branched (ready : f.Ready) (skip : Value) : f.Grows (f.branched skip) := by
  obtain ⟨instrs,_,split,named,_⟩ := ready.split skip
  obtain ⟨cells,entry,atEnd⟩ := ready.cells
  have entry' : (f.branched skip).function.code? f.entry = some cells := (split.code ready.entryHere ready.inside.symm).trans entry
  constructor
  · exact ⟨named,⟨cells,entry',atEnd⟩,⟨[],split.header_code,by simp [Unended]⟩,(split.ne_header ready.entryHere).symm⟩
  · exact fun label others elsewhere _ found => (split.code (Function.mem_labels_iff.mpr ⟨_,found⟩) elsewhere).trans found
  · intro others found
    cases split.before.symm.trans found
    exact ⟨_,split.added.code_same⟩
  · intro others found
    cases entry.symm.trans found
    exact ⟨[],by rw [List.map_nil,List.append_nil]; exact entry'⟩
  · rw [split.labels,List.append_assoc]
    exact List.prefix_append _ _
  · exact .inr split.opensHeader.fresh
  · rfl
  · exact List.prefix_refl _
  · exact ⟨[],(List.append_nil _).symm,by simp⟩
  · exact ⟨rfl,rfl⟩

/-! ### Loops -/

/-- The loop that is entered from the first frame is being filled in the second: its header starts with the phis of its merge
    points, which are not latched. -/
structure Inside (f₀ : Frame) (skip : Value) (env₀ : Environment) (points : List MergePoint) (f : Frame) : Prop where
  outside : f₀.Ready
  grown : (f₀.branched skip).Continues f
  code : ∃ rest, f.function.code? f₀.header = some (points.map (opening env₀) ++ rest)
  unlatched : ∀ point ∈ points, point.preheader = f₀.block ∧ point.latch = none

namespace Inside
variable {f₀ : Frame} {skip leave : Value} {env₀ env : Environment} {points : List MergePoint} {log : List Text}

theorem grows (inside : f₀.Inside skip env₀ points f) : f₀.Grows f := (inside.outside.branched skip).trans inside.grown.toGrows
theorem step (inside : f₀.Inside skip env₀ points f) (further : f.Continues f') : f₀.Inside skip env₀ points f' where
  outside := inside.outside
  grown := inside.grown.trans (inside.outside.branched skip).ready further
  code := by
    obtain ⟨rest,code⟩ := inside.code
    obtain ⟨added,later⟩ := further.code code
    exact ⟨rest ++ added,by rw [later,List.append_assoc]⟩
  unlatched := inside.unlatched
/-- The current block is one of the loop. -/
theorem new (inside : f₀.Inside skip env₀ points f) : f.block ∉ f₀.function.labels ∧ f.block ≠ f₀.exit := by
  obtain ⟨instrs,_,split,_⟩ := inside.outside.split skip
  have labels := split.labels
  rcases inside.grown.moved with atHeader | new
  · rw [atHeader]
    exact ⟨split.opensHeader.fresh,split.exit_new.2.symm⟩
  · simp only [labels,List.mem_append,List.mem_singleton,not_or] at new
    exact ⟨new.1.1,new.2⟩
/-- The blocks that the branch into the loop has left behind. -/
theorem code_before (inside : f₀.Inside skip env₀ points f) {label : Text} {instrs : List Instr}
    (found : (f₀.branched skip).function.code? label = some instrs) (notHeader : label ≠ f₀.header) (notEntry : label ≠ f₀.entry) :
    f.function.code? label = some instrs :=
  inside.grown.others label instrs notHeader notEntry found
theorem code_looped (inside : f₀.Inside skip env₀ points f) {label : Text} {instrs : List Instr}
    (found : f.function.code? label = some instrs) (notLatch : label ≠ f.block) (notHeader : label ≠ f₀.header) :
    (f.looped env points leave f₀.header f₀.exit log).function.code? label = some instrs := by
  obtain ⟨rest,start⟩ := inside.code
  exact inside.grown.ready.code_looped start log found notLatch notHeader
/-- Closing the loop moves nothing, and changes the phis of its header only. -/
theorem at_looped (inside : f₀.Inside skip env₀ points f) {label : Text} {index : Nat} {instr : Instr}
    (other : label ≠ f₀.header ∨ instr.isPhi = false) (found : f.function.At label index instr) :
    (f.looped env points leave f₀.header f₀.exit log).function.At label index instr := by
  obtain ⟨rest,start⟩ := inside.code
  obtain ⟨instrs,code,_⟩ := inside.grown.ready.current
  refine (appended_looped code log).at_iff.mpr (.inl ((MergePoint.patched_latchAll env f.block points f.function).at_iff.mpr ⟨instr,found,?_⟩))
  exact (MergePoint.latchInstr_eq env f.block inside.grown.ready.named start found other).symm
theorem labels_looped (inside : f₀.Inside skip env₀ points f) :
    (f.looped env points leave f₀.header f₀.exit log).function.labels = f.function.labels := by
  obtain ⟨instrs,code,_⟩ := inside.grown.ready.current
  rw [(appended_looped code log).labels,(MergePoint.patched_latchAll env f.block points f.function).labels]
theorem exit_code (inside : f₀.Inside skip env₀ points f) :
    (f.looped env points leave f₀.header f₀.exit log).function.code? f₀.exit = some [] := by
  obtain ⟨instrs,_,split,_⟩ := inside.outside.split skip
  have notHeader : f₀.exit ≠ f₀.header := split.exit_new.2
  have empty := inside.code_before split.exit_code notHeader (split.ne_exit inside.outside.entryHere).symm
  exact inside.code_looped empty inside.new.2.symm notHeader
/-- The merge points of a loop that is closed are complete. -/
theorem completed (inside : f₀.Inside skip env₀ points f) {point : MergePoint} (member : point ∈ points) :
    (point.closed f.block).Completed (f.looped env points leave f₀.header f₀.exit log).function f₀.header f₀.exit f.block where
  latched := rfl
  edges := by
    obtain ⟨rest,start⟩ := inside.code
    obtain ⟨instrs,code,_⟩ := inside.grown.ready.current
    obtain ⟨index,here⟩ := List.getElem?_of_mem member
    have patched := (MergePoint.patched_latchAll env f.block points f.function).at_iff.mpr ⟨_,MergePoint.opening_at start here,rfl⟩
    rw [opening,MergePoint.latchInstr_phi env f.block (MergePoint.phis_nodup inside.grown.ready.named start) member] at patched
    exact ⟨index,_,_,(appended_looped code log).at_iff.mpr (.inl patched)⟩
  entered := by
    obtain ⟨instrs,_,split,_⟩ := inside.outside.split skip
    have branch := inside.grown.place (split.added.at_iff.mpr (.inr ⟨rfl,rfl,rfl⟩))
    exact ⟨_,skip,(inside.unlatched point member).1 ▸ inside.at_looped (.inr rfl) branch⟩
  repeated := by
    obtain ⟨instrs,code,_⟩ := inside.grown.ready.current
    exact ⟨_,leave,(appended_looped code log).at_iff.mpr (.inr ⟨rfl,rfl,rfl⟩)⟩
  left := Function.mem_labels_iff.mpr ⟨_,inside.exit_code⟩
/-- Closing the loop. What was inside of it has its end, and the block after it is the current one. -/
theorem looped (inside : f₀.Inside skip env₀ points f) (env : Environment) (leave : Value) (log : List Text) :
    f₀.Continues (f.looped env points leave f₀.header f₀.exit log) := by
  obtain ⟨instrs,unended,split,_⟩ := inside.outside.split skip
  obtain ⟨last,code,unendedLast⟩ := inside.grown.ready.current
  obtain ⟨cells,entry,atEnd⟩ := inside.grown.ready.cells
  obtain ⟨outsideLoop,notExit⟩ := inside.new
  have grows := inside.grows
  have added : Function.Appended _ (f.looped env points leave f₀.header f₀.exit log).function f.block _ _ := appended_looped code log
  have patched := MergePoint.patched_latchAll env f.block points f.function
  have ends := MergePoint.isTerminator_latchInstr env f.block points
  have kept : ∀ label others, label ∈ f₀.function.labels → f.function.code? label = some others →
      (f.looped env points leave f₀.header f₀.exit log).function.code? label = some others :=
    fun label others member found => inside.code_looped found (fun same => outsideLoop (same ▸ member)) (split.ne_header member)
  have entryHere := inside.outside.entryHere
  have sameEntry : f.entry = f₀.entry := grows.entry
  constructor
  · constructor
    · refine ⟨inside.grown.ready.named_looped env points leave f₀.header f₀.exit log,⟨cells,?_,atEnd⟩,⟨[],inside.exit_code,by simp [Unended]⟩,?_⟩
      · exact kept _ _ (sameEntry ▸ entryHere) entry
      · intro (same : f₀.exit = f.entry)
        exact split.exit_new.1 (same.trans sameEntry ▸ entryHere)
    · intro label others elsewhere notEntry found
      exact kept _ _ (Function.mem_labels_iff.mpr ⟨_,found⟩) (grows.others label others elsewhere notEntry found)
    · intro others found
      obtain ⟨more,later⟩ := grows.current others found
      exact ⟨more,kept _ _ split.here later⟩
    · intro others found
      obtain ⟨names,later⟩ := grows.allocas others found
      exact ⟨names,kept _ _ entryHere later⟩
    · rw [inside.labels_looped]
      exact grows.blocks
    · exact .inr split.exit_new.1
    · exact sameEntry
    · exact grows.cells
    · -- The loops inside are as they were, for their headers are other blocks; then come the merge points of this one.
      obtain ⟨listed,same,each⟩ := inside.grown.points
      have points : f.points = f₀.points ++ listed := same
      refine ⟨listed ++ _,by rw [← List.append_assoc,← points]; rfl,List.forall_mem_append.mpr ⟨fun point member => ?_,fun point member => ?_⟩⟩
      · obtain ⟨header,exit,latch,new,completed⟩ := each point member
        have headed : header ≠ f₀.header := by
          intro equal
          refine new header List.mem_cons_self ?_
          rw [equal,split.labels]
          simp
        have old := (inside.outside.branched skip).blocks.subset
        refine ⟨header,exit,latch,fun label inside member => new label inside (old member),completed.mono ?_ ?_⟩
        · intro label index instr other
          exact inside.at_looped (other.imp_left fun same : label = header => same ▸ headed)
        · exact fun label member => inside.labels_looped ▸ member
      · obtain ⟨opened,own,rfl⟩ := List.mem_map.mp member
        refine ⟨f₀.header,f₀.exit,f.block,?_,inside.completed own⟩
        simp [split.opensHeader.fresh,split.exit_new.1,outsideLoop]
    · have names := MergePoint.names_latchAll env f.block points f.function
      exact ⟨names.2.1.trans grows.declared.1,names.2.2.trans grows.declared.2⟩
  · intro _
    have before := inside.code_before split.added.code_same (split.ne_header split.here) inside.outside.inside
    exact ⟨_,kept _ _ split.here before,unended.close rfl⟩
  · intro label others new found
    by_cases atLatch : label = f.block
    · subst atLatch
      cases found.symm.trans added.code_same
      exact .inr ((unendedLast.map ends).close rfl)
    · rw [added.code_other atLatch,patched.code] at found
      obtain ⟨olds,before,rfl⟩ := Option.map_eq_some_iff.mp found
      by_cases old : label ∈ (f₀.branched skip).function.labels
      · simp only [split.labels,List.mem_append,List.mem_singleton,new,false_or] at old
        rcases old with atHeader | atExit
        · subst atHeader
          obtain ⟨closing,ended,closed⟩ := inside.grown.left (Ne.symm atLatch)
          cases before.symm.trans ended
          exact .inr (closed.map ends)
        · exact .inl atExit
      · exact .inr (((inside.grown.created label olds old before).resolve_left atLatch).map ends)

end Inside

end Frame

/-! ### Lowering -/

namespace MergePoint
variable {f f₀ : Frame} {skip : Value} {env : Environment}

theorem openAll_inside (names : List Text) (points : List MergePoint) (inside : f₀.Inside skip env points f)
    (here : f.block = f₀.header) (code : f.function.code? f₀.header = some (points.map (opening env))) :
    Meets (openAll env f₀.block names) f (fun more f' => f₀.Inside skip env (points ++ more) f') (fun _ f' => f₀.Grows f') := by
  induction names generalizing f points with
  | nil => exact .of_run rfl (by rw [List.append_nil]; exact inside)
  | cons name rest ih =>
    rw [openAll]
    cases bound : env.lookup? name with
    | none => exact ih points inside here code
    | some binding =>
      refine .bind (Build.identifier_meets name f) ?_ ?_
      · rintro base after ⟨rfl,rfl⟩
        let point : MergePoint := ⟨base,after.fresh base,binding.value.type,binding.levity,f₀.block,none⟩
        have shape : point.opening env = .phi (after.fresh base) binding.value.type [(binding.value,f₀.block)] := opening_eq bound
        have further : after.Continues (after.emitted base (point.opening env)) :=
          inside.grown.ready.emitted rfl fun _ yields => (Option.some.inj yields).symm
        have added := Frame.appended_emitted base (here ▸ code) (point.opening env)
        have code' : (after.emitted base (point.opening env)).function.code? f₀.header = some ((points ++ [point]).map (opening env)) := by
          rw [List.map_append,← here]
          exact added.code_same
        have inside' : f₀.Inside skip env (points ++ [point]) (after.emitted base (point.opening env)) := by
          refine ⟨inside.outside,(inside.step further).grown,⟨[],by rw [List.append_nil]; exact code'⟩,?_⟩
          exact List.forall_mem_append.mpr ⟨inside.unlatched,List.forall_mem_singleton.mpr ⟨rfl,rfl⟩⟩
        refine .run_then (Build.register_run base after) (.run_then rfl ?_)
        have later := ih (points ++ [point]) inside' here code'
        rw [shape] at later
        refine .andThen later (fun more last opened => .of_run rfl ?_)
        rw [List.append_assoc] at opened
        exact opened
      · rintro fault after ⟨_,rfl⟩
        exact inside.grows
theorem openFor_inside (ready : f₀.Ready) (reads : List Text) :
    Meets (openFor reads env f₀.block) (f₀.branched skip) (fun points f' => f₀.Inside skip env points f') (fun _ f' => f₀.Grows f') := by
  obtain ⟨_,_,split,_⟩ := ready.split skip
  have inside : f₀.Inside skip env [] (f₀.branched skip) :=
    ⟨ready,(ready.branched skip).ready.continues,⟨[],split.header_code⟩,by simp⟩
  refine .andThen (openAll_inside (Text.sortDistinct reads) [] inside rfl split.header_code) (fun points after opened => ?_)
  split
  · exact .of_run rfl opened
  · exact .of_run rfl (opened.step (opened.grown.ready.noted _))

end MergePoint

namespace Build
variable {α β : Type}

/-- The step continues the frame that it starts from if it succeeds, and lets it grow if it fails. -/
def Appends (step : Build α) : Prop :=
  ∀ f : Frame, f.Ready → Meets step f (fun _ f' => f.Continues f') (fun _ f' => f.Grows f')

namespace Appends
variable {step : Build α} {next : α → Build β}

theorem pure (a : α) : Appends (Pure.pure a : Build α) := fun _ ready => .of_run rfl ready.continues
theorem fail (fault : Fault) : Appends (Attempt.fail fault : Build α) := fun _ ready => .of_error rfl ready.continues.toGrows
theorem ofExcept (result : Except Fault α) : Appends (Attempt.ofExcept result) := by
  cases result with
  | ok a => exact .pure a
  | error fault => exact .fail fault
theorem bind (first : Appends step) (rest : ∀ a, Appends (next a)) : Appends (step >>= next) := by
  intro f ready
  refine (first f ready).andThen fun a f₁ continues => (rest a f₁ continues.ready).mono ?_ ?_
  · exact fun _ _ further => continues.trans ready further
  · exact fun _ _ grown => continues.toGrows.trans grown
theorem emitNamed (base : Text) (instr : Text → Instr) (stays : ∀ result, (instr result).isTerminator = false)
    (yields : ∀ result, (instr result).result? = some result) : Appends (Build.emitNamed base instr) := by
  intro f ready
  refine .of_run (emitNamed_run base instr f) (ready.emitted (stays _) fun name result => ?_)
  exact Option.some.inj (result.symm.trans (yields _))
theorem store (value address : Value) : Appends (emitUnnamed (.store value address)) :=
  fun f ready => .of_run (emitUnnamed_run _ f) (ready.emitted rfl fun _ result => nomatch result)
theorem isZero (value : Value) : Appends (Build.isZero value) :=
  fun f ready => .of_run (isZero_run value f) (ready.emitted rfl fun _ result => (Option.some.inj result).symm)
theorem allocate (name : Text) : Appends (Build.allocate name) := fun f ready => .of_run (allocate_run name f) (ready.allocated name)
theorem identifier (name : Text) : Appends (Build.identifier name) := by
  unfold Build.identifier
  split
  · exact .fail _
  · exact .pure name
theorem readVariable (env : Environment) (name : Text) : Appends (Build.readVariable env name) := by
  refine .bind (.ofExcept _) fun binding => ?_
  split
  · exact .emitNamed name _ (fun _ => rfl) fun _ => rfl
  · exact .pure _
theorem arith (op : Operator) (left right : Value) : Appends (Build.arith op left right) := by
  unfold Build.arith
  split
  · exact .pure _
  · exact .emitNamed op.base _ (fun _ => rfl) fun _ => rfl

end Appends

end Build

open Build (Appends)

mutual

theorem Expr.lower_appends (signatures : Table Nat) (e : Expr) (env : Environment) : Appends (e.lower signatures env) := by
  match e with
  | .literal n => exact .pure _
  | .var name => exact .readVariable env name
  | .binary left op right =>
    exact (left.lower_appends signatures env).bind fun a => (right.lower_appends signatures env).bind fun b => .arith op a b
  | .call callee args =>
    refine (Appends.ofExcept _).bind fun _ => (args.lower_appends signatures env).bind fun values => ?_
    exact (Appends.identifier callee).bind fun name => .emitNamed _ _ (fun _ => rfl) fun _ => rfl
  | .scope body => exact (body.lower_appends signatures env).bind fun result => .pure result.1
  | .loop cond body =>
    refine (cond.lower_appends signatures env).bind fun first => (Appends.isZero first).bind fun skip f ready => ?_
    refine .congr (Build.enter_run ready skip _) (.andThen (MergePoint.openFor_inside ready cond.reads) fun points f₁ inside₁ => ?_)
    -- From here on, what lowering does lies inside of the loop, until the loop is closed.
    have stop : ∀ {g g' : Frame}, f.Inside skip env points g → g.Grows g' → f.Grows g' := fun inside grown => inside.grows.trans grown
    refine .bind (body.lower_appends signatures _ f₁ inside₁.grown.ready) (fun result f₂ further₂ => ?_) fun _ _ => stop inside₁
    have inside₂ := inside₁.step further₂
    refine .bind (cond.lower_appends signatures result.2 f₂ further₂.ready) (fun again f₃ further₃ => ?_) fun _ _ => stop inside₂
    have inside₃ := inside₂.step further₃
    refine .bind (Appends.isZero again f₃ further₃.ready) (fun leave f₄ further₄ => ?_) fun _ _ => stop inside₃
    have inside₄ := inside₃.step further₄
    obtain ⟨log,left⟩ := Build.leave_run further₄.ready result.2 (fun point member => (inside₄.unlatched point member).2) leave f.header f.exit
    exact .of_run left (inside₄.looped result.2 leave log)

theorem Args.lower_appends (signatures : Table Nat) (args : Args) (env : Environment) : Appends (args.lower signatures env) := by
  match args with
  | .nil => exact .pure []
  | .cons first rest =>
    exact (first.lower_appends signatures env).bind fun value => (rest.lower_appends signatures env).bind fun values => .pure _

theorem Stmt.lower_appends (signatures : Table Nat) (s : Stmt) (env : Environment) : Appends (s.lower signatures env) := by
  match s with
  | .discard value => exact (value.lower_appends signatures env).bind fun _ => .pure env
  | .bindConst name value =>
    refine (value.lower_appends signatures env).bind fun bound => ?_
    cases bound with
    | const n => exact .pure _
    | reg result type => exact .fail _
  | .bindMut name value =>
    refine (Appends.identifier name).bind fun base => (Appends.allocate base).bind fun cell => ?_
    exact (value.lower_appends signatures env).bind fun bound => (Appends.store bound cell.pointer).bind fun _ => .pure _
  | .assign name value =>
    refine (Appends.ofExcept _).bind fun address => (value.lower_appends signatures env).bind fun stored => ?_
    exact (Appends.store stored address).bind fun _ => .pure env

theorem Block.lower_appends (signatures : Table Nat) (b : Block) (env : Environment) : Appends (b.lower signatures env) := by
  match b with
  | .result value => exact (value.lower_appends signatures env).bind fun result => .pure _
  | .step first rest => exact (first.lower_appends signatures env).bind fun after => rest.lower_appends signatures after

end

end Lev
