import Lev.Build.Frame
import Lev.Proofs.Linked

/-!
The invariant of a function while it is filled, and how it moves on. A frame is `Sound` for a list of
pending labels, the blocks that loops in progress will go on at, and a certificate of what is above
each label. `Advance` says what filling leaves of what was there: blocks other than the current one and
the one that holds the cells stay as they are, and these two only grow.
-/
namespace Lev

/-- The instructions end in their only terminator. -/
def Closed (instrs : List Instr) : Prop :=
  ∃ start last, instrs = start ++ [last] ∧ last.isTerminator = true ∧ ∀ instr ∈ start, instr.isTerminator = false
/-- There is no terminator among the instructions. -/
def Unended (instrs : List Instr) : Prop := ∀ instr ∈ instrs, instr.isTerminator = false

theorem Unended.snoc {instrs : List Instr} {instr : Instr} (unended : Unended instrs) (stays : instr.isTerminator = false) :
    Unended (instrs ++ [instr]) := by
  intro other member
  rcases List.mem_append.mp member with old | new
  · exact unended other old
  · exact List.mem_singleton.mp new ▸ stays
theorem Unended.close {instrs : List Instr} {instr : Instr} (unended : Unended instrs) (ends : instr.isTerminator = true) :
    Closed (instrs ++ [instr]) :=
  ⟨instrs,instr,rfl,ends,unended⟩
theorem Unended.map {instrs : List Instr} (unended : Unended instrs) {change : Instr → Instr}
    (ends : ∀ instr, (change instr).isTerminator = instr.isTerminator) : Unended (instrs.map change) := by
  intro instr member
  obtain ⟨old,inside,rfl⟩ := List.mem_map.mp member
  exact (ends old).trans (unended old inside)
theorem Closed.map {instrs : List Instr} (closed : Closed instrs) {change : Instr → Instr}
    (ends : ∀ instr, (change instr).isTerminator = instr.isTerminator) : Closed (instrs.map change) := by
  obtain ⟨start,last,rfl,isLast,stays⟩ := closed
  exact ⟨start.map change,change last,by simp,(ends last).trans isLast,Unended.map stays ends⟩
theorem Closed.isClosed {block : BasicBlock} (closed : Closed block.instrs) : block.isClosed = true := by
  obtain ⟨start,last,code,ends,stays⟩ := closed
  simp only [BasicBlock.isClosed,code,List.reverse_append,List.reverse_cons,List.reverse_nil,List.nil_append,
    List.singleton_append,ends,Bool.true_and,List.all_reverse,List.all_eq_true]
  intro instr member
  simp [stays instr member]

namespace Frame

/-- The block that holds the cells. -/
def entry (f : Frame) : Text := f.arena.cursor.block

/-- The frame can be filled: names are in order, cells go to the end of the entry, and the current block, which is another one,
    awaits its end. -/
structure Ready (f : Frame) : Prop where
  named : f.function.Named
  cells : ∃ instrs, f.function.code? f.entry = some instrs ∧ f.arena.cursor.offset = instrs.length
  current : ∃ instrs, f.function.code? f.block = some instrs ∧ Unended instrs
  inside : f.block ≠ f.entry

theorem Ready.entryHere {f : Frame} (ready : f.Ready) : f.entry ∈ f.function.labels := by
  obtain ⟨instrs,code,_⟩ := ready.cells
  exact Function.mem_labels_iff.mpr ⟨instrs,code⟩

/-- The invariant of filling: names, control flow and visibility are in order; every block but the entry
    is reached from the root; the entry holds the cells; the current block and the pending ones await
    their end and all others have it. -/
structure Sound (signatures : Table Nat) (root : Text) (pending : List Text) (above : Text → List Text) (f : Frame) : Prop where
  named : f.function.Named
  linked : f.function.Linked signatures f.entry root above
  reached : ∀ label ∈ f.function.labels, label = f.entry ∨ Relation.ReflTransGen f.function.Edge root label
  cells : ∃ names : List Text, f.function.code? f.entry = some (names.map Instr.alloca) ∧
    f.arena.cells.map Cell.pointer = names.map (Value.reg · .pointer)
  offset : f.arena.cursor.offset = f.arena.cells.length
  current : ∃ instrs, f.function.code? f.block = some instrs ∧ Unended instrs
  inside : f.block ≠ f.entry
  waiting : ∀ label ∈ pending, f.function.code? label = some [] ∧ label ≠ f.block ∧ label ≠ f.entry
  closed : ∀ label instrs, f.function.code? label = some instrs →
    label = f.block ∨ label = f.entry ∨ label ∈ pending ∨ Closed instrs
  below : f.entry ∈ above f.block

theorem Sound.ready {signatures : Table Nat} {root : Text} {pending : List Text} {above : Text → List Text} {f : Frame}
    (sound : f.Sound signatures root pending above) : f.Ready := by
  obtain ⟨names,code,pointers⟩ := sound.cells
  have count := congrArg List.length pointers
  rw [List.length_map,List.length_map] at count
  exact ⟨sound.named,⟨_,code,by rw [sound.offset,count,List.length_map]⟩,sound.current,sound.inside⟩

/-- What filling leaves of what was there, and what it adds. -/
structure Advance (above above' : Text → List Text) (f f' : Frame) : Prop where
  code : ∀ label instrs, f.function.code? label = some instrs →
    ∃ added, f'.function.code? label = some (instrs ++ added) ∧ (∀ instr ∈ added, instr.isPhi = false) ∧
      (label ≠ f.block → label ≠ f.entry → added = [])
  blocks : f.function.labels <+: f'.function.labels
  moved : f'.block = f.block ∨ f'.block ∉ f.function.labels
  ways : ∀ source, ∀ target ∈ f.function.labels, f'.function.Edge source target ↔ f.function.Edge source target
  used : ∀ name ∈ f.function.names.used, name ∈ f'.function.names.used
  entry : f'.entry = f.entry
  cells : f.arena.cells <+: f'.arena.cells
  points : f.points <+: f'.points
  declared : f'.function.name = f.function.name ∧ f'.function.params = f.function.params
  certificate : ∀ label ∈ f.function.labels, above' label = above label
  scope : ∀ label, label ∈ above f.block ∨ label = f.block → label ∈ above' f'.block ∨ label = f'.block

/-- Filling stopped in a frame that is still in order. -/
def Stopped (signatures : Table Nat) (root : Text) (f f' : Frame) : Prop :=
  (∃ pending above, f'.Sound signatures root pending above) ∧ f'.function.name = f.function.name ∧ f'.function.params = f.function.params

/-- The value is known at the place that is being filled. -/
def Knows (f : Frame) (above : Text → List Text) (value : Value) : Prop := f.function.Seen above f.block value
/-- Every name stands for a value that is known, of the type of its representation. -/
def Binds (f : Frame) (above : Text → List Text) (env : Environment) : Prop :=
  ∀ name binding, env.lookup? name = some binding →
    f.Knows above binding.value ∧ binding.value.type = if binding.isBoxed then .pointer else .i32

namespace Advance
variable {above above' above'' : Text → List Text} {f f' f'' : Frame}

theorem refl (above : Text → List Text) (f : Frame) : Advance above above f f where
  code label instrs code := ⟨[],by simpa using code,by simp,fun _ _ => rfl⟩
  blocks := List.prefix_refl _
  moved := .inl rfl
  ways _ _ _ := Iff.rfl
  used _ member := member
  entry := rfl
  cells := List.prefix_refl _
  points := List.prefix_refl _
  declared := ⟨rfl,rfl⟩
  certificate _ _ := rfl
  scope _ visible := visible
theorem labels (advance : Advance above above' f f') {label : Text} (member : label ∈ f.function.labels) :
    label ∈ f'.function.labels :=
  advance.blocks.subset member
theorem place (advance : Advance above above' f f') {label : Text} {index : Nat} {instr : Instr}
    (found : f.function.At label index instr) : f'.function.At label index instr := by
  refine found.longer fun instrs code => ?_
  obtain ⟨added,later,_⟩ := advance.code label instrs code
  exact ⟨added,later⟩
theorem trans (first : Advance above above' f f') (second : Advance above' above'' f' f'') :
    Advance above above'' f f'' where
  code label instrs code := by
    obtain ⟨added,mid,plain,other⟩ := first.code label instrs code
    obtain ⟨more,last,plain',other'⟩ := second.code label (instrs ++ added) mid
    refine ⟨added ++ more,by rw [last,List.append_assoc],?_,?_⟩
    · intro instr member
      rcases List.mem_append.mp member with early | late
      · exact plain instr early
      · exact plain' instr late
    · intro elsewhere notEntry
      -- A block that was there and is not current does not become current again.
      have notCurrent : label ≠ f'.block := by
        rcases first.moved with same | new
        · exact same ▸ elsewhere
        · exact fun same => new (same ▸ Function.mem_labels_iff.mpr ⟨instrs,code⟩)
      rw [other elsewhere notEntry,other' notCurrent (first.entry ▸ notEntry),List.append_nil]
  blocks := first.blocks.trans second.blocks
  moved := by
    rcases second.moved with same | new
    · exact same ▸ first.moved
    · exact .inr (fun member => new (first.labels member))
  ways source target member := (second.ways source target (first.labels member)).trans (first.ways source target member)
  used name member := second.used name (first.used name member)
  entry := second.entry.trans first.entry
  cells := first.cells.trans second.cells
  points := first.points.trans second.points
  declared := ⟨second.declared.1.trans first.declared.1,second.declared.2.trans first.declared.2⟩
  certificate label member := (second.certificate label (first.labels member)).trans (first.certificate label member)
  scope label visible := second.scope label (first.scope label visible)
theorem knows (advance : Advance above above' f f') {value : Value} (known : f.Knows above value) : f'.Knows above' value :=
  Function.Seen.mono known (fun _ _ instr found => ⟨instr,advance.place found,rfl⟩) advance.scope
theorem binds (advance : Advance above above' f f') {env : Environment} (binds : f.Binds above env) : f'.Binds above' env :=
  fun name binding bound => ⟨advance.knows (binds name binding bound).1,(binds name binding bound).2⟩
theorem stopped (advance : Advance above above' f f') {signatures : Table Nat} {root : Text} {pending : List Text}
    (sound : f'.Sound signatures root pending above') : Stopped signatures root f f' :=
  ⟨⟨pending,above',sound⟩,advance.declared⟩
theorem stop (advance : Advance above above' f f') {signatures : Table Nat} {root : Text} (stopped : Stopped signatures root f' f'') : Stopped signatures root f f'' :=
  ⟨stopped.1,stopped.2.1.trans advance.declared.1,stopped.2.2.trans advance.declared.2⟩

end Advance

theorem binds_empty (f : Frame) (above : Text → List Text) : f.Binds above .empty := by
  intro name binding bound
  simp at bound
theorem Binds.bind {f : Frame} {above : Text → List Text} {env : Environment} (binds : f.Binds above env) {name : Text}
    {value : Value} {levity : Levity} (known : f.Knows above value)
    (type : value.type = if levity = .boxed then .pointer else .i32) : f.Binds above (env.bind name value levity) := by
  intro key binding bound
  rw [Environment.lookup?_bind] at bound
  by_cases same : key = name
  · rw [if_pos same] at bound
    cases bound
    refine ⟨known,?_⟩
    simpa [Binding.isBoxed] using type
  · rw [if_neg same] at bound
    exact binds key binding bound

end Frame

end Lev
