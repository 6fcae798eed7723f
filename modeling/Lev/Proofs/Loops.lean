import Lev.Build.Lower
import Lev.Proofs.Steps

/-!
The steps of filling a loop and what they keep: the branch into the loop or past it, the phis of the
header, and the branch back or out, together with which the phis get their second edge.
-/
namespace Lev

namespace Frame

/-- The label that the header of the next loop gets. -/
def header (f : Frame) : Text := f.fresh (lit "loop")
/-- The function with that header. -/
def headed (f : Frame) : Function := (f.function.addBlock (lit "loop")).2
/-- The label of the block after the next loop. -/
def exit (f : Frame) : Text := (f.headed.addBlock (lit "afterloop")).1
/-- The function with the header and the block after the loop. -/
def exited (f : Frame) : Function := (f.headed.addBlock (lit "afterloop")).2
/-- The frame at the header of a loop: the block before it has branched past the loop or into it. -/
def branched (f : Frame) (skip : Value) : Frame :=
  { f with
    function := (f.exited.register []).2.append f.block (.condBr skip f.exit f.header)
    block := f.header }

/-- The frame after a value has been compared with zero. -/
def compared (f : Frame) (value : Value) : Frame :=
  f.emitted (lit "iszero") (.isZero (f.fresh (lit "iszero")) value)
/-- The result of the comparison. -/
def comparison (f : Frame) : Value := .reg (f.fresh (lit "iszero")) .i1

/-- The loop that was entered from the first frame is being filled: what was there before it is as it was,
    its header starts with the given phis, and the block before it is the only way into the header. -/
structure Looping (above₀ above : Text → List Text) (f₀ f : Frame) (skip : Value) (header exit : Text)
    (phis : List Instr) : Prop where
  advance : Advance above₀ above f₀ f
  outside : f₀.block ∈ f₀.function.labels ∧ f₀.block ≠ f₀.entry
  fresh : header ∉ f₀.function.labels ∧ exit ∉ f₀.function.labels ∧ exit ≠ header
  moved : f.block ∉ f₀.function.labels
  branch : ∃ instrs, f₀.function.code? f₀.block = some instrs ∧
    f.function.code? f₀.block = some (instrs ++ [.condBr skip exit header])
  code : ∃ rest, f.function.code? header = some (phis ++ rest) ∧ ∀ instr ∈ rest, instr.isPhi = false
  exitLabel : exit ∈ f.function.labels
  ways : ∀ origin, f.function.Edge origin header ↔ origin = f₀.block
  higher : above header = f₀.block :: above₀ f₀.block ∧ above exit = f₀.block :: above₀ f₀.block
  inside : header ∈ above f.block ∨ header = f.block

variable {signatures : Table Nat} {root : Text} {pending : List Text} {above above' above₀ : Text → List Text} {f f' f₀ : Frame}

theorem Sound.compared (sound : f.Sound signatures root pending above) {value : Value} (known : f.Knows above value)
    (type : value.type = .i32) :
    (f.compared value).Sound signatures root pending above ∧ Advance above above f (f.compared value) ∧
      (f.compared value).Knows above f.comparison := by
  have emitted : (f.compared value).Sound signatures root pending above ∧ Advance above above f (f.compared value) := by
    refine sound.emitted rfl rfl type (fun operand member => ?_) (fun name yields => ?_)
    · cases List.mem_singleton.mp member
      exact known
    · cases yields
      rfl
  exact ⟨emitted.1,emitted.2,knows_emitted sound _ rfl⟩

/-- What advances within a loop stays in it. -/
theorem Looping.step {skip : Value} {header exit : Text} {phis : List Instr}
    (looping : Looping above₀ above f₀ f skip header exit phis) (advance : Advance above above' f f') :
    Looping above₀ above' f₀ f' skip header exit phis := by
  obtain ⟨rest,code,plain⟩ := looping.code
  have headerLabel : header ∈ f.function.labels := Function.mem_labels_iff.mpr ⟨_,code⟩
  constructor
  · exact looping.advance.trans advance
  · exact looping.outside
  · exact looping.fresh
  · rcases advance.moved with same | new
    · exact same ▸ looping.moved
    · exact fun member => new (looping.advance.labels member)
  · obtain ⟨instrs,before,ended⟩ := looping.branch
    obtain ⟨added,later,_,kept⟩ := advance.code f₀.block _ ended
    have elsewhere : f₀.block ≠ f.block := fun same => looping.moved (same ▸ looping.outside.1)
    rw [kept elsewhere (looping.advance.entry ▸ looping.outside.2),List.append_nil] at later
    exact ⟨instrs,before,later⟩
  · obtain ⟨added,later,plain',_⟩ := advance.code header _ code
    refine ⟨rest ++ added,by rw [later,List.append_assoc],?_⟩
    intro instr member
    rcases List.mem_append.mp member with early | late
    · exact plain instr early
    · exact plain' instr late
  · exact advance.labels looping.exitLabel
  · exact fun origin => (advance.ways origin header headerLabel).trans (looping.ways origin)
  · rw [advance.certificate header headerLabel,advance.certificate exit looping.exitLabel]
    exact looping.higher
  · exact advance.scope header looping.inside

/-- The last function is the first with two new blocks, to one of which the current block branches at its end. -/
structure Split (f : Frame) (skip : Value) (header exit : Text) (instrs : List Instr) (fn₁ fn₂ fn₃ : Function) : Prop where
  opensHeader : Function.Opened f.function fn₁ header
  opensExit : Function.Opened fn₁ fn₂ exit
  added : Function.Appended fn₂ fn₃ f.block instrs (.condBr skip exit header)
  here : f.block ∈ f.function.labels

/-- The certificate with two new blocks below the current one. -/
def belowBlock (f : Frame) (above : Text → List Text) (header exit : Text) : Text → List Text :=
  fun label => if label = header ∨ label = exit then f.block :: above f.block else above label

namespace Split
variable {skip : Value} {header exit : Text} {instrs : List Instr} {fn₁ fn₂ fn₃ : Function} {label : Text}

theorem exit_new (split : Split f skip header exit instrs fn₁ fn₂ fn₃) : exit ∉ f.function.labels ∧ exit ≠ header := by
  have new := split.opensExit.fresh
  rw [split.opensHeader.labels,List.mem_append,List.mem_singleton,not_or] at new
  exact new
theorem ne_header (split : Split f skip header exit instrs fn₁ fn₂ fn₃) (member : label ∈ f.function.labels) : label ≠ header :=
  fun same => split.opensHeader.fresh (same ▸ member)
theorem ne_exit (split : Split f skip header exit instrs fn₁ fn₂ fn₃) (member : label ∈ f.function.labels) : label ≠ exit :=
  fun same => split.exit_new.1 (same ▸ member)
theorem labels (split : Split f skip header exit instrs fn₁ fn₂ fn₃) : fn₃.labels = f.function.labels ++ [header] ++ [exit] := by
  rw [split.added.labels,split.opensExit.labels,split.opensHeader.labels]
theorem code (split : Split f skip header exit instrs fn₁ fn₂ fn₃) (member : label ∈ f.function.labels) (elsewhere : label ≠ f.block) :
    fn₃.code? label = f.function.code? label := by
  rw [split.added.code_other elsewhere,split.opensExit.code_other (split.ne_exit member),
    split.opensHeader.code_other (split.ne_header member)]
theorem before (split : Split f skip header exit instrs fn₁ fn₂ fn₃) : f.function.code? f.block = some instrs := by
  rw [← split.opensHeader.code_other (split.ne_header split.here),← split.opensExit.code_other (split.ne_exit split.here)]
  exact split.added.before
theorem header_code (split : Split f skip header exit instrs fn₁ fn₂ fn₃) : fn₃.code? header = some [] := by
  rw [split.added.code_other (split.ne_header split.here).symm,split.opensExit.code_other split.exit_new.2.symm,
    split.opensHeader.code_same]
theorem exit_code (split : Split f skip header exit instrs fn₁ fn₂ fn₃) : fn₃.code? exit = some [] := by
  rw [split.added.code_other (split.ne_exit split.here).symm,split.opensExit.code_same]
theorem edge_iff (split : Split f skip header exit instrs fn₁ fn₂ fn₃) {source target : Text} :
    fn₃.Edge source target ↔ f.function.Edge source target ∨ (source = f.block ∧ (target = exit ∨ target = header)) := by
  rw [split.added.edge_iff,split.opensExit.edge_iff,split.opensHeader.edge_iff]
  simp [Instr.targets]
theorem above_same (split : Split f skip header exit instrs fn₁ fn₂ fn₃) (member : label ∈ f.function.labels) :
    belowBlock f above header exit label = above label :=
  if_neg (by simp [split.ne_header member,split.ne_exit member])
theorem linked (split : Split f skip header exit instrs fn₁ fn₂ fn₃) (sound : f.Sound signatures root pending above)
    (known : f.Knows above skip) (isBit : skip.type = .i1) : fn₃.Linked signatures f.entry root (belowBlock f above header exit) := by
  have entryHere := sound.ready.entryHere
  have same : belowBlock f above header exit f.block = above f.block := split.above_same split.here
  refine (((sound.linked.congr (fun _ => split.above_same)).opened split.opensHeader).opened split.opensExit).appended
    split.added rfl isBit ?_ ?_
  · intro value member
    rw [Instr.operands,List.mem_singleton] at member
    subst member
    refine known.mono (fun place position found old => ⟨found,split.opensExit.at_iff.mpr (split.opensHeader.at_iff.mpr old),rfl⟩) ?_
    rw [same]
    exact fun _ visible => visible
  · have empty : ∀ target ∉ f.function.labels, ∀ index other, fn₂.At target index other → other.isPhi = false :=
      fun target absent index other found =>
        absurd (split.opensHeader.at_iff.mp (split.opensExit.at_iff.mp found)).mem_labels absent
    have passed : ∀ label ∈ f.block :: above f.block, label = f.block ∨ label ∈ belowBlock f above header exit f.block := by
      rw [same]
      exact fun label member => List.mem_cons.mp member
    intro target member
    rw [Instr.targets,List.mem_cons,List.mem_singleton] at member
    rw [← split.added.labels,split.labels]
    rcases member with rfl | rfl
    · exact ⟨by simp,(split.ne_exit entryHere).symm,empty _ split.exit_new.1,by simpa [belowBlock] using passed⟩
    · exact ⟨by simp,(split.ne_header entryHere).symm,empty _ split.opensHeader.fresh,by simpa [belowBlock] using passed⟩
theorem advance (split : Split f skip header exit instrs fn₁ fn₂ fn₃)
    (grown : ∀ name ∈ f.function.names.used, name ∈ fn₃.names.used)
    (declared : fn₃.name = f.function.name ∧ fn₃.params = f.function.params) :
    Advance above (belowBlock f above header exit) f { f with function := fn₃, block := header } where
  code label others found := by
    by_cases atBlock : label = f.block
    · subst atBlock
      rw [split.before] at found
      cases found
      exact ⟨[.condBr skip exit header],split.added.code_same,by simp [Instr.isPhi],fun elsewhere => absurd rfl elsewhere⟩
    · refine ⟨[],?_,by simp,fun _ _ => rfl⟩
      rw [List.append_nil]
      exact (split.code (Function.mem_labels_iff.mpr ⟨_,found⟩) atBlock).trans found
  blocks := by
    rw [split.labels,List.append_assoc]
    exact List.prefix_append _ _
  moved := .inr split.opensHeader.fresh
  ways source target member := by
    simp only [split.edge_iff,split.ne_header member,split.ne_exit member,or_self,and_false,or_false]
  used := grown
  entry := rfl
  cells := List.prefix_refl _
  points := List.prefix_refl _
  declared := declared
  certificate _ := split.above_same
  scope label visible := by
    simp only [belowBlock,true_or,if_true,List.mem_cons]
    tauto
theorem sound (split : Split f skip header exit instrs fn₁ fn₂ fn₃) (sound : f.Sound signatures root pending above)
    (named : fn₃.Named) (known : f.Knows above skip) (isBit : skip.type = .i1) :
    Sound signatures root (exit :: pending) (belowBlock f above header exit) { f with function := fn₃, block := header } := by
  have entryHere := sound.ready.entryHere
  constructor
  · exact named
  · exact split.linked sound known isBit
  · have old : ∀ label ∈ f.function.labels, label = f.entry ∨ Relation.ReflTransGen fn₃.Edge root label := by
      intro label member
      rcases sound.reached label member with entry | way
      · exact .inl entry
      · exact .inr (Relation.ReflTransGen.mono (fun _ _ edge => split.edge_iff.mpr (.inl edge)) _ _ way)
    have toBlock := (old f.block split.here).resolve_left sound.inside
    intro label member
    simp only [split.labels,List.mem_append,List.mem_singleton] at member
    rcases member with (member | rfl) | rfl
    · exact old label member
    · exact .inr (toBlock.tail (split.edge_iff.mpr (.inr ⟨rfl,.inr rfl⟩)))
    · exact .inr (toBlock.tail (split.edge_iff.mpr (.inr ⟨rfl,.inl rfl⟩)))
  · obtain ⟨names,cells,pointers⟩ := sound.cells
    exact ⟨names,(split.code entryHere sound.inside.symm).trans cells,pointers⟩
  · exact sound.offset
  · exact ⟨[],split.header_code,fun _ member => absurd member List.not_mem_nil⟩
  · exact (split.ne_header entryHere).symm
  · intro label member
    rcases List.mem_cons.mp member with rfl | old
    · exact ⟨split.exit_code,split.exit_new.2,(split.ne_exit entryHere).symm⟩
    · obtain ⟨empty,notCurrent,notEntry⟩ := sound.waiting label old
      have member : label ∈ f.function.labels := Function.mem_labels_iff.mpr ⟨_,empty⟩
      exact ⟨(split.code member notCurrent).trans empty,split.ne_header member,notEntry⟩
  · intro label others found
    have member : label ∈ fn₃.labels := Function.mem_labels_iff.mpr ⟨_,found⟩
    simp only [split.labels,List.mem_append,List.mem_singleton] at member
    rcases member with (member | rfl) | rfl
    · by_cases atBlock : label = f.block
      · subst atBlock
        obtain ⟨olds,code,unended⟩ := sound.current
        rw [split.before] at code
        cases code
        rw [split.added.code_same] at found
        cases found
        exact .inr (.inr (.inr (unended.close rfl)))
      · rw [split.code member atBlock] at found
        rcases sound.closed label others found with current | entry | waiting | closed
        · exact absurd current atBlock
        · exact .inr (.inl entry)
        · exact .inr (.inr (.inl (List.mem_cons_of_mem _ waiting)))
        · exact .inr (.inr (.inr closed))
    · exact .inl rfl
    · exact .inr (.inr (.inl List.mem_cons_self))
  · simp only [belowBlock,true_or,if_true]
    exact List.mem_cons_of_mem _ sound.below
theorem looping (split : Split f skip header exit instrs fn₁ fn₂ fn₃) (sound : f.Sound signatures root pending above)
    (advance : Advance above (belowBlock f above header exit) f { f with function := fn₃, block := header }) :
    Looping above (belowBlock f above header exit) f { f with function := fn₃, block := header } skip header exit [] where
  advance := advance
  outside := ⟨split.here,sound.inside⟩
  fresh := ⟨split.opensHeader.fresh,split.exit_new⟩
  moved := split.opensHeader.fresh
  branch := ⟨instrs,split.before,split.added.code_same⟩
  code := ⟨[],split.header_code,by simp⟩
  exitLabel := by
    rw [split.labels]
    simp
  ways origin := by
    have unentered : ¬ f.function.Edge origin header := fun edge => split.opensHeader.fresh (sound.linked.targets _ _ edge).1
    simp [split.edge_iff,unentered]
  higher := ⟨if_pos (.inl rfl),if_pos (.inr rfl)⟩
  inside := .inr rfl

end Split

theorem Ready.exited (ready : f.Ready) {instrs : List Instr} (code : f.function.code? f.block = some instrs) :
    Function.Opened f.function f.headed f.header ∧ Function.Opened f.headed f.exited f.exit ∧ f.exited.Named ∧
      f.exited.code? f.block = some instrs ∧ ∀ name ∈ f.function.names.used, name ∈ f.exited.names.used := by
  have here : f.block ∈ f.function.labels := Function.mem_labels_iff.mpr ⟨_,code⟩
  have headerUnused : f.header ∉ f.function.names.used := f.fresh_not_used _
  have headerNew : f.header ∉ f.function.labels := fun member => headerUnused (ready.named.labelUsed _ member)
  have opened : Function.Opened f.function f.headed f.header := Function.opened_addBlock headerNew
  have used : f.headed.names.used = f.header :: f.function.names.used := Function.used_register f.function _
  have named : f.headed.Named := ready.named.opened opened (by simp +contextual [used]) headerUnused (by simp [used])
  have exitUnused : f.exit ∉ f.headed.names.used := NameScope.register_fresh _ _
  have exitNew : f.exit ∉ f.headed.labels := fun member => exitUnused (named.labelUsed _ member)
  have opened' : Function.Opened f.headed f.exited f.exit := Function.opened_addBlock exitNew
  have used' : f.exited.names.used = f.exit :: f.headed.names.used := Function.used_register _ _
  have named' : f.exited.Named := named.opened opened' (by simp +contextual [used']) exitUnused (by simp [used'])
  refine ⟨opened,opened',named',?_,by simp +contextual [used',used]⟩
  rw [opened'.code_other ?_,opened.code_other ?_]
  · exact code
  · exact fun same => headerNew (same ▸ here)
  · intro same
    refine exitNew ?_
    rw [opened.labels]
    exact List.mem_append_left _ (same ▸ here)
theorem Ready.split (ready : f.Ready) (skip : Value) :
    ∃ instrs, Unended instrs ∧ Split f skip f.header f.exit instrs f.headed f.exited (f.branched skip).function ∧
      (f.branched skip).function.Named ∧ ∀ name ∈ f.function.names.used, name ∈ (f.branched skip).function.names.used := by
  obtain ⟨instrs,code,unended⟩ := ready.current
  obtain ⟨opened,opened',named,before,grown⟩ := ready.exited code
  have added : Function.Appended f.exited (f.branched skip).function f.block instrs (.condBr skip f.exit f.header) :=
    Function.Appended.after_register (Function.appended_append (by simpa using before) _)
  have used : (f.branched skip).function.names.used = (f.exited.register []).1 :: f.exited.names.used :=
    Function.used_register _ _
  have named' : (f.branched skip).function.Named :=
    named.appended added (by simp +contextual [used]) (by simp [Instr.result?])
  exact ⟨instrs,unended,⟨opened,opened',added,Function.mem_labels_iff.mpr ⟨_,code⟩⟩,named',by simp +contextual [used,grown]⟩
/-- Entering a loop. The exit is pending until the loop is closed. -/
theorem Sound.branched (sound : f.Sound signatures root pending above) {skip : Value} (known : f.Knows above skip)
    (isBit : skip.type = .i1) :
    ∃ above', (f.branched skip).Sound signatures root (f.exit :: pending) above' ∧
      Looping above above' f (f.branched skip) skip f.header f.exit [] ∧
      (f.branched skip).function.code? f.header = some [] := by
  obtain ⟨instrs,_,split,named,grown⟩ := sound.ready.split skip
  exact ⟨_,split.sound sound named known isBit,split.looping sound (split.advance grown ⟨rfl,rfl⟩),split.header_code⟩

/-! ### The phis of the header -/

theorem Sound.root_label (sound : f.Sound signatures root pending above) : root ∈ f.function.labels := by
  obtain ⟨instrs,code,_⟩ := sound.current
  have here : f.block ∈ f.function.labels := Function.mem_labels_iff.mpr ⟨_,code⟩
  have way := (sound.reached f.block here).resolve_left sound.inside
  rcases way.cases_head with same | ⟨_,⟨_,_,found,_⟩,_⟩
  · exact same ▸ here
  · exact found.mem_labels

section
variable {skip : Value} {header exit : Text} {phis : List Instr}

/-- What is known before a loop is known at the end of the block before it while the loop is filled. -/
theorem Looping.seen (looping : Looping above₀ above f₀ f skip header exit phis) {value : Value}
    (known : f₀.Knows above₀ value) : f.function.Seen above f₀.block value := by
  refine known.mono (fun place position found old => ⟨found,looping.advance.place old,rfl⟩) ?_
  rw [looping.advance.certificate f₀.block looping.outside.1]
  exact fun _ visible => visible
/-- One more phi, with the edge from the block before the loop. -/
theorem Looping.emitPhi (looping : Looping above₀ above f₀ f skip header exit phis) (sound : f.Sound signatures root pending above)
    (rooted : root ∈ f₀.function.labels) (here : f.block = header) (code : f.function.code? header = some phis)
    (leading : ∀ instr ∈ phis, instr.isPhi = true) (base : Text) {value : Value} (known : f₀.Knows above₀ value) {phi : Instr}
    (shape : phi = .phi (f.fresh base) value.type [(value,f₀.block)]) :
    (f.emitted base phi).Sound signatures root pending above ∧
      Looping above₀ above f₀ (f.emitted base phi) skip header exit (phis ++ [phi]) ∧
      (f.emitted base phi).function.code? header = some (phis ++ [phi]) := by
  have isPhi : phi.isPhi = true := shape ▸ rfl
  have stays : phi.isTerminator = false := shape ▸ rfl
  subst here
  have added := appended_emitted base code phi
  have ways := edge_emitted sound base phi stays
  have below : f.block ≠ root := fun same => looping.fresh.1 (same ▸ rooted)
  have elsewhere : ∀ label ∈ f₀.function.labels, label ≠ f.block := fun _ member same => looping.moved (same ▸ member)
  have advance := looping.advance
  refine ⟨?_,?_,added.code_same⟩
  · refine sound.emitted_of_linked stays (fun name yields => ?_) ?_
    · rw [shape] at yields
      cases yields
      rfl
    · have shaped := shape ▸ added
      exact shape ▸ sound.linked.appendedPhi shaped leading below looping.ways (looping.seen known)
  · constructor
    · constructor
      · intro label others found
        obtain ⟨more,later,plain,kept⟩ := advance.code label others found
        have other := elsewhere label (Function.mem_labels_iff.mpr ⟨_,found⟩)
        exact ⟨more,(added.code_other other).trans later,plain,kept⟩
      · rw [added.labels]
        exact advance.blocks
      · exact advance.moved
      · exact fun source target member => (ways source target).trans (advance.ways source target member)
      · intro name member
        rw [used_emitted]
        exact List.mem_cons_of_mem _ (advance.used name member)
      · exact advance.entry
      · exact advance.cells
      · exact advance.points
      · exact advance.declared
      · exact advance.certificate
      · exact advance.scope
    · exact looping.outside
    · exact looping.fresh
    · exact looping.moved
    · obtain ⟨instrs,before,ended⟩ := looping.branch
      exact ⟨instrs,before,(added.code_other (elsewhere _ looping.outside.1)).trans ended⟩
    · exact ⟨[],by rw [List.append_nil]; exact added.code_same,by simp⟩
    · rw [added.labels]
      exact looping.exitLabel
    · exact fun origin => (ways origin _).trans (looping.ways origin)
    · exact looping.higher
    · exact .inr rfl
/-- The log plays no part. -/
theorem Looping.noted (looping : Looping above₀ above f₀ f skip header exit phis) (log : List Text) :
    Looping above₀ above f₀ { f with log } skip header exit phis :=
  ⟨⟨looping.advance.code,looping.advance.blocks,looping.advance.moved,looping.advance.ways,looping.advance.used,looping.advance.entry,
    looping.advance.cells,looping.advance.points,looping.advance.declared,looping.advance.certificate,looping.advance.scope⟩,
    looping.outside,looping.fresh,looping.moved,looping.branch,looping.code,looping.exitLabel,looping.ways,looping.higher,
    looping.inside⟩

end

end Frame

namespace MergePoint
open Attempt (Meets)

/-- The merge point was opened for what its name is bound to, and is still open. -/
structure StandsFor (env : Environment) (preheader : Text) (point : MergePoint) (binding : Binding) : Prop where
  bound : env.lookup? point.name = some binding
  type : point.type = binding.value.type
  levity : point.levity = binding.levity
  preheader : point.preheader = preheader
  latch : point.latch = none

/-- The value that the merge point has on the way into the loop. -/
def initial (env : Environment) (point : MergePoint) : Value :=
  match env.lookup? point.name with
  | some binding => binding.value
  | none => point.value
/-- The phi that the merge point is opened with. -/
def opening (env : Environment) (point : MergePoint) : Instr :=
  .phi point.phi point.type [(point.initial env,point.preheader)]

theorem opening_eq {env : Environment} {point : MergePoint} {binding : Binding} (bound : env.lookup? point.name = some binding) :
    point.opening env = .phi point.phi point.type [(binding.value,point.preheader)] := by
  rw [opening,initial,bound]

section
variable {signatures : Table Nat} {root : Text} {pending : List Text} {above above₀ : Text → List Text} {f f₀ : Frame}
variable {skip : Value} {header exit : Text} {env : Environment}

/-- What opening merge points achieves: a frame at the header, whose phis are those of the points. -/
structure Opens (signatures : Table Nat) (root : Text) (pending : List Text) (above above₀ : Text → List Text) (f₀ : Frame) (skip : Value)
    (header exit : Text) (env : Environment) (names : List Text) (points : List MergePoint) (f : Frame) : Prop where
  sound : f.Sound signatures root pending above
  looping : Frame.Looping above₀ above f₀ f skip header exit (points.map (opening env))
  here : f.block = header
  code : f.function.code? header = some (points.map (opening env))
  names : points.map MergePoint.name = names.filter fun name => (env.lookup? name).isSome
  bindings : ∀ point ∈ points, ∃ binding, point.StandsFor env f₀.block binding
  fresh : ∀ point ∈ points, point.phi ∉ f₀.function.names.used

theorem openAll_opens (rooted : root ∈ f₀.function.labels) (binds : f₀.Binds above₀ env) (names done : List Text)
    (points : List MergePoint) (opens : Opens signatures root pending above above₀ f₀ skip header exit env done points f) :
    Meets (openAll env f₀.block names) f
      (fun more after => Opens signatures root pending above above₀ f₀ skip header exit env (done ++ names) (points ++ more) after)
      (fun fault after => fault.Misnamed ∧ Frame.Stopped signatures root f₀ after) := by
  induction names generalizing f done points with
  | nil => exact .of_run rfl (by simpa using opens)
  | cons name rest ih =>
    rw [openAll]
    cases bound : env.lookup? name with
    | none =>
      refine (ih (done ++ [name]) points ⟨opens.sound,opens.looping,opens.here,opens.code,?_,opens.bindings,opens.fresh⟩).mono ?_
        (fun _ _ stopped => stopped)
      · simp [opens.names,bound]
      · intro more after opened
        simpa using opened
    | some binding =>
      refine .bind (Build.identifier_meets name f) ?_ ?_
      · rintro base after ⟨rfl,rfl⟩
        obtain ⟨known,type⟩ := binds base binding bound
        have leading : ∀ instr ∈ points.map (opening env), instr.isPhi = true := by
          intro instr member
          obtain ⟨point,_,rfl⟩ := List.mem_map.mp member
          rfl
        let point : MergePoint := ⟨base,after.fresh base,binding.value.type,binding.levity,f₀.block,none⟩
        have shape : point.opening env = .phi (after.fresh base) binding.value.type [(binding.value,f₀.block)] := opening_eq bound
        obtain ⟨sound,looping,code⟩ :=
          opens.looping.emitPhi opens.sound rooted opens.here opens.code leading base known shape
        refine .run_then (Build.register_run base after) (.run_then rfl ?_)
        have opened : Opens signatures root pending above above₀ f₀ skip header exit env (done ++ [base]) (points ++ [point])
            (after.emitted base (point.opening env)) := by
          refine ⟨sound,?_,opens.here,?_,?_,?_,?_⟩
          · simpa using looping
          · simpa using code
          · simp [opens.names,bound,point]
          · intro other member
            rcases List.mem_append.mp member with old | new
            · exact opens.bindings other old
            · cases List.mem_singleton.mp new
              exact ⟨binding,bound,rfl,rfl,rfl,rfl⟩
          · intro other member
            rcases List.mem_append.mp member with old | new
            · exact opens.fresh other old
            · cases List.mem_singleton.mp new
              exact fun used => after.fresh_not_used base (opens.looping.advance.used _ used)
        have later := ih (done ++ [base]) (points ++ [point]) opened
        rw [shape] at later
        refine .andThen later (fun more last opened => .of_run rfl ?_)
        rw [List.append_assoc,List.append_assoc] at opened
        exact opened
      · rintro fault after ⟨misnamed,rfl⟩
        exact ⟨misnamed,opens.looping.advance.stopped opens.sound⟩
/-- Opening the merge points of a loop: those of the names the condition reads that are bound. -/
theorem openFor_opens (rooted : root ∈ f₀.function.labels) (binds : f₀.Binds above₀ env) (reads : List Text)
    (opens : Opens signatures root pending above above₀ f₀ skip header exit env [] [] f) :
    Meets (openFor reads env f₀.block) f
      (fun points after => Opens signatures root pending above above₀ f₀ skip header exit env (Text.sortDistinct reads) points after)
      (fun fault after => fault.Misnamed ∧ Frame.Stopped signatures root f₀ after) := by
  refine .andThen (openAll_opens rooted binds (Text.sortDistinct reads) [] [] opens) (fun points after opened => ?_)
  split
  · exact .of_run rfl opened
  · exact .of_run rfl ⟨opened.sound.congr rfl rfl rfl,opened.looping.noted _,opened.here,opened.code,opened.names,opened.bindings,
      opened.fresh⟩
theorem bindAll_binds {points : List MergePoint} (binds : f.Binds above env)
    (known : ∀ point ∈ points, f.Knows above point.value ∧ point.type = if point.levity = .boxed then .pointer else .i32) :
    f.Binds above (bindAll env points) := by
  induction points generalizing env with
  | nil => exact binds
  | cons point rest ih =>
    obtain ⟨seen,type⟩ := known point List.mem_cons_self
    exact ih (binds.bind seen type) (fun other later => known other (List.mem_cons_of_mem _ later))
theorem lookup?_bindAll_of_not_mem (env : Environment) {points : List MergePoint} {name : Text}
    (other : name ∉ points.map MergePoint.name) : (bindAll env points).lookup? name = env.lookup? name := by
  induction points generalizing env with
  | nil => rfl
  | cons point rest ih =>
    rw [List.map_cons,List.mem_cons,not_or] at other
    exact (ih _ other.2).trans ((Environment.lookup?_bind ..).trans (if_neg other.1))
/-- The name of a merge point stands for its phi. -/
theorem lookup?_bindAll_of_mem (env : Environment) {points : List MergePoint} (distinct : (points.map MergePoint.name).Nodup)
    {point : MergePoint} (member : point ∈ points) :
    (bindAll env points).lookup? point.name = some ⟨point.value,point.levity⟩ := by
  induction points generalizing env with
  | nil => cases member
  | cons first rest ih =>
    rw [List.map_cons,List.nodup_cons] at distinct
    rcases List.mem_cons.mp member with rfl | later
    · exact (lookup?_bindAll_of_not_mem _ distinct.1).trans ((Environment.lookup?_bind ..).trans (if_pos rfl))
    · exact ih _ distinct.2 later
/-- The latch carries the phi's own value for a name that still stands for the phi. -/
theorem carried_eq_value {point : MergePoint} (bound : env.lookup? point.name = some ⟨point.value,point.levity⟩) :
    point.carried env = point.value := by
  rw [carried,bound]
  simp
/-- The body of a loop starts with the names that it merges bound to phis. -/
theorem Opens.binds {names : List Text} {points : List MergePoint}
    (opens : Opens signatures root pending above above₀ f₀ skip header exit env names points f) (binds : f₀.Binds above₀ env) :
    f.Binds above (bindAll env points) := by
  refine bindAll_binds (opens.looping.advance.binds binds) (fun point member => ⟨?_,?_⟩)
  · obtain ⟨index,found⟩ := Function.At.of_mem opens.code (List.mem_map_of_mem member)
    exact ⟨header,index,point.opening env,found,rfl,.inr opens.here.symm⟩
  · obtain ⟨binding,stands⟩ := opens.bindings point member
    rw [stands.type,stands.levity,(binds point.name binding stands.bound).2]
    simp [Binding.isBoxed]

end

/-! ### The edges from the latch -/

/-- The merge point with its edge from the latch. -/
def closed (latch : Text) (point : MergePoint) : MergePoint := { point with latch := some latch }
/-- The function whose phis have what an environment leaves to the latch. -/
def latchAll (env : Environment) (latch : Text) (points : List MergePoint) (fn : Function) : Function :=
  points.foldl (fun fn point => fn.addIncoming point.phi (point.carried env,latch)) fn
/-- What becomes of one instruction then. -/
def latchInstr (env : Environment) (latch : Text) (points : List MergePoint) (instr : Instr) : Instr :=
  points.foldl (fun instr point => instr.addIncoming point.phi (point.carried env,latch)) instr

section
variable (env : Environment) (latch : Text) (points : List MergePoint)

theorem closeAll_run (f : Frame) (missing : ∀ point ∈ points, point.latch = none) :
    ∃ log, closeAll env latch points f =
      (.ok (points.map (closed latch)),{ f with function := latchAll env latch points f.function, log }) := by
  induction points generalizing f with
  | nil => exact ⟨f.log,rfl⟩
  | cons point rest ih =>
    have first : point.close f.function (point.carried env) latch =
        .ok (closed latch point,f.function.addIncoming point.phi (point.carried env,latch)) := by
      rw [close,missing point List.mem_cons_self]
      rfl
    let line := lit "lowering.loops: Patched merge point " ++ point.name ++ lit " from " ++ latch
    obtain ⟨log,later⟩ := ih
      { f with function := f.function.addIncoming point.phi (point.carried env,latch), log := f.log ++ [line] }
      (fun other member => missing other (List.mem_cons_of_mem _ member))
    refine ⟨log,?_⟩
    rw [closeAll,Attempt.bind_run_ok (Attempt.read_run _ _),first]
    have step : (closeAll env latch rest >>= fun points => pure (closed latch point :: points)) _ = _ :=
      Attempt.bind_run_ok later
    exact step
theorem patched_latchAll (fn : Function) : Function.Patched fn (latchAll env latch points fn) (latchInstr env latch points) := by
  induction points generalizing fn with
  | nil => exact .refl fn
  | cons point rest ih => exact (Function.patched_addIncoming fn point.phi _).trans (ih _)
theorem names_latchAll (fn : Function) : (latchAll env latch points fn).names = fn.names ∧
    (latchAll env latch points fn).name = fn.name ∧ (latchAll env latch points fn).params = fn.params := by
  induction points generalizing fn with
  | nil => exact ⟨rfl,rfl,rfl⟩
  | cons point rest ih => exact ih _
theorem yields?_latchInstr (instr : Instr) : (latchInstr env latch points instr).yields? = instr.yields? := by
  induction points generalizing instr with
  | nil => rfl
  | cons point rest ih => exact (ih _).trans (Instr.yields?_addIncoming ..)
theorem isTerminator_latchInstr (instr : Instr) : (latchInstr env latch points instr).isTerminator = instr.isTerminator := by
  induction points generalizing instr with
  | nil => rfl
  | cons point rest ih => exact (ih _).trans (Instr.isTerminator_addIncoming ..)
theorem targets_latchInstr (instr : Instr) : (latchInstr env latch points instr).targets = instr.targets := by
  induction points generalizing instr with
  | nil => rfl
  | cons point rest ih => exact (ih _).trans (Instr.targets_addIncoming ..)
/-- Nothing but the phis of the merge points changes. -/
theorem latchInstr_of_ne (instr : Instr) (other : ∀ point ∈ points, instr.result? ≠ some point.phi) :
    latchInstr env latch points instr = instr := by
  induction points generalizing instr with
  | nil => rfl
  | cons point rest ih =>
    have kept := instr.addIncoming_of_ne point.phi (point.carried env,latch) (other point List.mem_cons_self)
    show latchInstr env latch rest (instr.addIncoming point.phi (point.carried env,latch)) = instr
    rw [kept]
    exact ih instr (fun later member => other later (List.mem_cons_of_mem _ member))
/-- The phi of a merge point gets one edge if the phis are distinct. -/
theorem latchInstr_phi {points : List MergePoint} (distinct : (points.map MergePoint.phi).Nodup) {point : MergePoint}
    (member : point ∈ points) (type : Ty) (incoming : List (Value × Text)) :
    latchInstr env latch points (.phi point.phi type incoming) =
      .phi point.phi type (incoming ++ [(point.carried env,latch)]) := by
  induction points generalizing incoming with
  | nil => cases member
  | cons first rest ih =>
    rw [List.map_cons,List.nodup_cons] at distinct
    rcases List.mem_cons.mp member with rfl | later
    · show latchInstr env latch rest (Instr.addIncoming point.phi _ _) = _
      rw [Instr.addIncoming,if_pos rfl]
      refine latchInstr_of_ne env latch rest _ (fun other inside same => distinct.1 ?_)
      have equal : point.phi = other.phi := by simpa [Instr.result?] using same
      exact equal ▸ List.mem_map_of_mem inside
    · have elsewhere : point.phi ≠ first.phi := fun same => distinct.1 (same ▸ List.mem_map_of_mem later)
      show latchInstr env latch rest (Instr.addIncoming first.phi _ _) = _
      rw [Instr.addIncoming,if_neg elsewhere]
      exact ih distinct.2 later incoming

end

section
variable {fn : Function} {header : Text} {env₀ : Environment} {points : List MergePoint} {rest : List Instr}

theorem opening_at (code : fn.code? header = some (points.map (opening env₀) ++ rest)) {index : Nat} {point : MergePoint}
    (here : points[index]? = some point) : fn.At header index (point.opening env₀) := by
  refine ⟨_,code,?_⟩
  have short : index < points.length := (List.getElem?_eq_some_iff.mp here).1
  rw [List.getElem?_append_left (by simpa using short),List.getElem?_map,here]
  rfl
theorem phis_nodup (named : fn.Named) (code : fn.code? header = some (points.map (opening env₀) ++ rest)) :
    (points.map MergePoint.phi).Nodup := by
  rw [List.nodup_iff_getElem?_ne_getElem?]
  intro i j less bound same
  rw [List.length_map] at bound
  have first : points[i]? = some points[i] := List.getElem?_eq_getElem _
  have second : points[j]? = some points[j] := List.getElem?_eq_getElem _
  rw [List.getElem?_map,List.getElem?_map,first,second] at same
  have equal : (points[i]).phi = (points[j]).phi := by simpa using same
  have once := named.resultOnce _ _ _ _ _ _ (points[i]).phi (opening_at code first) (opening_at code second) rfl
    (by rw [equal]; rfl)
  omega
/-- Only the phis of the header get an edge. -/
theorem latchInstr_eq (env : Environment) (latch : Text) (named : fn.Named)
    (code : fn.code? header = some (points.map (opening env₀) ++ rest)) {place : Text} {index : Nat} {instr : Instr}
    (found : fn.At place index instr) (other : place ≠ header ∨ instr.isPhi = false) : latchInstr env latch points instr = instr := by
  refine latchInstr_of_ne env latch points instr (fun point member same => ?_)
  obtain ⟨position,here⟩ := List.getElem?_of_mem member
  have phi := opening_at code here
  obtain ⟨rfl,rfl⟩ := named.resultOnce _ _ _ _ _ _ point.phi found phi same rfl
  obtain ⟨instrs,code,inside⟩ := found
  obtain ⟨others,code',inside'⟩ := phi
  rw [code] at code'
  cases code'
  rw [inside] at inside'
  cases inside'
  rcases other with elsewhere | plain
  · exact elsewhere rfl
  · simp [opening,Instr.isPhi] at plain

end

end MergePoint

namespace Frame
open MergePoint (opening latchAll latchInstr)

/-- The frame after a loop: the phis have their edges from the latch, which has branched out or back. -/
def looped (f : Frame) (env : Environment) (points : List MergePoint) (leave : Value) (header exit : Text)
    (log : List Text) : Frame :=
  { f with
    function := ((latchAll env f.block points f.function).register []).2.append f.block (.condBr leave exit header)
    block := exit
    points := f.points ++ points.map (MergePoint.closed f.block)
    log }

section
variable {signatures : Table Nat} {root : Text} {pending : List Text} {above above₀ : Text → List Text} {f f₀ : Frame}
variable {skip leave : Value} {header exit : Text} {env₀ env : Environment} {points : List MergePoint}

theorem appended_looped {instrs : List Instr} (code : f.function.code? f.block = some instrs) (log : List Text) :
    Function.Appended (latchAll env f.block points f.function) (f.looped env points leave header exit log).function f.block
      (instrs.map (latchInstr env f.block points)) (.condBr leave exit header) := by
  refine Function.Appended.after_register (Function.appended_append ?_ _)
  rw [Function.code?_register,(MergePoint.patched_latchAll env f.block points f.function).code,code]
  rfl
theorem Looping.phi_mem (looping : Looping above₀ above f₀ f skip header exit (points.map (opening env₀))) {index : Nat}
    {instr : Instr} (found : f.function.At header index instr) (isPhi : instr.isPhi = true) :
    ∃ point ∈ points, instr = point.opening env₀ := by
  obtain ⟨rest,code,plain⟩ := looping.code
  rcases List.mem_append.mp (found.mem code) with phi | other
  · obtain ⟨point,member,rfl⟩ := List.mem_map.mp phi
    exact ⟨point,member,rfl⟩
  · rw [plain instr other] at isPhi
    cases isPhi
theorem Looping.phi_at (looping : Looping above₀ above f₀ f skip header exit (points.map (opening env₀))) {index : Nat}
    {point : MergePoint} (here : points[index]? = some point) : f.function.At header index (point.opening env₀) := by
  obtain ⟨rest,code,_⟩ := looping.code
  exact MergePoint.opening_at code here
theorem Looping.phis_nodup (looping : Looping above₀ above f₀ f skip header exit (points.map (opening env₀)))
    (named : f.function.Named) : (points.map MergePoint.phi).Nodup := by
  obtain ⟨rest,code,_⟩ := looping.code
  exact MergePoint.phis_nodup named code
theorem Looping.latchInstr_eq (looping : Looping above₀ above f₀ f skip header exit (points.map (opening env₀)))
    (named : f.function.Named) (latch : Text) {place : Text} {index : Nat} {instr : Instr}
    (found : f.function.At place index instr) (other : place ≠ header ∨ instr.isPhi = false) :
    latchInstr env latch points instr = instr := by
  obtain ⟨rest,code,_⟩ := looping.code
  exact MergePoint.latchInstr_eq env latch named code found other
theorem Looping.knows_value (looping : Looping above₀ above f₀ f skip header exit (points.map (opening env₀)))
    {point : MergePoint} (member : point ∈ points) : f.Knows above point.value := by
  obtain ⟨position,here⟩ := List.getElem?_of_mem member
  exact ⟨header,position,_,looping.phi_at here,rfl,looping.inside⟩
theorem Looping.knows_carried (looping : Looping above₀ above f₀ f skip header exit (points.map (opening env₀)))
    (binds : f.Binds above env) {point : MergePoint} (member : point ∈ points) :
    f.Knows above (point.carried env) ∧ (point.carried env).type = point.type := by
  unfold MergePoint.carried
  split
  · rename_i binding bound
    split
    · rename_i same
      simp only [Bool.and_eq_true,decide_eq_true_eq] at same
      exact ⟨(binds _ binding bound).1,same.2⟩
    · exact ⟨looping.knows_value member,rfl⟩
  · exact ⟨looping.knows_value member,rfl⟩
/-- Where control can go after the loop has been closed. -/
theorem edge_looped (sound : f.Sound signatures root (exit :: pending) above) (env : Environment) (points : List MergePoint)
    (leave : Value) (header : Text) (log : List Text) (source target : Text) :
    (f.looped env points leave header exit log).function.Edge source target ↔
      f.function.Edge source target ∨ (source = f.block ∧ (target = exit ∨ target = header)) := by
  obtain ⟨instrs,code,_⟩ := sound.current
  rw [(appended_looped code log).edge_iff]
  rw [(MergePoint.patched_latchAll env f.block points f.function).edge_iff (MergePoint.targets_latchInstr env f.block points)]
  simp [Instr.targets]
theorem Looping.linked (looping : Looping above₀ above f₀ f skip header exit (points.map (opening env₀)))
    (sound : f.Sound signatures root (exit :: pending) above) (sound₀ : f₀.Sound signatures root pending above₀) (binds : f.Binds above env)
    (known : f.Knows above leave) (isBit : leave.type = .i1) (log : List Text) :
    (f.looped env points leave header exit log).function.Linked signatures f.entry root above := by
  obtain ⟨instrs,code,unended⟩ := sound.current
  obtain ⟨empty,_,exitInside⟩ := sound.waiting exit List.mem_cons_self
  have headerLabel : header ∈ f.function.labels := by
    obtain ⟨rest,found,_⟩ := looping.code
    exact Function.mem_labels_iff.mpr ⟨_,found⟩
  have entryBefore : f.entry ∈ f₀.function.labels := looping.advance.entry ▸ sound₀.ready.entryHere
  -- What lies above the header and the exit lies above all of the loop.
  have passed : ∀ label ∈ f₀.block :: above₀ f₀.block, label = f.block ∨ label ∈ above f.block := by
    intro label member
    refine (looping.advance.scope label ?_).symm
    exact (List.mem_cons.mp member).symm
  refine sound.linked.looped ⟨MergePoint.patched_latchAll env f.block points f.function,appended_looped code log,?_,?_⟩ ?_
    ⟨headerLabel,fun same => looping.fresh.1 (same ▸ entryBefore)⟩ ⟨looping.exitLabel,exitInside⟩ empty
    (looping.higher.1 ▸ passed) (looping.higher.2 ▸ passed) known isBit
  · intro index result type incoming found
    obtain ⟨point,member,same⟩ := looping.phi_mem found rfl
    cases same
    obtain ⟨seen,fits⟩ := looping.knows_carried binds member
    exact ⟨point.carried env,MergePoint.latchInstr_phi env f.block (looping.phis_nodup sound.named) member _ _,seen,fits⟩
  · exact fun place index instr found other => looping.latchInstr_eq sound.named f.block found other
  · rintro target ⟨index,instr,found,leads⟩
    rw [Instr.targets_eq_nil (unended instr (found.mem code))] at leads
    cases leads
theorem used_looped (f : Frame) (env : Environment) (points : List MergePoint) (leave : Value) (header exit : Text) (log : List Text) :
    (f.looped env points leave header exit log).function.names.used =
      (Function.register (latchAll env f.block points f.function) []).1 :: f.function.names.used := by
  rw [← (MergePoint.names_latchAll env f.block points f.function).1]
  exact Function.used_register _ _
theorem named_latchAll (named : f.function.Named) (env : Environment) (latch : Text) (points : List MergePoint) :
    (latchAll env latch points f.function).Named := by
  refine named.patched (MergePoint.patched_latchAll env latch points f.function) (fun instr => ?_)
    (MergePoint.names_latchAll env latch points f.function).1
  rw [Instr.result?_eq,MergePoint.yields?_latchInstr,Instr.result?_eq]
theorem Ready.named_looped (ready : f.Ready) (env : Environment) (points : List MergePoint) (leave : Value) (header exit : Text)
    (log : List Text) : (f.looped env points leave header exit log).function.Named := by
  obtain ⟨instrs,code,_⟩ := ready.current
  refine (named_latchAll ready.named env f.block points).appended (appended_looped code log) ?_ (by simp [Instr.result?])
  rw [used_looped,(MergePoint.names_latchAll env f.block points f.function).1]
  exact fun _ => List.mem_cons_of_mem _
theorem Looping.ne_header (looping : Looping above₀ above f₀ f skip header exit (points.map (opening env₀))) {label : Text}
    (member : label ∈ f₀.function.labels) : label ≠ header :=
  fun same => looping.fresh.1 (same ▸ member)
/-- Blocks other than the header and the latch stay as they are. -/
theorem Ready.code_looped (ready : f.Ready) {rest : List Instr}
    (start : f.function.code? header = some (points.map (opening env₀) ++ rest)) (log : List Text) {label : Text} {others : List Instr}
    (found : f.function.code? label = some others) (notLatch : label ≠ f.block) (notHeader : label ≠ header) :
    (f.looped env points leave header exit log).function.code? label = some others := by
  obtain ⟨instrs,code,_⟩ := ready.current
  rw [(appended_looped code log).code_other notLatch,(MergePoint.patched_latchAll env f.block points f.function).code,found]
  refine congrArg some ((List.map_congr_left ?_).trans (List.map_id others))
  intro instr member
  obtain ⟨index,at_found⟩ := Function.At.of_mem found member
  exact MergePoint.latchInstr_eq env f.block ready.named start at_found (.inl notHeader)
theorem Looping.code_looped (looping : Looping above₀ above f₀ f skip header exit (points.map (opening env₀)))
    (sound : f.Sound signatures root (exit :: pending) above) (log : List Text) {label : Text} {others : List Instr}
    (found : f.function.code? label = some others) (notLatch : label ≠ f.block) (notHeader : label ≠ header) :
    (f.looped env points leave header exit log).function.code? label = some others := by
  obtain ⟨rest,start,_⟩ := looping.code
  exact sound.ready.code_looped start log found notLatch notHeader
theorem Looping.exit_looped (looping : Looping above₀ above f₀ f skip header exit (points.map (opening env₀)))
    (sound : f.Sound signatures root (exit :: pending) above) (log : List Text) :
    (f.looped env points leave header exit log).function.code? exit = some [] := by
  obtain ⟨empty,elsewhere,_⟩ := sound.waiting exit List.mem_cons_self
  exact looping.code_looped sound log empty elsewhere looping.fresh.2.2
/-- What was there before the loop is there after it. -/
theorem Looping.advance_looped (looping : Looping above₀ above f₀ f skip header exit (points.map (opening env₀)))
    (sound : f.Sound signatures root (exit :: pending) above) (log : List Text) :
    Advance above₀ above f₀ (f.looped env points leave header exit log) where
  code label others found := by
    obtain ⟨more,later,plain,kept⟩ := looping.advance.code label others found
    have before : label ∈ f₀.function.labels := Function.mem_labels_iff.mpr ⟨_,found⟩
    have notLatch : label ≠ f.block := fun equal => looping.moved (equal ▸ before)
    exact ⟨more,looping.code_looped sound log later notLatch (looping.ne_header before),plain,kept⟩
  blocks := by
    obtain ⟨instrs,code,_⟩ := sound.current
    rw [(appended_looped code log).labels,(MergePoint.patched_latchAll env f.block points f.function).labels]
    exact looping.advance.blocks
  moved := .inr looping.fresh.2.1
  ways source target member := by
    have notExit : target ≠ exit := fun equal => looping.fresh.2.1 (equal ▸ member)
    rw [edge_looped sound,looping.advance.ways source target member]
    simp [notExit,looping.ne_header member]
  used name member := by
    rw [used_looped]
    exact List.mem_cons_of_mem _ (looping.advance.used name member)
  entry := looping.advance.entry
  cells := looping.advance.cells
  points := looping.advance.points.trans (List.prefix_append _ _)
  declared := by
    have names := MergePoint.names_latchAll env f.block points f.function
    exact ⟨names.2.1.trans looping.advance.declared.1,names.2.2.trans looping.advance.declared.2⟩
  certificate := looping.advance.certificate
  scope label visible := by
    refine .inl ?_
    show label ∈ above exit
    rw [looping.higher.2]
    exact List.mem_cons.mpr visible.symm
/-- Closing a loop. The exit, which was pending, becomes the current block. -/
theorem Sound.looped (sound : f.Sound signatures root (exit :: pending) above) (sound₀ : f₀.Sound signatures root pending above₀)
    (looping : Looping above₀ above f₀ f skip header exit (points.map (opening env₀))) (binds : f.Binds above env)
    (known : f.Knows above leave) (isBit : leave.type = .i1) (log : List Text) :
    (f.looped env points leave header exit log).Sound signatures root pending above := by
  obtain ⟨instrs,code,unended⟩ := sound.current
  have patched := MergePoint.patched_latchAll env f.block points f.function
  have added : Function.Appended _ (f.looped env points leave header exit log).function f.block _ _ := appended_looped code log
  have ends := MergePoint.isTerminator_latchInstr env f.block points
  have entryBefore : f.entry ∈ f₀.function.labels := looping.advance.entry ▸ sound₀.ready.entryHere
  constructor
  · exact sound.ready.named_looped env points leave header exit log
  · exact looping.linked sound sound₀ binds known isBit log
  · intro label member
    rw [added.labels,patched.labels] at member
    rcases sound.reached label member with entry | way
    · exact .inl entry
    · exact .inr (Relation.ReflTransGen.mono (fun _ _ edge => (edge_looped sound ..).mpr (.inl edge)) _ _ way)
  · obtain ⟨names,cells,pointers⟩ := sound.cells
    exact ⟨names,looping.code_looped sound log cells sound.inside.symm (looping.ne_header entryBefore),pointers⟩
  · exact sound.offset
  · exact ⟨[],looping.exit_looped sound log,fun _ member => absurd member List.not_mem_nil⟩
  · exact (sound.waiting exit List.mem_cons_self).2.2
  · intro label member
    obtain ⟨none,notCurrent,notEntry⟩ := sound.waiting label (List.mem_cons_of_mem _ member)
    have before : label ∈ f₀.function.labels := Function.mem_labels_iff.mpr ⟨_,(sound₀.waiting label member).1⟩
    have notExit : label ≠ exit := fun equal => looping.fresh.2.1 (equal ▸ before)
    exact ⟨looping.code_looped sound log none notCurrent (looping.ne_header before),notExit,notEntry⟩
  · intro label others found
    by_cases atLatch : label = f.block
    · subst atLatch
      rw [added.code_same] at found
      cases found
      exact .inr (.inr (.inr ((unended.map ends).close rfl)))
    · rw [added.code_other atLatch,patched.code] at found
      obtain ⟨olds,before,rfl⟩ := Option.map_eq_some_iff.mp found
      rcases sound.closed label olds before with current | entry | waiting | closed
      · exact absurd current atLatch
      · exact .inr (.inl entry)
      · rcases List.mem_cons.mp waiting with atExit | pending
        · exact .inl atExit
        · exact .inr (.inr (.inl pending))
      · exact .inr (.inr (.inr (closed.map ends)))
  · show f.entry ∈ above exit
    rw [looping.higher.2,looping.advance.entry]
    exact List.mem_cons_of_mem _ sound₀.below

end

end Frame

namespace Build
variable {f : Frame} {β : Type}

theorem currentBlock_run (f : Frame) : currentBlock f = (.ok f.block,f) := rfl
theorem isZero_run (value : Value) (f : Frame) : isZero value f = (.ok f.comparison,f.compared value) := rfl
/-- The steps that enter a loop. -/
theorem enter_run (ready : f.Ready) (skip : Value) (next : Text → Text → Text → Build β) :
    (do let header ← addBlock (lit "loop")
        let exit ← addBlock (lit "afterloop")
        let preheader ← currentBlock
        terminate (.condBr skip exit header)
        moveTo header
        next header exit preheader : Build β) f = next f.header f.exit f.block (f.branched skip) := by
  obtain ⟨instrs,code,unended⟩ := ready.current
  obtain ⟨_,_,named,before,_⟩ := ready.exited code
  have ended : terminate (.condBr skip f.exit f.header) { f with function := f.exited } = (.ok (),_) :=
    terminate_run named before unended _
  have last : (do
      terminate (.condBr skip f.exit f.header)
      moveTo f.header
      next f.header f.exit f.block : Build β) { f with function := f.exited } =
      next f.header f.exit f.block (f.branched skip) := by
    rw [Attempt.bind_run_ok ended]
    rfl
  exact last
/-- The steps that leave a loop. -/
theorem leave_run (ready : f.Ready) (env : Environment) {points : List MergePoint}
    (missing : ∀ point ∈ points, point.latch = none) (leave : Value) (header exit : Text) :
    ∃ log, (do
      let latch ← currentBlock
      let closed ← MergePoint.closeAll env latch points
      terminate (.condBr leave exit header)
      moveTo exit
      Attempt.modify fun frame => { frame with points := frame.points ++ closed }
      pure (.ofInt 0) : Build Value) f = (.ok (.ofInt 0),f.looped env points leave header exit log) := by
  obtain ⟨instrs,code,unended⟩ := ready.current
  obtain ⟨log,closed⟩ := MergePoint.closeAll_run env f.block points f missing
  refine ⟨log,?_⟩
  have latched : (MergePoint.latchAll env f.block points f.function).code? f.block =
      some (instrs.map (MergePoint.latchInstr env f.block points)) := by
    rw [(MergePoint.patched_latchAll env f.block points f.function).code,code]
    rfl
  have ended : terminate (.condBr leave exit header)
      { f with function := MergePoint.latchAll env f.block points f.function, log } = (.ok (),_) :=
    terminate_run (Frame.named_latchAll ready.named env f.block points) latched (unended.map (MergePoint.isTerminator_latchInstr env f.block points)) _
  rw [Attempt.bind_run_ok (currentBlock_run f),Attempt.bind_run_ok closed,Attempt.bind_run_ok ended]
  rfl

end Build

end Lev
