import Lev.Proofs.Growth
import Lev.Proofs.Merging

/-!
Lowering only appends. Main statement: at every moment of a build, its draft stands at a frame that can be filled; and in every
such draft, whatever is lowered in whatever environment, and whether it succeeds or not, everything that was there stays, but
for instructions at the end of the current block and for cells at the end of the entry. Where lowering succeeds, all blocks that
it has begun have their end, up to the one that it stands at; and only loops that are complete are ever listed.
-/
namespace Lev
open Attempt (Meets)
open Build (Appends)
open Relation (ReflTransGen)

/-! ### Subjects -/

namespace Subject
variable (signatures : Table Nat) (subject : Subject) (env : Environment)

theorem lowerExpr_appends : Appends (subject.lowerExpr signatures env) := by
  cases subject with
  | node n =>
    cases n with
    | expr e => exact e.lower_appends signatures env
    | stmt s => exact .fail _
    | block b => exact .fail _
  | oddBinary left symbol right =>
    exact (left.lower_appends signatures env).bind fun _ => (right.lower_appends signatures env).bind fun _ => .fail _
  | foreign value => exact .fail _
theorem lowerStmt_appends : Appends (subject.lowerStmt signatures env) := by
  cases subject with
  | node n =>
    cases n with
    | expr e => exact .fail _
    | stmt s => exact s.lower_appends signatures env
    | block b => exact .fail _
  | oddBinary left symbol right => exact .fail _
  | foreign value => exact .fail _
theorem lowerBlock_appends : Appends (subject.lowerBlock signatures env) := by
  cases subject with
  | node n =>
    cases n with
    | expr e => exact .fail _
    | stmt s => exact .fail _
    | block b => exact b.lower_appends signatures env
  | oddBinary left symbol right => exact .fail _
  | foreign value => exact .fail _
theorem lowerProgram_appends : Appends (subject.lowerProgram signatures env) := by
  cases subject with
  | node n =>
    cases n with
    | expr e => exact e.lower_appends signatures env
    | stmt s => exact .fail _
    | block b => exact (b.lower_appends signatures env).bind fun result => .pure result.1
  | oddBinary left symbol right => exact lowerExpr_appends signatures (.oddBinary left symbol right) env
  | foreign value => exact .fail _

end Subject

/-! ### Drafts -/

namespace Draft

/-- The entry function of the draft is filled at the frame. -/
structure StandsAt (draft : Draft) (f : Frame) : Prop where
  ready : f.Ready
  complete : f.Complete
  function : draft.entryFunction? = some f.function
  place : draft.filling = some ⟨f.arena,f.block⟩
  points : draft.points = f.points
  log : draft.log = f.log
  names : (draft.functions.map Function.name).Nodup

/-- What is left of the first draft, which stood at the first frame, in the second, which stands at the second frame. -/
structure Extends (draft draft' : Draft) (f f' : Frame) : Prop where
  stands : draft'.StandsAt f'
  grown : f.Grows f'
  edges : ∀ label index phi type edges, f.function.At label index (.phi phi type edges) → f'.function.incoming phi = edges
  signatures : draft'.signatures = draft.signatures
  inStep : draft.InStep → draft'.InStep
  functions : draft'.functions.map Function.name = draft.functions.map Function.name
  others : ∀ (index : Nat) (fn : Function), draft.functions[index]? = some fn → draft.entry ≠ some fn.name →
    draft'.functions[index]? = some fn
  settings : draft'.options = draft.options ∧ draft'.built = draft.built ∧ draft'.entry = draft.entry

/-- From the draft, which stands at the frame, the step only appends; if it succeeds, it goes on in a block that has no end. -/
def Appends {α : Type} (draft : Draft) (f : Frame) (step : Session α) : Prop :=
  Meets step draft (fun _ draft' => ∃ f', draft.Extends draft' f f' ∧ f.Continues f') (fun _ draft' => ∃ f', draft.Extends draft' f f')

section
variable {draft : Draft} {f f' : Frame}

theorem name_replaced (fn old : Function) : (if old.name = fn.name then fn else old).name = old.name := by
  split
  · exact Eq.symm ‹_›
  · rfl
theorem names_replace (draft : Draft) (fn : Function) :
    (draft.replace fn).map Function.name = draft.functions.map Function.name :=
  (List.map_map ..).trans (List.map_congr_left fun old _ => name_replaced fn old)
theorem entryFunction?_resume {fn : Function} (found : draft.entryFunction? = some fn) (name : f.function.name = fn.name) :
    (draft.resume f).entryFunction? = some f.function := by
  have entry := entry_of_entryFunction? found
  have first : draft.function? fn.name = some fn := by rw [entryFunction?,entry] at found; exact found
  refine Option.bind_eq_some_iff.mpr ⟨fn.name,entry,?_⟩
  show (draft.replace f.function).find? (·.name = fn.name) = some f.function
  rw [replace,List.find?_map]
  simp only [Function.comp_def,name_replaced]
  show (draft.function? fn.name).map _ = _
  rw [first,Option.map_some,if_pos name.symm]
/-- A frame that has grown from the one that the draft stands at can be taken over. -/
theorem StandsAt.resume (stands : draft.StandsAt f) (grown : f.Grows f') : draft.Extends (draft.resume f') f f' where
  stands := by
    refine ⟨grown.ready,grown.complete stands.complete,entryFunction?_resume stands.function grown.declared.1,rfl,rfl,rfl,?_⟩
    exact (names_replace draft f'.function).symm ▸ stands.names
  grown := grown
  edges label index phi type edges found := grown.ready.named.incoming_eq (grown.place found)
  signatures := rfl
  inStep inStep := by
    refine Eq.trans inStep (Eq.symm ((List.map_map ..).trans (List.map_congr_left fun old member => ?_)))
    simp only [Function.comp]
    split
    · rename_i same
      -- Names are distinct, so the function of this name is the one that was filled.
      have equal : old = f.function :=
        List.inj_on_of_nodup_map stands.names member (mem_of_entryFunction? stands.function) (same.trans grown.declared.1)
      simp only [equal,Function.signature,grown.declared]
    · rfl
  functions := names_replace draft f'.function
  others index fn here other := by
    have apart : fn.name ≠ f'.function.name := by
      intro equal
      exact other (by rw [entry_of_entryFunction? stands.function,equal,grown.declared.1])
    show (draft.replace f'.function)[index]? = some fn
    rw [replace,List.getElem?_map,here,Option.map_some,if_neg apart]
  settings := ⟨rfl,rfl,rfl⟩
theorem StandsAt.fill_run {α : Type} (stands : draft.StandsAt f) (work : Build α) (idle : Except Fault α) :
    fill work idle draft = ((work f).1,draft.resume (work f).2) := by
  unfold fill
  rw [stands.function,stands.place]
  show ((work (draft.frame f.function ⟨f.arena,f.block⟩)).1,_) = _
  rw [frame,stands.points,stands.log]
theorem StandsAt.fill {α : Type} (stands : draft.StandsAt f) {work : Build α} (appends : Build.Appends work) (idle : Except Fault α) :
    draft.Appends f (fill work idle) := by
  have meets := appends f stands.ready
  rcases run : work f with ⟨fault | a,f'⟩
  · exact Meets.of_error (by rw [stands.fill_run,run]) ⟨f',stands.resume (meets.error run)⟩
  · have continues := meets.ok run
    exact Meets.of_run (by rw [stands.fill_run,run]) ⟨f',stands.resume continues.toGrows,continues⟩
/-- Whatever the outcome, the draft is extended. -/
theorem Appends.extended {α : Type} {step : Session α} (appends : draft.Appends f step) : ∃ f', draft.Extends (step draft).2 f f' := by
  rcases run : step draft with ⟨fault | a,after⟩
  · exact Meets.error appends run
  · obtain ⟨f',extended,_⟩ := Meets.ok appends run
    exact ⟨f',extended⟩

end

end Draft

/-! ### Where drafts are filled -/

namespace Draft

/-- Functions are declared in the draft, each once, and none is filled. -/
structure Plain (draft : Draft) : Prop where
  names : (draft.functions.map Function.name).Nodup
  inStep : draft.InStep
  unfilled : ∀ fn ∈ draft.functions, fn.blocks = []
  points : draft.points = []
  idle : draft.filling = none

/-- The rest of a build fills nothing, or it is about filling the entry function from a draft on that stands at a frame. -/
def Fills (subject : Subject) (rest : Session Unit) (draft : Draft) : Prop :=
  (rest draft).2.filling = none ∨ ∃ before f, rest draft = reported (buildEntry subject) before ∧
    openEntry before = (.ok (),before.resume f) ∧ (before.resume f).StandsAt f

section
variable {draft : Draft} {subject : Subject} {α : Type}

theorem plain_declare (plain : draft.Plain) (name : Text) (arity : Int) :
    Meets (declare name arity) draft (fun named after => after.Plain ∧ ∃ fn, after.function? named = some fn) (fun _ after => after.Plain) := by
  cases entered : draft.signatures.get? name with
  | some count =>
    refine .run_then (Attempt.read_run _ _) ?_
    rw [entered]
    dsimp only
    split
    · obtain ⟨fn,found,_⟩ := plain.inStep.found entered
      exact .of_run rfl ⟨plain,fn,found⟩
    · exact .of_error rfl plain
  | none =>
    cases carried : Identifier.error? name with
    | some error =>
      refine .run_then (Attempt.read_run _ _) ?_
      rw [entered]
      simp only [carried]
      exact .of_error rfl plain
    | none =>
      have new : name ∉ draft.functions.map Function.name := plain.inStep.names ▸ Table.get?_eq_none_iff.mp entered
      obtain ⟨log,run⟩ := declare_run draft arity entered carried
      refine .of_run run ⟨⟨?_,?_,?_,plain.points,plain.idle⟩,?_⟩
      · rw [List.map_append,List.nodup_append]
        refine ⟨plain.names,List.nodup_singleton _,?_⟩
        rintro other member _ single rfl
        exact new ((List.mem_singleton.mp single : other = name) ▸ member)
      · rw [InStep,List.map_append,← plain.inStep]
        simp
      · exact List.forall_mem_append.mpr ⟨plain.unfilled,List.forall_mem_singleton.mpr rfl⟩
      · exact Option.isSome_iff_exists.mp (List.find?_isSome.mpr ⟨_,List.mem_append_right _ List.mem_cons_self,by simp⟩)
theorem plain_declareAll (table : Table Int) : Attempt.Maintains Plain (declareAll table) fun _ => True := by
  induction table with
  | nil => exact .pure trivial
  | cons entry rest ih =>
    refine Attempt.Maintains.andThen (fun draft plain => ?_) fun _ => ih
    exact (plain_declare plain entry.1 entry.2).mono (fun _ _ declared => ⟨declared.1,trivial⟩) fun _ _ kept => kept
/-- Opening the blocks of the entry function brings the draft to a frame. -/
theorem Plain.stands (plain : draft.Plain) {fn : Function} (found : draft.entryFunction? = some fn) :
    openEntry draft = (.ok (),draft.resume (.initial fn draft.points draft.log)) ∧
      (draft.resume (.initial fn draft.points draft.log)).StandsAt (.initial fn draft.points draft.log) := by
  obtain ⟨sound,_⟩ := Frame.initial_sound (plain.unfilled fn (mem_of_entryFunction? found)) draft.signatures draft.points draft.log rfl
  refine ⟨by unfold openEntry; rw [found]; rfl,sound.ready,?_,entryFunction?_resume found rfl,rfl,rfl,rfl,?_⟩
  · intro point member
    exact absurd (plain.points ▸ member) List.not_mem_nil
  · exact (names_replace draft _).symm ▸ plain.names
theorem fills_bind {step : Session α} {next : α → Session Unit}
    (first : Meets step draft (fun a after => Fills subject (next a) after) (fun _ after => after.filling = none)) :
    Fills subject (step >>= next) draft := by
  rcases run : step draft with ⟨fault | a,after⟩
  · refine .inl ?_
    rw [Attempt.bind_run_error run]
    exact first.error run
  · unfold Fills
    rw [Attempt.bind_run_ok run]
    exact first.ok run
theorem fills_ofExcept {result : Except Fault α} {next : α → Session Unit} (idle : draft.filling = none)
    (rest : ∀ a, Fills subject (next a) draft) : Fills subject (Attempt.ofExcept result >>= next) draft := by
  cases result with
  | error fault => exact .inl idle
  | ok a => exact rest a
/-- Whatever is built, and whether it succeeds or not. -/
theorem fills_build (subject : Subject) (options : Options) : Fills subject (build subject) (.new options) := by
  have plain : Plain { Draft.new options with built := true } := ⟨List.nodup_nil,rfl,by simp [Draft.new],rfl,rfl⟩
  refine fills_bind (.of_run rfl (fills_bind (.of_run rfl (fills_bind (.of_run rfl ?_)))))
  refine fills_ofExcept plain.idle fun discovered => fills_ofExcept plain.idle fun violations => ?_
  split
  · refine fills_bind ((plain_declareAll _ _ plain).mono (fun _ before declared => ?_) fun _ _ kept => kept.idle)
    refine fills_bind ((plain_declare declared.1 options.entryName 0).mono (fun entry last declared => ?_) fun _ _ kept => kept.idle)
    obtain ⟨declared,fn,found⟩ := declared
    have chosen : Plain { last with entry := some entry } :=
      ⟨declared.names,declared.inStep,declared.unfilled,declared.points,declared.idle⟩
    exact fills_bind (.of_run rfl (.inr ⟨_,_,rfl,chosen.stands found⟩))
  · exact .inl rfl

end

end Draft

/-! ### Moments -/

section
variable {signatures : Table Nat} {cond : Expr} {env : Environment} {f before opened : Frame} {first : Value} {points : List MergePoint}
variable {moment moment' : Moment}

/-- Up to the body of a loop. -/
theorem Frame.Ready.opens (ready : f.Ready) (ran : cond.lower signatures env f = (.ok first,before))
    (ranOpen : MergePoint.openFor cond.reads env (before.compared first).block ((before.compared first).branched before.comparison) =
      (.ok points,opened)) : f.Grows opened := by
  have continues := (cond.lower_appends signatures env f ready).ok ran
  have compared : before.Continues (before.compared first) := (Appends.isZero first before continues.ready).ok (Build.isZero_run first before)
  have inside := (MergePoint.openFor_inside compared.ready cond.reads).ok ranOpen
  exact (continues.toGrows.trans compared.toGrows).trans inside.grows
theorem Moment.Leads.grows (leads : moment.Leads signatures moment') (ready : moment.frame.Ready) : moment.frame.Grows moment'.frame := by
  cases leads with
  | left | args _ | firstArg | scope | cond | discard | bindConst | assign _ | result | first => exact ready.continues.toGrows
  | right ran | laterArgs ran => exact ((Expr.lower_appends signatures _ _ _ ready).ok ran).toGrows
  | body ran ranOpen => exact ready.opens ran ranOpen
  | again ran ranOpen ranBody =>
    have toBody := ready.opens ran ranOpen
    exact toBody.trans ((Block.lower_appends signatures _ _ _ toBody.ready).ok ranBody).toGrows
  | bindMut _ => exact (ready.allocated _).toGrows
  | rest ran => exact ((Stmt.lower_appends signatures _ _ _ ready).ok ran).toGrows
theorem Moment.grows_along (way : ReflTransGen (Moment.Leads signatures) moment moment') (ready : moment.frame.Ready) :
    moment.frame.Grows moment'.frame := by
  induction way with
  | refl => exact ready.continues.toGrows
  | tail _ leads ih => exact ih.trans (leads.grows ih.ready)

end

/-- Whatever is built, nothing is filled, or filling starts from a draft that stands at a frame; and from there on the draft stands
    at the frame of every moment that lowering comes to. In such a draft, lowering anything in any environment leaves the settings,
    the signatures and the other functions as they are, keeps every block but the current one and the entry, the edges of the phis,
    the cells and the merge points, and comes to stand at a frame again, also if it fails. If it succeeds, the blocks it has begun
    have their end, but for the one that it stands at. -/
theorem lowering_only_appends :
    (∀ (subject : Subject) (options : Options), (Draft.build subject (.new options)).2.filling = none ∨
      ∃ before f, Draft.build subject (.new options) = Draft.reported (Draft.buildEntry subject) before ∧
        Draft.openEntry before = (.ok (),before.resume f) ∧ (before.resume f).StandsAt f) ∧
    ∀ (draft : Draft) (f : Frame), draft.StandsAt f →
      (∀ (signatures : Table Nat) (task : Task) (env : Environment) (moment : Moment),
        ReflTransGen (Moment.Leads signatures) ⟨task,env,f⟩ moment → (draft.resume moment.frame).StandsAt moment.frame) ∧
      ∀ (subject : Subject) (env : Environment),
        draft.Appends f (Draft.lowerExpr subject env) ∧ draft.Appends f (Draft.lowerStmt subject env) ∧
        draft.Appends f (Draft.lowerBlock subject env) ∧ draft.Appends f (Draft.lowerProgram subject env) := by
  refine ⟨Draft.fills_build,fun draft f stands => ⟨fun signatures task env moment way => ?_,fun subject env => ?_⟩⟩
  · exact (stands.resume (Moment.grows_along way stands.ready)).stands
  · exact ⟨stands.fill (subject.lowerExpr_appends _ env) _,stands.fill (subject.lowerStmt_appends _ env) _,
      stands.fill (subject.lowerBlock_appends _ env) _,stands.fill (subject.lowerProgram_appends _ env) _⟩

/-- A program with a loop that is completed and one that is not, for an immutable name in its body is bound to the value of a cell. -/
def abandonedLoop : Program :=
  .block (.step (.bindMut (lit "x") (.literal 3))
    (.step (.discard (.loop (.var (lit "x"))
      (.step (.assign (lit "x") (.binary (.var (lit "x")) .sub (.literal 1))) (.result (.literal 0)))))
    (.step (.discard (.loop (.var (lit "x")) (.step (.bindConst (lit "y") (.var (lit "x"))) (.result (.literal 0)))))
    (.result (.literal 0)))))
/-- A draft with nothing but its entry function. -/
def Draft.bare : Draft :=
  { Draft.new {} with
    built := true, functions := [.declare (lit "main") 0], signatures := [(lit "main",0)], entry := some (lit "main") }
/-- The draft with the blocks that the entry function starts with. -/
def Draft.begun : Draft := (Draft.openEntry Draft.bare).2
/-- Building the program fails after filling has begun. Lowering it from there leaves a draft that lists the merge point of the
    first loop, and not that of the second, whose phi has no edge from a latch. -/
theorem lowering_only_appends_abandonedLoop :
    (∃ before f, Draft.build abandonedLoop.subject (.new {}) = Draft.reported (Draft.buildEntry abandonedLoop.subject) before ∧
      Draft.openEntry before = (.ok (),before.resume f) ∧ (before.resume f).StandsAt f) ∧
    (Draft.lowerProgram abandonedLoop.subject .empty Draft.begun).1.isOk = false ∧
    ∃ f f', Draft.begun.StandsAt f ∧ Draft.begun.Extends (Draft.lowerProgram abandonedLoop.subject .empty Draft.begun).2 f f' ∧
      f'.points.map MergePoint.phi = [lit "x.2"] ∧ f'.function.incoming (lit "x.6") = [(.reg (lit "x") .pointer,lit "afterloop")] := by
  obtain ⟨builds,lowers⟩ := lowering_only_appends
  have filled : (Draft.build abandonedLoop.subject (.new {})).2.filling.isSome = true := by decide +kernel
  have bare : Draft.bare.Plain := ⟨List.nodup_singleton _,rfl,by simp [Draft.bare],rfl,rfl⟩
  obtain ⟨_,begun⟩ := bare.stands (rfl : Draft.bare.entryFunction? = some (.declare (lit "main") 0))
  -- Stated for every draft, for at this one the elaborator would run the lowering.
  have extending : ∀ (draft : Draft) (f : Frame), draft.StandsAt f → ∀ subject env,
      ∃ f', draft.Extends (Draft.lowerProgram subject env draft).2 f f' :=
    fun draft f stands subject env => ((lowers draft f stands).2 subject env).2.2.2.extended
  obtain ⟨f',extended⟩ := extending Draft.begun _ begun abandonedLoop.subject .empty
  have failed : (Draft.lowerProgram abandonedLoop.subject .empty Draft.begun).1.isOk = false := by decide +kernel
  have listed : (Draft.lowerProgram abandonedLoop.subject .empty Draft.begun).2.points.map MergePoint.phi = [lit "x.2"] := by decide +kernel
  have edges : (Draft.lowerProgram abandonedLoop.subject .empty Draft.begun).2.entryFunction?.map (·.incoming (lit "x.6")) =
      some [(.reg (lit "x") .pointer,lit "afterloop")] := by decide +kernel
  rw [extended.stands.points] at listed
  rw [extended.stands.function] at edges
  refine ⟨(builds abandonedLoop.subject {}).resolve_left fun idle => ?_,failed,_,f',begun,extended,listed,Option.some.inj edges⟩
  rw [idle] at filled
  cases filled

end Lev
