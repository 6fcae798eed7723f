import Lev.Proofs.Effects

/-!
The rounds of a loop. A loop that was lowered has two copies of its condition, one before the loop and one at its
end, and the second is lowered in the environment that the body leaves. If the body binds no name of the
condition, the names of the condition stand for the phis in both, each round starts with the registers of the one
before, and the machine follows the loop.
-/
namespace Lev
open Lev.Frame (Advance)
open Machine (Placed Keeps)

/-! ### Names -/

theorem Stmt.lookup?_lower {signatures : Table Nat} (first : Stmt) {env env' : Environment} {f f' : Frame}
    (run : first.lower signatures env f = (.ok env',f')) {name : Text} (other : first.binder? ≠ some name) :
    env'.lookup? name = env.lookup? name := by
  cases first with
  | discard value =>
    obtain ⟨_,_,_,rest⟩ := Attempt.bind_eq_ok.mp run
    cases rest
    rfl
  | bindConst key value =>
    obtain ⟨bound,_,_,rest⟩ := Attempt.bind_eq_ok.mp run
    cases bound with
    | reg => cases rest
    | const n =>
      cases rest
      exact (Environment.lookup?_bind ..).trans (if_neg (fun same => other (congrArg some same.symm)))
  | bindMut key value =>
    obtain ⟨_,_,_,rest⟩ := Attempt.bind_eq_ok.mp run
    obtain ⟨_,_,_,rest⟩ := Attempt.bind_eq_ok.mp rest
    obtain ⟨_,_,_,rest⟩ := Attempt.bind_eq_ok.mp rest
    obtain ⟨_,_,_,rest⟩ := Attempt.bind_eq_ok.mp rest
    cases rest
    exact (Environment.lookup?_bind ..).trans (if_neg (fun same => other (congrArg some same.symm)))
  | assign key value =>
    obtain ⟨_,_,_,rest⟩ := Attempt.bind_eq_ok.mp run
    obtain ⟨_,_,_,rest⟩ := Attempt.bind_eq_ok.mp rest
    obtain ⟨_,_,_,rest⟩ := Attempt.bind_eq_ok.mp rest
    cases rest
    rfl
/-- A block leaves the names that its statements do not bind as they were. -/
theorem Block.lookup?_lower {signatures : Table Nat} (b : Block) {env env' : Environment} {value : Value} {f f' : Frame}
    (run : b.lower signatures env f = (.ok (value,env'),f')) {name : Text} (other : name ∉ b.binders) :
    env'.lookup? name = env.lookup? name := by
  match b with
  | .result e =>
    obtain ⟨_,_,_,rest⟩ := Attempt.bind_eq_ok.mp run
    cases rest
    rfl
  | .step first rest =>
    obtain ⟨env₁,f₁,ranFirst,ranRest⟩ := Attempt.bind_eq_ok.mp run
    rw [Block.binders_step,List.mem_append,Option.mem_toList,not_or] at other
    obtain ⟨apart,later⟩ := other
    exact (rest.lookup?_lower ranRest later).trans (first.lookup?_lower ranFirst apart)

mutual

theorem Expr.mentions_of_reads (e : Expr) {name : Text} (read : name ∈ e.reads) : name ∈ e.mentions := by
  match e with
  | .literal n => cases read
  | .var _ => exact read
  | .binary left op right =>
    simp only [Expr.reads,Expr.mentions,List.mem_append] at read ⊢
    exact read.imp left.mentions_of_reads right.mentions_of_reads
  | .call callee args => exact args.mentions_of_reads read
  | .scope body => exact body.mentions_of_reads read
  | .loop cond body =>
    simp only [Expr.reads,Expr.mentions,List.mem_append] at read ⊢
    exact read.imp cond.mentions_of_reads body.mentions_of_reads

theorem Args.mentions_of_reads (args : Args) {name : Text} (read : name ∈ args.reads) : name ∈ args.mentions := by
  match args with
  | .nil => cases read
  | .cons first rest =>
    simp only [Args.reads,Args.mentions,List.mem_append] at read ⊢
    exact read.imp first.mentions_of_reads rest.mentions_of_reads

theorem Stmt.mentions_of_reads (s : Stmt) {name : Text} (read : name ∈ s.reads) : name ∈ s.mentions := by
  match s with
  | .discard value => exact value.mentions_of_reads read
  | .bindConst _ value => exact value.mentions_of_reads read
  | .bindMut _ value => exact value.mentions_of_reads read
  | .assign _ value => exact List.mem_cons_of_mem _ (value.mentions_of_reads read)

theorem Block.mentions_of_reads (b : Block) {name : Text} (read : name ∈ b.reads) : name ∈ b.mentions := by
  match b with
  | .result value => exact value.mentions_of_reads read
  | .step first rest =>
    simp only [Block.reads,Block.mentions,List.mem_append] at read ⊢
    exact read.imp first.mentions_of_reads rest.mentions_of_reads

end

/-! ### The parts of a loop -/

/-- How a loop was lowered: the condition before it, the merge points, the body and the condition once more. -/
structure LoopRun (signatures : Table Nat) (root : Text) (pending : List Text) (above : Text → List Text) (cond : Expr)
    (body : Block) (env : Environment) (f : Frame) where
  first : Value
  before : Frame
  aboveBefore : Text → List Text
  ranFirst : cond.lower signatures env f = (.ok first,before)
  soundBefore : before.Sound signatures root pending aboveBefore
  advanceBefore : Advance above aboveBefore f before
  knownFirst : before.Knows aboveBefore first ∧ first.type = .i32
  points : List MergePoint
  opened : Frame
  ranOpen : MergePoint.openFor cond.reads env (before.compared first).block ((before.compared first).branched before.comparison) =
    (.ok points,opened)
  aboveOpened : Text → List Text
  opens : MergePoint.Opens signatures root ((before.compared first).exit :: pending) aboveOpened aboveBefore
    (before.compared first) before.comparison (before.compared first).header (before.compared first).exit env
    (Text.sortDistinct cond.reads) points opened
  ignored : Value
  after : Environment
  ended : Frame
  aboveEnded : Text → List Text
  ranBody : body.lower signatures (MergePoint.bindAll env points) opened = (.ok (ignored,after),ended)
  soundEnded : ended.Sound signatures root ((before.compared first).exit :: pending) aboveEnded
  advanceEnded : Advance aboveOpened aboveEnded opened ended
  bindsEnded : ended.Binds aboveEnded after
  again : Value
  last : Frame
  aboveLast : Text → List Text
  ranAgain : cond.lower signatures after ended = (.ok again,last)
  soundLast : last.Sound signatures root ((before.compared first).exit :: pending) aboveLast
  advanceLast : Advance aboveEnded aboveLast ended last
  knownAgain : last.Knows aboveLast again ∧ again.type = .i32
  log : List Text

namespace LoopRun
variable {signatures : Table Nat} {root : Text} {pending : List Text} {above : Text → List Text} {cond : Expr}
variable {body : Block} {env : Environment} {f : Frame}

/-- The block before the loop, with the first test. -/
def preheader (loop : LoopRun signatures root pending above cond body env f) : Frame := loop.before.compared loop.first
/-- The block at the end of the loop, with the second test. -/
def latch (loop : LoopRun signatures root pending above cond body env f) : Frame := loop.last.compared loop.again
/-- The block after the loop. -/
def done (loop : LoopRun signatures root pending above cond body env f) : Frame :=
  loop.latch.looped loop.after loop.points loop.last.comparison loop.preheader.header loop.preheader.exit loop.log

/-- A loop that was lowered has these parts. -/
theorem of_lower {value : Value} {f' : Frame} (sound : f.Sound signatures root pending above) (binds : f.Binds above env)
    (run : (Expr.loop cond body).lower signatures env f = (.ok value,f')) :
    value = .ofInt 0 ∧ ∃ loop : LoopRun signatures root pending above cond body env f, f' = loop.done := by
  simp only [Expr.lower] at run
  obtain ⟨first,before,ranFirst,run⟩ := Attempt.bind_eq_ok.mp run
  obtain ⟨above₁,sound₁,advance₁,known₁,type₁⟩ := (cond.lower_sound signatures sound binds).ok ranFirst
  obtain ⟨_,_,compared,run⟩ := Attempt.bind_eq_ok.mp run
  cases (Build.isZero_run first before).symm.trans compared
  obtain ⟨sound₂,advance₂,known₂⟩ := sound₁.compared known₁ type₁
  have bindsBefore := (advance₁.trans advance₂).binds binds
  obtain ⟨above₃,sound₃,looping₃,code₃⟩ := sound₂.branched known₂ rfl
  have run := (Build.enter_run sound₂.ready _ _).symm.trans run
  obtain ⟨points,opened,ranOpen,run⟩ := Attempt.bind_eq_ok.mp run
  have opens := (MergePoint.openFor_opens sound₂.root_label bindsBefore cond.reads
    ⟨sound₃,looping₃,rfl,code₃,rfl,by simp,by simp⟩).ok ranOpen
  obtain ⟨⟨ignored,after⟩,ended,ranBody,run⟩ := Attempt.bind_eq_ok.mp run
  obtain ⟨above₅,sound₅,advance₅,binds₅,_,_⟩ :=
    (body.lower_sound signatures opens.sound (opens.binds bindsBefore)).ok ranBody
  obtain ⟨again,last,ranAgain,run⟩ := Attempt.bind_eq_ok.mp run
  obtain ⟨above₆,sound₆,advance₆,known₆,type₆⟩ := (cond.lower_sound signatures sound₅ binds₅).ok ranAgain
  obtain ⟨_,_,compared',run⟩ := Attempt.bind_eq_ok.mp run
  cases (Build.isZero_run again last).symm.trans compared'
  have missing : ∀ point ∈ points, point.latch = none := by
    intro point member
    obtain ⟨binding,stands⟩ := opens.bindings point member
    exact stands.latch
  obtain ⟨log,left⟩ := Build.leave_run (sound₆.compared known₆ type₆).1.ready after missing last.comparison
    (before.compared first).header (before.compared first).exit
  have done := left.symm.trans run
  cases done
  exact ⟨rfl,⟨first,before,above₁,ranFirst,sound₁,advance₁,⟨known₁,type₁⟩,points,opened,ranOpen,_,opens,ignored,after,ended,
    above₅,ranBody,sound₅,advance₅,binds₅,again,last,above₆,ranAgain,sound₆,advance₆,⟨known₆,type₆⟩,log⟩,rfl⟩

variable (loop : LoopRun signatures root pending above cond body env f)

theorem sound_preheader : loop.preheader.Sound signatures root pending loop.aboveBefore :=
  (loop.soundBefore.compared loop.knownFirst.1 loop.knownFirst.2).1
theorem compared_preheader : Advance loop.aboveBefore loop.aboveBefore loop.before loop.preheader :=
  (loop.soundBefore.compared loop.knownFirst.1 loop.knownFirst.2).2.1
theorem advance_preheader : Advance above loop.aboveBefore f loop.preheader := loop.advanceBefore.trans loop.compared_preheader
theorem sound_latch : loop.latch.Sound signatures root (loop.preheader.exit :: pending) loop.aboveLast :=
  (loop.soundLast.compared loop.knownAgain.1 loop.knownAgain.2).1
theorem compared_latch : Advance loop.aboveLast loop.aboveLast loop.last loop.latch :=
  (loop.soundLast.compared loop.knownAgain.1 loop.knownAgain.2).2.1
theorem looping : Frame.Looping loop.aboveBefore loop.aboveLast loop.preheader loop.latch loop.before.comparison
    loop.preheader.header loop.preheader.exit (loop.points.map (MergePoint.opening env)) :=
  ((loop.opens.looping.step loop.advanceEnded).step loop.advanceLast).step loop.compared_latch
theorem advance_done : Advance loop.aboveBefore loop.aboveLast loop.preheader loop.done :=
  loop.looping.advance_looped loop.sound_latch loop.log
theorem exit_done : loop.done.function.code? loop.preheader.exit = some [] := loop.looping.exit_looped loop.sound_latch loop.log
theorem names_nodup : (loop.points.map MergePoint.name).Nodup := by
  rw [loop.opens.names]
  exact (Text.sortDistinct_nodup cond.reads).filter _
theorem name_mem_mentions {point : MergePoint} (member : point ∈ loop.points) : point.name ∈ cond.mentions := by
  have listed : point.name ∈ loop.points.map MergePoint.name := List.mem_map_of_mem member
  rw [loop.opens.names] at listed
  exact cond.mentions_of_reads (Text.mem_sortDistinct_iff.mp (List.mem_filter.mp listed).1)
/-- A function that has the code of the loop has the code of its parts. -/
theorem carries {fn : Function} (carries : fn.Carries loop.done.function) :
    fn.Carries loop.preheader.function ∧ fn.Carries loop.opened.function ∧ fn.Carries loop.ended.function ∧
      fn.Carries loop.latch.function := by
  obtain ⟨instrs,code,_⟩ := loop.sound_latch.current
  have atLatch : fn.Carries loop.latch.function :=
    (carries.appended (Frame.appended_looped code loop.log) rfl).patched
      (MergePoint.patched_latchAll loop.after loop.latch.block loop.points loop.latch.function)
      (MergePoint.grows_latchInstr loop.after loop.latch.block loop.points)
  have atEnd := atLatch.advance (loop.advanceLast.trans loop.compared_latch)
  exact ⟨carries.advance loop.advance_done,atEnd.advance loop.advanceEnded,atEnd,atLatch⟩

/-- The names of the condition stand for the same at the end of the body as at its start. -/
theorem lookup?_after (free : ∀ name ∈ body.binders, name ∉ cond.mentions) {name : Text} (mentioned : name ∈ cond.mentions) :
    loop.after.lookup? name = (MergePoint.bindAll env loop.points).lookup? name :=
  body.lookup?_lower loop.ranBody (fun binder => free name binder mentioned)
theorem carried_eq (free : ∀ name ∈ body.binders, name ∉ cond.mentions) {point : MergePoint} (member : point ∈ loop.points) :
    point.carried loop.after = point.value := by
  refine MergePoint.carried_eq_value ((loop.lookup?_after free (loop.name_mem_mentions member)).trans ?_)
  exact MergePoint.lookup?_bindAll_of_mem env loop.names_nodup member

/-! ### The states of the machine in a loop -/

section
variable (fn : Function) (pairs : List (Nat × Nat)) (names : Names) (s : Machine)

/-- The machine, which was in a given state, is at the branch before the loop. -/
structure Before (w : Word) (memory' : Memory) (s' : Machine) : Prop where
  placed : Placed fn loop.preheader pairs memory' s'
  keeps : Keeps f s s'
  bit : s'.Holds loop.before.comparison (.bit (w = 0))
/-- The machine is at the header. -/
structure Inside (memory' : Memory) (s' : Machine) : Prop where
  follows : Follows fn loop.opened pairs (cond.mentions ++ body.mentions) (MergePoint.bindAll env loop.points) names memory' s'
  keeps : Keeps f s s'
/-- The machine is at the branch at the end of the loop. -/
structure Tested (w : Word) (memory' : Memory) (s' : Machine) : Prop where
  placed : Placed fn loop.latch pairs memory' s'
  keeps : Keeps f s s'
  bit : s'.Holds loop.last.comparison (.bit (w = 0))
  agrees : s'.Agrees pairs (cond.mentions ++ body.mentions) (MergePoint.bindAll env loop.points) names
/-- The machine is after the loop. -/
structure After (memory' : Memory) (s' : Machine) : Prop where
  placed : Placed fn loop.done pairs memory' s'
  keeps : Keeps f s s'

end

section
variable {module : Module} {fn : Function} {world : World} {bound : Nat} {pairs : List (Nat × Nat)} {names : Names}
variable {memory memory' : Memory} {s s' : Machine} {w : Word} {test round : Evaluation Word} {loop}

theorem Before.skips (before : loop.Before fn pairs s 0 memory' s') (carries : fn.Carries loop.done.function) :
    ∃ s'', Machine.Reaches module fn world s' s'' ∧ loop.After fn pairs s memory' s'' := by
  have branch := branch_at loop.opens.looping (loop.carries carries).2.1 before.placed
  obtain ⟨s'',reaches,placed,registers⟩ :=
    exit_reaches before.placed branch before.bit carries loop.exit_done rfl loop.advance_done.entry
  exact ⟨s'',reaches,placed,before.keeps.congr registers⟩
theorem Before.enters (before : loop.Before fn pairs s w memory' s') (nonzero : w ≠ 0) (named : fn.Named)
    (sound : f.Sound signatures root pending above) (binds : f.Binds above env) (carries : fn.Carries loop.done.function)
    (follows : Follows fn f pairs (cond.mentions ++ body.mentions) env names memory s) :
    ∃ s'', s'.step module fn world = some (.next s'') ∧ loop.Inside fn pairs names s memory' s'' := by
  have bit := before.bit
  rw [decide_eq_false nonzero] at bit
  have toLoop := loop.advance_preheader
  obtain ⟨s'',turn,follows',keeps⟩ := enter_step named loop.sound_preheader (toLoop.binds binds) loop.opens loop.names_nodup
    (fun point member => List.mem_append_left _ (loop.name_mem_mentions member)) (loop.carries carries).2.1
    (follows.advance sound binds toLoop before.placed before.keeps) bit
  exact ⟨s'',turn,follows',before.keeps.trans toLoop keeps⟩
/-- One round: the body, and the condition in the environment that it leaves. -/
theorem Inside.goes (inside : loop.Inside fn pairs names s memory' s') (free : ∀ name ∈ body.binders, name ∉ cond.mentions)
    (named : fn.Named) (binds : f.Binds above env) (carries : fn.Carries loop.done.function)
    (through : ∀ memory s, Follows fn loop.opened pairs body.mentions (MergePoint.bindAll env loop.points) names memory s →
      Simulates module fn world bound s (round memory) (Yields fn loop.opened loop.ended pairs s loop.ignored))
    (again : ∀ memory s, Follows fn loop.ended pairs cond.mentions loop.after names memory s →
      Simulates module fn world bound s (test memory) (Yields fn loop.ended loop.last pairs s loop.again)) :
    Simulates module fn world bound s' ((round >>= fun _ => test) memory') (loop.Tested fn pairs names s) := by
  have bindsOpened := loop.opens.binds (loop.advance_preheader.binds binds)
  refine .bind (through memory' s' (inside.follows.mono (fun _ => List.mem_append_right _))) (fun _ memory₁ s₁ yields₁ => ?_)
  have agrees₁ := inside.follows.agrees.keep loop.opens.sound bindsOpened yields₁.keeps
  have follows₁ : Follows fn loop.ended pairs cond.mentions loop.after names memory₁ s₁ := by
    refine ⟨yields₁.placed,inside.follows.pairing.advance loop.advanceEnded,fun name mentioned binding found => ?_⟩
    rw [loop.lookup?_after free mentioned] at found
    exact agrees₁ name (List.mem_append_left _ mentioned) binding found
  refine (again memory₁ s₁ follows₁).further (fun w memory₂ s₂ yields₂ => ?_)
  obtain ⟨s₃,reaches,placed,keeps,bit⟩ :=
    compared_reaches loop.soundLast named yields₂.placed yields₂.holds (loop.carries carries).2.2.2
  have keepsRound : Keeps loop.opened s' s₃ :=
    (yields₁.keeps.trans loop.advanceEnded yields₂.keeps).trans (loop.advanceEnded.trans loop.advanceLast) keeps
  exact ⟨s₃,reaches,placed,inside.keeps.trans (loop.advance_preheader.trans loop.opens.looping.advance) keepsRound,bit,
    inside.follows.agrees.keep loop.opens.sound bindsOpened keepsRound⟩
theorem Tested.leaves (tested : loop.Tested fn pairs names s 0 memory' s') (carries : fn.Carries loop.done.function) :
    ∃ s'', Machine.Reaches module fn world s' s'' ∧ loop.After fn pairs s memory' s'' := by
  obtain ⟨s'',reaches,placed,registers⟩ :=
    exit_reaches tested.placed (latch_at loop.sound_latch tested.placed carries) tested.bit carries loop.exit_done rfl rfl
  exact ⟨s'',reaches,placed,tested.keeps.congr registers⟩
/-- The next round starts with the names as they were. -/
theorem Tested.returns (tested : loop.Tested fn pairs names s w memory' s') (nonzero : w ≠ 0)
    (free : ∀ name ∈ body.binders, name ∉ cond.mentions) (named : fn.Named) (carries : fn.Carries loop.done.function)
    (pairing : Pairing f pairs) :
    ∃ s'', s'.step module fn world = some (.next s'') ∧ loop.Inside fn pairs names s memory' s'' := by
  have bit := tested.bit
  rw [decide_eq_false nonzero] at bit
  obtain ⟨s'',turn,placed,registers⟩ := again_step named loop.sound_latch loop.looping loop.opens loop.names_nodup
    (fun point member => List.mem_append_left _ (loop.name_mem_mentions member)) (fun point member => loop.carried_eq free member)
    carries (loop.carries carries).2.1 tested.placed tested.agrees bit
  have pairing' := pairing.advance (loop.advance_preheader.trans loop.opens.looping.advance)
  exact ⟨s'',turn,⟨placed,pairing',tested.agrees.congr registers (fun _ paired => paired)⟩,tested.keeps.congr registers⟩

end

/-- The machine follows a loop if it follows its condition before the loop and in it, and its body. -/
theorem simulates {module : Module} {fn : Function} {world : World} {bound : Nat} {pairs : List (Nat × Nat)} {names : Names}
    {memory : Memory} {s : Machine} {test round : Evaluation Word} (free : ∀ name ∈ body.binders, name ∉ cond.mentions)
    (named : fn.Named) (sound : f.Sound signatures root pending above) (binds : f.Binds above env)
    (carries : fn.Carries loop.done.function)
    (follows : Follows fn f pairs (cond.mentions ++ body.mentions) env names memory s)
    (first : Simulates module fn world bound s (test memory) (Yields fn f loop.before pairs s loop.first))
    (through : ∀ memory s, Follows fn loop.opened pairs body.mentions (MergePoint.bindAll env loop.points) names memory s →
      Simulates module fn world bound s (round memory) (Yields fn loop.opened loop.ended pairs s loop.ignored))
    (again : ∀ memory s, Follows fn loop.ended pairs cond.mentions loop.after names memory s →
      Simulates module fn world bound s (test memory) (Yields fn loop.ended loop.last pairs s loop.again)) :
    Simulates module fn world bound s (Evaluation.iterate test round bound memory) (fun _ => loop.After fn pairs s) := by
  have started : Simulates module fn world bound s (test memory) (loop.Before fn pairs s) := by
    refine first.further (fun w memory₁ s₁ yields => ?_)
    obtain ⟨s₂,reaches,placed,keeps,bit⟩ :=
      compared_reaches loop.soundBefore named yields.placed yields.holds (loop.carries carries).1
    exact ⟨s₂,reaches,placed,yields.keeps.trans loop.advanceBefore keeps,bit⟩
  have rounds : ∀ memory' s', loop.Inside fn pairs names s memory' s' →
      Simulates module fn world bound s' ((round >>= fun _ => test) memory') (loop.Tested fn pairs names s) :=
    fun memory' s' inside => inside.goes free named binds carries through again
  refine .iterate started ?_ ?_ rounds ?_ ?_
  · exact fun memory' s' before => before.skips carries
  · exact fun w memory' s' nonzero before => before.enters nonzero named sound binds carries follows
  · exact fun memory' s' tested => tested.leaves carries
  · exact fun w memory' s' nonzero tested => tested.returns nonzero free named carries follows.pairing

end LoopRun

end Lev
