import Lev.Proofs.Merging

/-!
What holds at every moment of lowering. The frame is in order and knows what the environment binds; the log plays no
part. If lowering succeeds, so does lowering at every moment on its way. Main statement: in a build that succeeds, the
cells of every moment are cells of the module, and the merge points of every loop that is met are among those of the
module, where they have their two edges.
-/
namespace Lev
open Lev.Frame (Advance)
open Relation (ReflTransGen)

/-! ### Frames in order -/

/-- The frame of the moment is in order and knows what its environment binds. -/
def Moment.Sound (signatures : Table Nat) (moment : Moment) : Prop :=
  ∃ root pending above, moment.frame.Sound signatures root pending above ∧ moment.frame.Binds above moment.env

section
variable {signatures : Table Nat} {root : Text} {pending : List Text} {above : Text → List Text} {cond : Expr} {env : Environment}
variable {f before opened : Frame} {first : Value} {points : List MergePoint} {moment moment' : Moment}

/-- The body of a loop starts in a frame that is in order. -/
theorem Frame.Sound.opens (sound : f.Sound signatures root pending above) (binds : f.Binds above env)
    (ran : cond.lower signatures env f = (.ok first,before))
    (ranOpen : MergePoint.openFor cond.reads env (before.compared first).block ((before.compared first).branched before.comparison) =
      (.ok points,opened)) :
    ∃ above₁ above₂, Advance above above₁ f (before.compared first) ∧
      MergePoint.Opens signatures root ((before.compared first).exit :: pending) above₂ above₁ (before.compared first) before.comparison
        (before.compared first).header (before.compared first).exit env (Text.sortDistinct cond.reads) points opened ∧
      opened.Binds above₂ (MergePoint.bindAll env points) := by
  obtain ⟨above₁,sound₁,advance₁,known₁,type₁⟩ := (cond.lower_sound signatures sound binds).ok ran
  obtain ⟨sound₂,advance₂,known₂⟩ := sound₁.compared known₁ type₁
  have bindsBefore := (advance₁.trans advance₂).binds binds
  obtain ⟨above₃,sound₃,looping₃,code₃⟩ := sound₂.branched known₂ rfl
  have opens := (MergePoint.openFor_opens sound₂.root_label bindsBefore cond.reads
    ⟨sound₃,looping₃,rfl,code₃,rfl,by simp,by simp⟩).ok ranOpen
  exact ⟨above₁,above₃,advance₁.trans advance₂,opens,opens.binds bindsBefore⟩
theorem Moment.Leads.sound (leads : moment.Leads signatures moment') (sound : moment.Sound signatures) : moment'.Sound signatures := by
  obtain ⟨root,pending,above,sound,binds⟩ := sound
  cases leads with
  | left | args _ | firstArg | scope | cond | discard | bindConst | assign _ | result | first => exact ⟨root,pending,above,sound,binds⟩
  | right ran =>
    obtain ⟨above₁,sound₁,advance₁,_⟩ := (Expr.lower_sound signatures _ sound binds).ok ran
    exact ⟨root,pending,above₁,sound₁,advance₁.binds binds⟩
  | laterArgs ran =>
    obtain ⟨above₁,sound₁,advance₁,_⟩ := (Expr.lower_sound signatures _ sound binds).ok ran
    exact ⟨root,pending,above₁,sound₁,advance₁.binds binds⟩
  | body ran ranOpen =>
    obtain ⟨_,_,_,opens,binds'⟩ := sound.opens binds ran ranOpen
    exact ⟨root,_,_,opens.sound,binds'⟩
  | again ran ranOpen ranBody =>
    obtain ⟨_,_,_,opens,binds'⟩ := sound.opens binds ran ranOpen
    obtain ⟨above₅,sound₅,_,binds₅,_⟩ := (Block.lower_sound signatures _ opens.sound binds').ok ranBody
    exact ⟨root,_,above₅,sound₅,binds₅⟩
  | bindMut _ =>
    obtain ⟨sound₁,advance₁,_⟩ := sound.allocated _
    exact ⟨root,pending,above,sound₁,advance₁.binds binds⟩
  | rest ran =>
    obtain ⟨above₁,sound₁,_,binds₁⟩ := (Stmt.lower_sound signatures _ sound binds).ok ran
    exact ⟨root,pending,above₁,sound₁,binds₁⟩
/-- What a moment comes to has only been added to its frame. -/
theorem Moment.Leads.advance (leads : moment.Leads signatures moment') (sound : moment.Sound signatures) :
    ∃ above above', Advance above above' moment.frame moment'.frame := by
  obtain ⟨root,pending,above,sound,binds⟩ := sound
  cases leads with
  | left | args _ | firstArg | scope | cond | discard | bindConst | assign _ | result | first => exact ⟨above,above,.refl above _⟩
  | right ran | laterArgs ran =>
    obtain ⟨above₁,_,advance₁,_⟩ := (Expr.lower_sound signatures _ sound binds).ok ran
    exact ⟨above,above₁,advance₁⟩
  | body ran ranOpen =>
    obtain ⟨_,_,advance,opens,_⟩ := sound.opens binds ran ranOpen
    exact ⟨_,_,advance.trans opens.looping.advance⟩
  | again ran ranOpen ranBody =>
    obtain ⟨_,_,advance,opens,binds'⟩ := sound.opens binds ran ranOpen
    obtain ⟨_,_,advance₅,_⟩ := (Block.lower_sound signatures _ opens.sound binds').ok ranBody
    exact ⟨_,_,(advance.trans opens.looping.advance).trans advance₅⟩
  | bindMut _ =>
    obtain ⟨_,advance₁,_⟩ := sound.allocated _
    exact ⟨_,_,advance₁⟩
  | rest ran =>
    obtain ⟨above₁,_,advance₁,_⟩ := (Stmt.lower_sound signatures _ sound binds).ok ran
    exact ⟨above,above₁,advance₁⟩
theorem Moment.Sound.along (sound : moment.Sound signatures) (way : ReflTransGen (Moment.Leads signatures) moment moment') :
    moment'.Sound signatures := by
  induction way with
  | refl => exact sound
  | tail _ leads ih => exact leads.sound ih
theorem Moment.Sound.labels_along (sound : moment.Sound signatures) (way : ReflTransGen (Moment.Leads signatures) moment moment') :
    moment.frame.function.labels <+: moment'.frame.function.labels := by
  induction way with
  | refl => exact List.prefix_refl _
  | tail earlier leads ih =>
    obtain ⟨_,_,advance⟩ := leads.advance (sound.along earlier)
    exact ih.trans advance.blocks
/-- The moment with which filling the entry function starts. -/
def Program.start (program : Program) (options : Options) (log : List Text) : Moment :=
  ⟨program.task,.empty,.initial (.declare options.entryName 0) [] log⟩
theorem Program.start_sound (program : Program) (options : Options) (log : List Text) : (program.start options log).Sound signatures := by
  obtain ⟨sound,_⟩ := Frame.initial_sound (Function.declare_blocks options.entryName 0) signatures [] log rfl
  exact ⟨_,_,_,sound,Frame.binds_empty _ _⟩
theorem Program.Passes.lead {program : Program} {options : Options} (passes : program.Passes options signatures moment)
    (leads : moment.Leads signatures moment') : program.Passes options signatures moment' := by
  obtain ⟨log,way⟩ := passes
  exact ⟨log,way.tail leads⟩
/-- Every moment of a build is in order, whatever becomes of the build. -/
theorem Program.Passes.sound {program : Program} {options : Options} (passes : program.Passes options signatures moment) :
    moment.Sound signatures := by
  obtain ⟨log,way⟩ := passes
  exact (program.start_sound options log).along way

end

theorem Moment.Enters.leads {signatures : Table Nat} {points : List MergePoint} {loop inside : Moment}
    (enters : Moment.Enters signatures points loop inside) : loop.Leads signatures inside := by
  cases enters with
  | body ran ranOpen => exact .body ran ranOpen
  | again ran ranOpen ranBody => exact .again ran ranOpen ranBody
theorem Moment.Enters.opened {signatures : Table Nat} {points : List MergePoint} {loop inside : Moment}
    (enters : Moment.Enters signatures points loop inside) :
    ∃ cond body env f first before opened, loop = ⟨.expr (.loop cond body),env,f⟩ ∧ cond.lower signatures env f = (.ok first,before) ∧
      MergePoint.openFor cond.reads env (before.compared first).block ((before.compared first).branched before.comparison) =
        (.ok points,opened) := by
  cases enters with
  | body ran ranOpen => exact ⟨_,_,_,_,_,_,_,rfl,ran,ranOpen⟩
  | again ran ranOpen _ => exact ⟨_,_,_,_,_,_,_,rfl,ran,ranOpen⟩

/-- The merge point is one of a loop that was met between the first moment and the second, and the second is inside of it. -/
def Moment.Around (signatures : Table Nat) (start moment : Moment) (point : MergePoint) : Prop :=
  ∃ loop inside points, ReflTransGen (Moment.Leads signatures) start loop ∧ Moment.Enters signatures points loop inside ∧
    ReflTransGen (Moment.Leads signatures) inside moment ∧ point ∈ points
/-- The merge point is one of a loop that the moment of building a program is inside of. -/
def Program.Around (program : Program) (options : Options) (signatures : Table Nat) (moment : Moment) (point : MergePoint) : Prop :=
  ∃ log, Moment.Around signatures (program.start options log) moment point

theorem Moment.Around.lead {signatures : Table Nat} {start moment moment' : Moment} {point : MergePoint}
    (around : Moment.Around signatures start moment point) (leads : moment.Leads signatures moment') :
    Moment.Around signatures start moment' point := by
  obtain ⟨loop,inside,points,met,enters,way,member⟩ := around
  exact ⟨loop,inside,points,met,enters,way.tail leads,member⟩

/-! ### The log -/

namespace Build
variable {α β : Type}

/-- The step does the same whatever the log is. -/
def Silent (step : Build α) : Prop :=
  ∀ (f : Frame) (log : List Text), ∃ log', step { f with log } = ((step f).1,{ (step f).2 with log := log' })

namespace Silent
variable {step : Build α} {next : α → Build β}

/-- A step that leaves the log as it is. -/
theorem quiet (same : ∀ f log, step { f with log } = ((step f).1,{ (step f).2 with log })) : Silent step :=
  fun f log => ⟨log,same f log⟩
theorem pure (a : α) : Silent (Pure.pure a : Build α) := quiet fun _ _ => rfl
theorem bind (first : Silent step) (rest : ∀ a, Silent (next a)) : Silent (step >>= next) := by
  intro f log
  obtain ⟨log₁,ran⟩ := first f log
  rcases run : step f with ⟨fault | a,after⟩
  · rw [run] at ran
    exact ⟨log₁,by rw [Attempt.bind_run_error ran,Attempt.bind_run_error run]⟩
  · rw [run] at ran
    obtain ⟨log₂,later⟩ := rest a after log₁
    exact ⟨log₂,by rw [Attempt.bind_run_ok ran,Attempt.bind_run_ok run]; exact later⟩
theorem note (line : Text) : Silent (Build.note line) := fun _ log => ⟨log ++ [line],rfl⟩
theorem terminate (instr : Instr) : Silent (Build.terminate instr) := by
  refine bind (quiet fun _ _ => rfl) fun _ => bind (quiet fun _ _ => rfl) fun ended => ?_
  cases ended with
  | false => exact quiet fun _ _ => rfl
  | true => exact quiet fun _ _ => rfl
theorem identifier (name : Text) : Silent (Build.identifier name) := by
  unfold Build.identifier
  split
  · exact quiet fun _ _ => rfl
  · exact pure name
theorem readVariable (env : Environment) (name : Text) : Silent (Build.readVariable env name) := by
  refine bind (quiet fun _ _ => rfl) fun binding => ?_
  split
  · exact quiet fun _ _ => rfl
  · exact pure binding.value
theorem arith (op : Operator) (left right : Value) : Silent (Build.arith op left right) := by
  unfold Build.arith
  split
  · exact pure _
  · exact quiet fun _ _ => rfl
theorem openAll (env : Environment) (preheader : Text) (names : List Text) : Silent (MergePoint.openAll env preheader names) := by
  induction names with
  | nil => exact pure []
  | cons name rest ih =>
    unfold MergePoint.openAll
    split
    · exact ih
    · refine (identifier name).bind fun base => bind (quiet fun _ _ => rfl) fun phi => bind (quiet fun _ _ => rfl) fun _ => ?_
      exact ih.bind fun points => pure _
theorem openFor (reads : List Text) (env : Environment) (preheader : Text) : Silent (MergePoint.openFor reads env preheader) := by
  refine (openAll env preheader _).bind fun points => ?_
  split
  · exact pure points
  · exact bind (quiet fun _ _ => rfl) fun block => (note _).bind fun _ => pure points
theorem closeAll (env : Environment) (latch : Text) (points : List MergePoint) : Silent (MergePoint.closeAll env latch points) := by
  induction points with
  | nil => exact pure []
  | cons point rest ih =>
    refine bind (quiet fun _ _ => rfl) fun fn => bind (quiet fun _ _ => rfl) fun closed => bind (quiet fun _ _ => rfl) fun _ => ?_
    exact (note _).bind fun _ => ih.bind fun points => pure _

end Silent

end Build

open Build (Silent)

mutual

theorem Expr.lower_silent (signatures : Table Nat) (e : Expr) (env : Environment) : Silent (e.lower signatures env) := by
  match e with
  | .literal n => exact .pure _
  | .var name => exact .readVariable env name
  | .binary left op right =>
    exact (left.lower_silent signatures env).bind fun a => (right.lower_silent signatures env).bind fun b => .arith op a b
  | .call callee args =>
    refine .bind (.quiet fun _ _ => rfl) fun _ => (args.lower_silent signatures env).bind fun values => ?_
    exact (Silent.identifier callee).bind fun name => .quiet fun _ _ => rfl
  | .scope body => exact (body.lower_silent signatures env).bind fun result => .pure result.1
  | .loop cond body =>
    refine (cond.lower_silent signatures env).bind fun first => .bind (.quiet fun _ _ => rfl) fun skip => ?_
    refine .bind (.quiet fun _ _ => rfl) fun header => .bind (.quiet fun _ _ => rfl) fun exit => ?_
    refine .bind (.quiet fun _ _ => rfl) fun preheader => (Silent.terminate _).bind fun _ => .bind (.quiet fun _ _ => rfl) fun _ => ?_
    refine (Silent.openFor cond.reads env preheader).bind fun points => (body.lower_silent signatures _).bind fun result => ?_
    refine (cond.lower_silent signatures result.2).bind fun again => .bind (.quiet fun _ _ => rfl) fun leave => ?_
    refine .bind (.quiet fun _ _ => rfl) fun latch => (Silent.closeAll result.2 latch points).bind fun closed => ?_
    refine (Silent.terminate _).bind fun _ => .bind (.quiet fun _ _ => rfl) fun _ => .bind (.quiet fun _ _ => rfl) fun _ => ?_
    exact .pure _

theorem Args.lower_silent (signatures : Table Nat) (args : Args) (env : Environment) : Silent (args.lower signatures env) := by
  match args with
  | .nil => exact .pure []
  | .cons first rest =>
    exact (first.lower_silent signatures env).bind fun value => (rest.lower_silent signatures env).bind fun values => .pure _

theorem Stmt.lower_silent (signatures : Table Nat) (s : Stmt) (env : Environment) : Silent (s.lower signatures env) := by
  match s with
  | .discard value => exact (value.lower_silent signatures env).bind fun _ => .pure env
  | .bindConst name value =>
    refine (value.lower_silent signatures env).bind fun bound => ?_
    cases bound with
    | const n => exact .pure _
    | reg result type => exact .quiet fun _ _ => rfl
  | .bindMut name value =>
    refine (Silent.identifier name).bind fun base => .bind (.quiet fun _ _ => rfl) fun cell => ?_
    exact (value.lower_silent signatures env).bind fun bound => .bind (.quiet fun _ _ => rfl) fun _ => .pure _
  | .assign name value =>
    refine .bind (.quiet fun _ _ => rfl) fun address => (value.lower_silent signatures env).bind fun stored => ?_
    exact .bind (.quiet fun _ _ => rfl) fun _ => .pure env

theorem Block.lower_silent (signatures : Table Nat) (b : Block) (env : Environment) : Silent (b.lower signatures env) := by
  match b with
  | .result value => exact (value.lower_silent signatures env).bind fun result => .pure _
  | .step first rest => exact (first.lower_silent signatures env).bind fun after => rest.lower_silent signatures after

end

/-- The moment with another log. -/
def Moment.logged (moment : Moment) (log : List Text) : Moment := { moment with frame := { moment.frame with log } }

section
variable {signatures : Table Nat} {moment moment' loop inside : Moment} {points : List MergePoint}

theorem Build.Silent.ok {α : Type} {step : Build α} (silent : Silent step) {f f' : Frame} {a : α} (run : step f = (.ok a,f'))
    (log : List Text) : ∃ log', step { f with log } = (.ok a,{ f' with log := log' }) := by
  obtain ⟨log',same⟩ := silent f log
  exact ⟨log',by rw [same,run]⟩
/-- The branch before a loop does not look at the log. -/
theorem Frame.branched_logged (f : Frame) (value : Value) (log : List Text) :
    ({ f with log }.compared value).branched { f with log }.comparison = { (f.compared value).branched f.comparison with log } := rfl
theorem MergePoint.openFor_logged {reads : List Text} {env : Environment} {f opened : Frame} {value : Value}
    (run : openFor reads env (f.compared value).block ((f.compared value).branched f.comparison) = (.ok points,opened)) (log : List Text) :
    ∃ log', openFor reads env ({ f with log }.compared value).block
      (({ f with log }.compared value).branched { f with log }.comparison) = (.ok points,{ opened with log := log' }) := by
  rw [Frame.branched_logged]
  exact (Silent.openFor reads env _).ok run log
theorem Moment.Enters.logged (enters : Moment.Enters signatures points loop inside) (log : List Text) :
    ∃ log', Moment.Enters signatures points (loop.logged log) (inside.logged log') := by
  cases enters with
  | body ran ranOpen =>
    obtain ⟨_,ran'⟩ := (Expr.lower_silent signatures _ _).ok ran log
    obtain ⟨_,ranOpen'⟩ := MergePoint.openFor_logged ranOpen _
    exact ⟨_,.body ran' ranOpen'⟩
  | again ran ranOpen ranBody =>
    obtain ⟨_,ran'⟩ := (Expr.lower_silent signatures _ _).ok ran log
    obtain ⟨_,ranOpen'⟩ := MergePoint.openFor_logged ranOpen _
    obtain ⟨_,ranBody'⟩ := (Block.lower_silent signatures _ _).ok ranBody _
    exact ⟨_,.again ran' ranOpen' ranBody'⟩
theorem Moment.Leads.logged (leads : moment.Leads signatures moment') (log : List Text) :
    ∃ log', (moment.logged log).Leads signatures (moment'.logged log') := by
  cases leads with
  | left => exact ⟨log,.left⟩
  | right ran =>
    obtain ⟨_,ran'⟩ := (Expr.lower_silent signatures _ _).ok ran log
    exact ⟨_,.right ran'⟩
  | args fits => exact ⟨log,.args fits⟩
  | firstArg => exact ⟨log,.firstArg⟩
  | laterArgs ran =>
    obtain ⟨_,ran'⟩ := (Expr.lower_silent signatures _ _).ok ran log
    exact ⟨_,.laterArgs ran'⟩
  | scope => exact ⟨log,.scope⟩
  | cond => exact ⟨log,.cond⟩
  | body ran ranOpen =>
    obtain ⟨log',enters⟩ := (Moment.Enters.body ran ranOpen).logged log
    exact ⟨log',enters.leads⟩
  | again ran ranOpen ranBody =>
    obtain ⟨log',enters⟩ := (Moment.Enters.again ran ranOpen ranBody).logged log
    exact ⟨log',enters.leads⟩
  | discard => exact ⟨log,.discard⟩
  | bindConst => exact ⟨log,.bindConst⟩
  | bindMut carried => exact ⟨log,.bindMut carried⟩
  | assign found => exact ⟨log,.assign found⟩
  | result => exact ⟨log,.result⟩
  | first => exact ⟨log,.first⟩
  | rest ran =>
    obtain ⟨_,ran'⟩ := (Stmt.lower_silent signatures _ _).ok ran log
    exact ⟨_,.rest ran'⟩
theorem Moment.Sound.logged (sound : moment.Sound signatures) (log : List Text) : (moment.logged log).Sound signatures := by
  obtain ⟨root,pending,above,sound,binds⟩ := sound
  exact ⟨root,pending,above,sound.congr rfl rfl rfl,binds⟩
theorem Moment.leads_logged (way : ReflTransGen (Moment.Leads signatures) moment moment') (log : List Text) :
    ∃ log', ReflTransGen (Moment.Leads signatures) (moment.logged log) (moment'.logged log') := by
  induction way with
  | refl => exact ⟨log,.refl⟩
  | tail _ leads ih =>
    obtain ⟨log₁,way'⟩ := ih
    obtain ⟨log₂,leads'⟩ := leads.logged log₁
    exact ⟨log₂,way'.tail leads'⟩

end

/-! ### Moments come to an end -/

/-- Lowering at the moment succeeds in the given frame. -/
def Moment.Ends (signatures : Table Nat) (moment : Moment) (f : Frame) : Prop :=
  match moment.task with
  | .expr e => ∃ value, e.lower signatures moment.env moment.frame = (.ok value,f)
  | .args args => ∃ values, args.lower signatures moment.env moment.frame = (.ok values,f)
  | .stmt s => ∃ env, s.lower signatures moment.env moment.frame = (.ok env,f)
  | .block b => ∃ result, b.lower signatures moment.env moment.frame = (.ok result,f)

/-- The second frame has the merge points and the cells of the first, and its loops, if they were begun after the third. -/
structure Frame.Precedes (f f' start : Frame) : Prop where
  points : f.points <+: f'.points
  cells : f.arena.cells <+: f'.arena.cells
  settled : ∀ merge : Merge, merge.Settled f.function → merge.header ∉ start.function.labels → merge.Settled f'.function

namespace Frame
variable {above above' : Text → List Text} {f f' f'' start start' : Frame}

theorem Precedes.refl (f start : Frame) : f.Precedes f start := ⟨List.prefix_refl _,List.prefix_refl _,fun _ settled _ => settled⟩
theorem Precedes.trans (first : f.Precedes f' start) (second : f'.Precedes f'' start')
    (later : start'.function.labels <+: start.function.labels) : f.Precedes f'' start where
  points := first.points.trans second.points
  cells := first.cells.trans second.cells
  settled merge settled begun := second.settled merge (first.settled merge settled begun) fun old => begun (later.subset old)
theorem Advance.precedes (advance : Advance above above' f f') (start : Frame) : f.Precedes f' start :=
  ⟨advance.points,advance.cells,fun _ settled _ => settled.advance advance⟩

end Frame

section
variable {signatures : Table Nat} {root : Text} {pending : List Text} {above : Text → List Text} {env : Environment} {f f' : Frame}
variable {moment moment' : Moment}

theorem Frame.Sound.precedes_emitted (sound : f.Sound signatures root pending above) (base : Text) {instr : Instr}
    (plain : instr.isPhi = false) (straight : instr.targets = []) (start : Frame) : f.Precedes (f.emitted base instr) start := by
  obtain ⟨instrs,code,_⟩ := sound.current
  refine ⟨List.prefix_refl _,List.prefix_refl _,fun merge settled _ => ?_⟩
  exact settled.appended (f.appended_emitted base code instr) plain (by simp [straight])
theorem Frame.Sound.precedes_arith (sound : f.Sound signatures root pending above) {op : Operator} {left right value : Value}
    (run : Build.arith op left right f = (.ok value,f')) (start : Frame) : f.Precedes f' start := by
  unfold Build.arith at run
  cases folded : op.folded? left right with
  | some n =>
    rw [folded] at run
    cases run
    exact .refl f start
  | none =>
    rw [folded] at run
    cases (Build.emitNamed_run ..).symm.trans run
    exact sound.precedes_emitted _ rfl rfl start
theorem LoopRun.precedes_done {cond : Expr} {body : Block} (loop : LoopRun signatures root pending above cond body env f) :
    loop.before.Precedes loop.done f ∧ loop.ended.Precedes loop.done loop.opened ∧ loop.last.Precedes loop.done loop.ended := by
  have labels : loop.opened.function.labels <+: loop.ended.function.labels := loop.advanceEnded.blocks
  have last : loop.last.Precedes loop.done loop.opened := by
    refine ⟨List.prefix_append _ _,List.prefix_refl _,fun merge settled begun => ?_⟩
    exact loop.settled_inner (settled.advance loop.compared_latch) begun
  exact ⟨(loop.compared_preheader.trans loop.advance_done).precedes f,
    (loop.advanceLast.precedes loop.opened).trans last (List.prefix_refl _),(Frame.Precedes.refl _ _).trans last labels⟩
/-- Where lowering succeeds, it succeeds at the moments that it comes to. -/
theorem Moment.Leads.ends (leads : moment.Leads signatures moment') (sound : moment.Sound signatures) (ends : moment.Ends signatures f) :
    ∃ f', moment'.Ends signatures f' ∧ f'.Precedes f moment'.frame := by
  obtain ⟨root,pending,above,sound,binds⟩ := sound
  cases leads with
  | @left left right op env g =>
    obtain ⟨_,run⟩ := ends
    simp only [Expr.lower] at run
    obtain ⟨a,f₁,ranLeft,run⟩ := Attempt.bind_eq_ok.mp run
    obtain ⟨b,f₂,ranRight,run⟩ := Attempt.bind_eq_ok.mp run
    obtain ⟨above₁,sound₁,advance₁,_⟩ := (left.lower_sound signatures sound binds).ok ranLeft
    obtain ⟨_,sound₂,advance₂,_⟩ := (right.lower_sound signatures sound₁ (advance₁.binds binds)).ok ranRight
    exact ⟨f₁,⟨a,ranLeft⟩,(advance₂.precedes g).trans (sound₂.precedes_arith run g) (List.prefix_refl _)⟩
  | right ran =>
    obtain ⟨_,run⟩ := ends
    simp only [Expr.lower] at run
    obtain ⟨b,f₂,ranRight,run⟩ := Attempt.bind_eq_ok.mp ((Attempt.bind_run_ok ran).symm.trans run)
    obtain ⟨above₁,sound₁,advance₁,_⟩ := (Expr.lower_sound signatures _ sound binds).ok ran
    obtain ⟨_,sound₂,_⟩ := (Expr.lower_sound signatures _ sound₁ (advance₁.binds binds)).ok ranRight
    exact ⟨f₂,⟨b,ranRight⟩,sound₂.precedes_arith run _⟩
  | args fits =>
    obtain ⟨_,run⟩ := ends
    simp only [Expr.lower] at run
    obtain ⟨_,_,ranCheck,later⟩ := Attempt.bind_eq_ok.mp run
    obtain ⟨_,rfl⟩ := Prod.mk.inj ranCheck
    obtain ⟨values,f₁,ranArgs,later⟩ := Attempt.bind_eq_ok.mp later
    obtain ⟨_,_,ranName,last⟩ := Attempt.bind_eq_ok.mp later
    obtain ⟨_,rfl,_⟩ := Build.identifier_eq_ok ranName
    cases (Build.emitNamed_run ..).symm.trans last
    obtain ⟨_,sound₁,_⟩ := (Args.lower_sound signatures _ sound binds).ok ranArgs
    exact ⟨_,⟨values,ranArgs⟩,sound₁.precedes_emitted _ rfl rfl _⟩
  | @firstArg first rest env g =>
    obtain ⟨_,run⟩ := ends
    simp only [Args.lower] at run
    obtain ⟨a,f₁,ranFirst,run⟩ := Attempt.bind_eq_ok.mp run
    obtain ⟨_,_,ranRest,last⟩ := Attempt.bind_eq_ok.mp run
    cases last
    obtain ⟨above₁,sound₁,advance₁,_⟩ := (first.lower_sound signatures sound binds).ok ranFirst
    obtain ⟨_,_,advance₂,_⟩ := (rest.lower_sound signatures sound₁ (advance₁.binds binds)).ok ranRest
    exact ⟨f₁,⟨a,ranFirst⟩,advance₂.precedes g⟩
  | laterArgs ran =>
    obtain ⟨_,run⟩ := ends
    simp only [Args.lower] at run
    obtain ⟨values,_,ranRest,last⟩ := Attempt.bind_eq_ok.mp ((Attempt.bind_run_ok ran).symm.trans run)
    cases last
    exact ⟨_,⟨values,ranRest⟩,.refl _ _⟩
  | scope =>
    obtain ⟨_,run⟩ := ends
    simp only [Expr.lower] at run
    obtain ⟨inner,_,ran,last⟩ := Attempt.bind_eq_ok.mp run
    cases last
    exact ⟨_,⟨inner,ran⟩,.refl _ _⟩
  | cond =>
    obtain ⟨_,run⟩ := ends
    obtain ⟨_,loop,rfl⟩ := LoopRun.of_lower sound binds run
    exact ⟨loop.before,⟨loop.first,loop.ranFirst⟩,loop.precedes_done.1⟩
  | body ran ranOpen =>
    obtain ⟨_,run⟩ := ends
    obtain ⟨_,loop,rfl⟩ := LoopRun.of_lower sound binds run
    cases ran.symm.trans loop.ranFirst
    cases ranOpen.symm.trans loop.ranOpen
    exact ⟨loop.ended,⟨_,loop.ranBody⟩,loop.precedes_done.2.1⟩
  | again ran ranOpen ranBody =>
    obtain ⟨_,run⟩ := ends
    obtain ⟨_,loop,rfl⟩ := LoopRun.of_lower sound binds run
    cases ran.symm.trans loop.ranFirst
    cases ranOpen.symm.trans loop.ranOpen
    cases ranBody.symm.trans loop.ranBody
    exact ⟨loop.last,⟨loop.again,loop.ranAgain⟩,loop.precedes_done.2.2⟩
  | discard =>
    obtain ⟨_,run⟩ := ends
    simp only [Stmt.lower] at run
    obtain ⟨value,_,ran,last⟩ := Attempt.bind_eq_ok.mp run
    cases last
    exact ⟨_,⟨value,ran⟩,.refl _ _⟩
  | bindConst =>
    obtain ⟨_,run⟩ := ends
    simp only [Stmt.lower] at run
    obtain ⟨bound,_,ran,last⟩ := Attempt.bind_eq_ok.mp run
    cases bound with
    | reg => cases last
    | const n =>
      cases last
      exact ⟨_,⟨.const n,ran⟩,.refl _ _⟩
  | bindMut carried =>
    obtain ⟨_,run⟩ := ends
    simp only [Stmt.lower] at run
    obtain ⟨_,_,ranName,later⟩ := Attempt.bind_eq_ok.mp run
    obtain ⟨rfl,rfl,_⟩ := Build.identifier_eq_ok ranName
    obtain ⟨_,_,ranCell,later⟩ := Attempt.bind_eq_ok.mp later
    cases (Build.allocate_run ..).symm.trans ranCell
    obtain ⟨bound,f₁,ran,later⟩ := Attempt.bind_eq_ok.mp later
    obtain ⟨_,_,ranStore,last⟩ := Attempt.bind_eq_ok.mp later
    cases (Build.emitUnnamed_run ..).symm.trans ranStore
    cases last
    obtain ⟨sound₁,advance₁,_⟩ := sound.allocated _
    obtain ⟨_,sound₂,_⟩ := (Expr.lower_sound signatures _ sound₁ (advance₁.binds binds)).ok ran
    exact ⟨f₁,⟨bound,ran⟩,sound₂.precedes_emitted _ rfl rfl _⟩
  | assign found =>
    obtain ⟨_,run⟩ := ends
    simp only [Stmt.lower] at run
    obtain ⟨_,_,ranCheck,later⟩ := Attempt.bind_eq_ok.mp run
    obtain ⟨_,rfl⟩ := Prod.mk.inj ranCheck
    obtain ⟨stored,f₁,ran,later⟩ := Attempt.bind_eq_ok.mp later
    obtain ⟨_,_,ranStore,last⟩ := Attempt.bind_eq_ok.mp later
    cases (Build.emitUnnamed_run ..).symm.trans ranStore
    cases last
    obtain ⟨_,sound₁,_⟩ := (Expr.lower_sound signatures _ sound binds).ok ran
    exact ⟨f₁,⟨stored,ran⟩,sound₁.precedes_emitted _ rfl rfl _⟩
  | result =>
    obtain ⟨_,run⟩ := ends
    simp only [Block.lower] at run
    obtain ⟨value,_,ran,last⟩ := Attempt.bind_eq_ok.mp run
    cases last
    exact ⟨_,⟨value,ran⟩,.refl _ _⟩
  | @first first rest env g =>
    obtain ⟨_,run⟩ := ends
    simp only [Block.lower] at run
    obtain ⟨env₁,f₁,ranFirst,ranRest⟩ := Attempt.bind_eq_ok.mp run
    obtain ⟨above₁,sound₁,_,binds₁⟩ := (first.lower_sound signatures sound binds).ok ranFirst
    obtain ⟨_,_,advance₂,_⟩ := (rest.lower_sound signatures sound₁ binds₁).ok ranRest
    exact ⟨f₁,⟨env₁,ranFirst⟩,advance₂.precedes g⟩
  | rest ran =>
    obtain ⟨result,run⟩ := ends
    simp only [Block.lower] at run
    exact ⟨f,⟨result,(Attempt.bind_run_ok ran).symm.trans run⟩,.refl f _⟩
theorem Moment.Ends.along (ends : moment.Ends signatures f) (sound : moment.Sound signatures)
    (way : ReflTransGen (Moment.Leads signatures) moment moment') :
    ∃ f', moment'.Ends signatures f' ∧ f'.Precedes f moment'.frame := by
  induction way with
  | refl => exact ⟨f,ends,.refl f _⟩
  | tail earlier leads ih =>
    obtain ⟨f₁,ends₁,precedes₁⟩ := ih
    obtain ⟨f₂,ends₂,precedes₂⟩ := leads.ends (sound.along earlier) ends₁
    obtain ⟨_,_,advance⟩ := leads.advance (sound.along earlier)
    exact ⟨f₂,ends₂,precedes₂.trans precedes₁ advance.blocks⟩
/-- Lowering at a moment only adds to the frame that it starts from. -/
theorem Moment.Ends.precedes (ends : moment.Ends signatures f) (sound : moment.Sound signatures) :
    moment.frame.Precedes f moment.frame := by
  obtain ⟨task,env,g⟩ := moment
  obtain ⟨root,pending,above,sound,binds⟩ := sound
  cases task with
  | expr e =>
    obtain ⟨_,run⟩ := ends
    obtain ⟨_,_,advance,_⟩ := (e.lower_sound signatures sound binds).ok run
    exact advance.precedes g
  | args args =>
    obtain ⟨_,run⟩ := ends
    obtain ⟨_,_,advance,_⟩ := (args.lower_sound signatures sound binds).ok run
    exact advance.precedes g
  | stmt s =>
    obtain ⟨_,run⟩ := ends
    obtain ⟨_,_,advance,_⟩ := (s.lower_sound signatures sound binds).ok run
    exact advance.precedes g
  | block b =>
    obtain ⟨_,run⟩ := ends
    obtain ⟨_,_,advance,_⟩ := (b.lower_sound signatures sound binds).ok run
    exact advance.precedes g
/-- A loop that is lowered to its end lists its merge points. -/
theorem Moment.Enters.listed {loop inside : Moment} {points : List MergePoint} (enters : Moment.Enters signatures points loop inside)
    (sound : loop.Sound signatures) (ends : loop.Ends signatures f) : ∃ latch, ∀ point ∈ points, point.closed latch ∈ f.points := by
  obtain ⟨cond,body,env,g,first,before,opened,rfl,ran,ranOpen⟩ := enters.opened
  obtain ⟨root,pending,above,sound,binds⟩ := sound
  obtain ⟨_,lowered⟩ := ends
  obtain ⟨_,run,rfl⟩ := LoopRun.of_lower sound binds lowered
  cases ran.symm.trans run.ranFirst
  cases ranOpen.symm.trans run.ranOpen
  exact ⟨run.latch.block,fun point member => List.mem_append_right _ (List.mem_map_of_mem member)⟩

end

/-! ### The moments of a module that is built -/

section
variable {program : Program} {options : Options} {draft : Draft}

theorem Program.ends_of_lowered {signatures : Table Nat} {log : List Text} {value : Value} {f : Frame}
    (lowered : program.subject.lowerProgram signatures .empty (program.start options log).frame = (.ok value,f)) :
    (program.start options log).Ends signatures f := by
  cases program with
  | expr e => exact ⟨value,lowered⟩
  | block b =>
    obtain ⟨result,_,ran,last⟩ := Attempt.bind_eq_ok.mp lowered
    cases last
    exact ⟨result,ran⟩
/-- Lowering at a moment of a build that succeeds comes to an end, in a frame whose merge points, cells and loops are in the module. -/
theorem Draft.passed (built : Draft.build program.subject (.new options) = (.ok (),draft)) {moment : Moment}
    (passes : program.Passes options draft.signatures moment) :
    ∃ log f, (moment.logged log).Ends draft.signatures f ∧ f.points <+: draft.points ∧
      (∃ arena block, draft.filling = some ⟨arena,block⟩ ∧ f.arena.cells <+: arena.cells) ∧
      ∃ fn, draft.entryFunction? = some fn ∧ fn.Named ∧
        ∀ merge : Merge, merge.Settled f.function → merge.header ∉ moment.frame.function.labels → merge.Settled fn := by
  obtain ⟨before,others,value,last,⟨_,none,_⟩,lowered,⟨above,sound,_,_⟩,holds,same,points,filling⟩ := Draft.build_filled built
  obtain ⟨log,way⟩ := passes
  obtain ⟨log',way'⟩ := Moment.leads_logged way before.log
  have started : Draft.start options before = (program.start options before.log).frame := by
    rw [Draft.start,none]
    rfl
  rw [started,← same] at lowered
  have soundStart : (program.start options before.log).Sound draft.signatures := program.start_sound options before.log
  obtain ⟨f,ends,precedes⟩ := (Program.ends_of_lowered lowered).along soundStart way'
  refine ⟨log',f,ends,points ▸ precedes.points,⟨_,_,filling,precedes.cells⟩,_,holds.entryFunction?,sound.named_finished value,?_⟩
  intro merge settled begun
  obtain ⟨_,_,_,_,returned,entered⟩ := sound.appended_finished value
  have root : merge.header ∉ (Instr.br (lit "start")).targets := by
    intro target
    obtain ⟨initial,_⟩ := Frame.initial_sound (Function.declare_blocks options.entryName 0) draft.signatures [] before.log
      (rfl : (program.start options before.log).frame = _)
    exact begun ((soundStart.labels_along way').subset (List.mem_singleton.mp target ▸ initial.root_label))
  exact ((precedes.settled merge settled begun).appended returned rfl (by simp [Instr.targets])).appended entered rfl root
theorem Draft.cells_of_passed (built : Draft.build program.subject (.new options) = (.ok (),draft)) {moment : Moment}
    (passes : program.Passes options draft.signatures moment) :
    ∃ arena block, draft.filling = some ⟨arena,block⟩ ∧ moment.frame.arena.cells <+: arena.cells := by
  obtain ⟨log,f,ends,_,⟨arena,block,filling,cells⟩,_⟩ := Draft.passed built passes
  have grown : moment.frame.arena.cells <+: f.arena.cells := (ends.precedes (passes.sound.logged log)).cells
  exact ⟨arena,block,filling,grown.trans cells⟩
/-- The merge points of every loop that lowering has been inside of are in the module. -/
theorem Draft.listed_of_around (built : Draft.build program.subject (.new options) = (.ok (),draft)) {moment : Moment} {point : MergePoint}
    (around : program.Around options draft.signatures moment point) : ∃ latch, point.closed latch ∈ draft.points := by
  obtain ⟨log,loop,inside,points,met,enters,_,member⟩ := around
  have passes : program.Passes options draft.signatures loop := ⟨log,met⟩
  obtain ⟨log',f,ends,listed,_⟩ := Draft.passed built passes
  obtain ⟨_,enters'⟩ := enters.logged log'
  obtain ⟨latch,each⟩ := enters'.listed (passes.sound.logged log') ends
  exact ⟨latch,listed.subset (each point member)⟩
/-- In the module, the merge points of every loop that lowering has come to have their two edges. -/
theorem Draft.edges_of_entered (built : Draft.build program.subject (.new options) = (.ok (),draft)) {cond : Expr} {body : Block}
    {env after : Environment} {f ended : Frame} {points : List MergePoint} {point : MergePoint}
    (passes : program.Passes options draft.signatures ⟨.expr (.loop cond body),env,f⟩)
    (enters : Moment.Enters draft.signatures points ⟨.expr (.loop cond body),env,f⟩ ⟨.expr cond,after,ended⟩) (member : point ∈ points) :
    ∃ fn preheader latch, draft.entryFunction? = some fn ∧ point.closed latch ∈ draft.points ∧
      fn.incoming point.phi = [(point.initial env,preheader),(point.carried after,latch)] := by
  obtain ⟨log,_,⟨_,lowered⟩,listed,_,fn,found,named,kept⟩ := Draft.passed built passes
  obtain ⟨root,pending,above,sound,binds⟩ := passes.sound.logged log
  obtain ⟨_,enters'⟩ := enters.logged log
  obtain ⟨_,run,rfl⟩ := LoopRun.of_lower sound binds lowered
  cases enters' with
  | again ran ranOpen ranBody =>
    cases ran.symm.trans run.ranFirst
    cases ranOpen.symm.trans run.ranOpen
    obtain ⟨same,_⟩ := Prod.mk.inj (ranBody.symm.trans run.ranBody)
    cases same
    have begun : run.merge.header ∉ f.function.labels := fun old => run.looping.fresh.1 (run.advance_preheader.blocks.subset old)
    have inside : point.closed run.latch.block ∈ run.merge.points := List.mem_map_of_mem member
    have edges := (kept run.merge run.settled_done begun).incoming_eq named inside
    exact ⟨fn,_,_,found,listed.subset (List.mem_append_right _ inside),edges⟩
/-- Every merge point of the module is one of a loop that was lowered to its end, and the entry function has this loop. -/
theorem Draft.merged (built : Draft.build program.subject (.new options) = (.ok (),draft)) :
    ∃ fn, draft.entryFunction? = some fn ∧ fn.Named ∧ ∀ point ∈ draft.points, ∃ merge : Merge, point ∈ merge.points ∧
      merge.Closes draft.signatures ∧ merge.Settled fn ∧ program.Passes options draft.signatures merge.moment := by
  obtain ⟨before,others,value,f,⟨_,none,_⟩,lowered,⟨above,sound,_,_⟩,holds,same,points⟩ := Draft.build_course built
  obtain ⟨started,_⟩ := Frame.initial_sound (Function.declare_blocks options.entryName 0) before.signatures before.points before.log
    (rfl : Draft.start options before = _)
  obtain ⟨merges,gathered,_,each⟩ := program.lower_gathers before.signatures started lowered
  obtain ⟨_,_,_,_,returned,entered⟩ := sound.appended_finished value
  refine ⟨_,holds.entryFunction?,sound.named_finished value,fun point member => ?_⟩
  have start : (Draft.start options before).points = [] := none
  rw [points,gathered,start,List.nil_append] at member
  obtain ⟨merge,inside,listed⟩ := List.mem_flatMap.mp member
  obtain ⟨closes,settled,fresh,way⟩ := each merge inside
  have root : merge.header ∉ (Instr.br (lit "start")).targets := by
    intro target
    exact fresh (List.mem_singleton.mp target ▸ started.root_label)
  refine ⟨merge,listed,same ▸ closes,(settled.appended returned rfl (by simp [Instr.targets])).appended entered rfl root,before.log,?_⟩
  rw [same]
  exact none ▸ way
/-- The first block of the entry function makes the cells of the module, one after the other, and goes on to the program. -/
theorem Draft.entry_code (built : Draft.build program.subject (.new options) = (.ok (),draft)) :
    ∃ fn arena block, ∃ names : List Text, draft.entryFunction? = some fn ∧ draft.filling = some ⟨arena,block⟩ ∧
      fn.code? (lit "entry") = some (names.map .alloca ++ [.br (lit "start")]) ∧
      arena.cells.map Cell.pointer = names.map (Value.reg · .pointer) := by
  obtain ⟨before,others,value,f,_,_,⟨above,sound,advance,_⟩,holds,_,_,filling⟩ := Draft.build_filled built
  obtain ⟨names,code,pointers⟩ := sound.cells
  obtain ⟨_,names',_,_,returned,entered⟩ := sound.appended_finished value
  have same : some (names'.map Instr.alloca) = some (names.map Instr.alloca) :=
    entered.before.symm.trans ((returned.code_other sound.inside.symm).trans code)
  have entry : f.entry = lit "entry" := advance.entry
  have last := entered.code_same
  rw [Option.some.inj same,entry] at last
  exact ⟨_,_,_,names,holds.entryFunction?,filling,last,pointers⟩

end

end Lev
