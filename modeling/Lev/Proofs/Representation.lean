import Lev.Proofs.BackEdges

/-!
What names stand for. A name that is boxed stands for a cell, or for the phi of a loop around that merges cells; one that
is unboxed stands for a constant of 32 bits, or for the phi of a loop around that merges values. Main statement: this holds
in every environment that lowering comes to; in a module that is built, the edges of the phis lead from either sort of
phi to phis of this sort, and apart from them only to cells, and only to constants; and expressions are lowered to integers.
-/
namespace Lev
open Lev.Frame (Advance)
open Relation (ReflTransGen)

/-! ### Integers -/

/-- The integer is one that a word holds as a signed number. -/
def FitsWord (n : Int) : Prop := -2147483648 ≤ n ∧ n < 2147483648

theorem fitsWord_wrap (n : Int) : FitsWord (wrap wordBits n) := by
  rw [wrap_eq_toInt]
  exact ⟨BitVec.le_toInt _,BitVec.toInt_lt⟩

/-- A constant that fits a word, or the result of an instruction that yields one. -/
def Value.IsInteger : Value → Prop
  | .const n => FitsWord n
  | .reg _ type => type = .i32

theorem Value.IsInteger.type_eq {value : Value} (integer : value.IsInteger) : value.type = .i32 := by
  cases value with
  | const n => rfl
  | reg name type => exact integer
theorem Value.isInteger_ofInt (n : Int) : (Value.ofInt n).IsInteger := fitsWord_wrap n

/-- The names that stand for values stand for integers. -/
def Environment.Integers (env : Environment) : Prop :=
  ∀ name binding, env.lookup? name = some binding → binding.isBoxed = false → binding.value.IsInteger

theorem Environment.Integers.bind {env : Environment} (integers : env.Integers) (name : Text) {value : Value} {levity : Levity}
    (new : levity ≠ .boxed → value.IsInteger) : (env.bind name value levity).Integers := by
  intro key binding found unboxed
  rw [Environment.lookup?_bind] at found
  by_cases same : key = name
  · rw [if_pos same] at found
    cases found
    exact new (by simpa [Binding.isBoxed] using unboxed)
  · rw [if_neg same] at found
    exact integers key binding found unboxed

namespace Build
variable {α β : Type}

/-- Whatever the frame is, the step gives something good if it succeeds. -/
def Results (step : Build α) (good : α → Prop) : Prop := ∀ f a f', step f = (.ok a,f') → good a

namespace Results
variable {step : Build α} {next : α → Build β} {good : α → Prop} {better : β → Prop}

theorem pure {a : α} (holds : good a) : Results (Pure.pure a : Build α) good := by
  intro f b f' run
  cases run
  exact holds
theorem reject (error : ProgramError) : Results (Attempt.reject error : Build α) good := by
  intro f b f' run
  cases run
theorem bind (first : Results step good) (rest : ∀ a, good a → Results (next a) better) : Results (step >>= next) better := by
  intro f b f' run
  obtain ⟨a,f₁,ran,later⟩ := Attempt.bind_eq_ok.mp run
  exact rest a (first f a f₁ ran) f₁ b f' later
/-- What the last step gives does not depend on the steps before. -/
theorem after (rest : ∀ a, Results (next a) better) : Results (step >>= next) better :=
  bind (fun _ _ _ _ => trivial : Results step fun _ => True) fun a _ => rest a
theorem emitNamed (base : Text) (instr : Text → Instr) : Results (Build.emitNamed base instr) Value.IsInteger := by
  intro f value f' run
  cases (Build.emitNamed_run ..).symm.trans run
  rfl

end Results

end Build

open Build (Results)

theorem Environment.Integers.readVariable {env : Environment} (integers : env.Integers) (name : Text) :
    Results (Build.readVariable env name) Value.IsInteger := by
  have resolved : Results (Attempt.ofExcept (env.resolve name)) fun binding => binding.isBoxed = false → binding.value.IsInteger := by
    intro f binding f' run
    have found := (Prod.mk.inj run).1
    unfold Environment.resolve at found
    cases bound : env.lookup? name with
    | none =>
      rw [bound] at found
      cases found
    | some other =>
      rw [bound] at found
      cases found
      exact integers name binding bound
  refine resolved.bind fun binding integer => ?_
  cases boxed : binding.isBoxed with
  | true => exact .emitNamed _ _
  | false => exact .pure (integer boxed)
theorem Build.arith_results (op : Operator) (left right : Value) : Results (Build.arith op left right) Value.IsInteger := by
  unfold Build.arith
  split
  · exact .pure (Value.isInteger_ofInt _)
  · exact .emitNamed _ _

mutual

/-- An expression is lowered to an integer, in every frame. -/
theorem Expr.lower_results (signatures : Table Nat) (e : Expr) {env : Environment} (integers : env.Integers) :
    Results (e.lower signatures env) Value.IsInteger := by
  match e with
  | .literal n => exact .pure (Value.isInteger_ofInt n)
  | .var name => exact integers.readVariable name
  | .binary left op right => exact .after fun a => .after fun b => Build.arith_results op a b
  | .call callee args => exact .after fun _ => .after fun values => .after fun name => .emitNamed _ _
  | .scope body => exact (body.lower_results signatures integers).bind fun result good => .pure good.1
  | .loop cond body =>
    refine .after fun first => .after fun skip => .after fun header => .after fun exit => .after fun preheader => .after fun _ => ?_
    refine .after fun _ => .after fun points => .after fun result => .after fun again => .after fun leave => .after fun latch => ?_
    exact .after fun closed => .after fun _ => .after fun _ => .after fun _ => .pure (Value.isInteger_ofInt 0)

theorem Stmt.lower_results (signatures : Table Nat) (s : Stmt) {env : Environment} (integers : env.Integers) :
    Results (s.lower signatures env) Environment.Integers := by
  match s with
  | .discard value => exact .after fun _ => .pure integers
  | .bindConst name value =>
    refine (value.lower_results signatures integers).bind fun bound integer => ?_
    cases bound with
    | reg result type => exact .reject _
    | const n => exact .pure (integers.bind name fun _ => integer)
  | .bindMut name value =>
    refine .after fun base => .after fun cell => .after fun bound => .after fun _ => .pure (integers.bind name fun unboxed => ?_)
    exact absurd rfl unboxed
  | .assign name value => exact .after fun address => .after fun stored => .after fun _ => .pure integers

theorem Block.lower_results (signatures : Table Nat) (b : Block) {env : Environment} (integers : env.Integers) :
    Results (b.lower signatures env) fun result => result.1.IsInteger ∧ result.2.Integers := by
  match b with
  | .result value => exact (value.lower_results signatures integers).bind fun result integer => .pure ⟨integer,integers⟩
  | .step first rest => exact (first.lower_results signatures integers).bind fun after good => rest.lower_results signatures good

end

/-! ### Bindings -/

/-- What the name is bound to is a cell that was made for it, a constant, or a phi that stands for it; its levity says which. -/
inductive Binding.Stands (cells : List Cell) (around : MergePoint → Prop) (name : Text) : Binding → Prop
  | cell {cell : Cell} (member : cell ∈ cells) (named : cell.name = name) : Stands cells around name ⟨cell.pointer,.boxed⟩
  | constant {n : Int} (fits : FitsWord n) : Stands cells around name ⟨.const n,.unboxed n⟩
  | phi {point : MergePoint} (inside : around point) (named : point.name = name) :
      Stands cells around name ⟨point.value,point.levity⟩

/-- Every name of the environment is bound to what its levity says. -/
def Environment.Stands (cells : List Cell) (around : MergePoint → Prop) (env : Environment) : Prop :=
  ∀ name binding, env.lookup? name = some binding → binding.Stands cells around name

section
variable {signatures : Table Nat} {cells cells' : List Cell} {around around' : MergePoint → Prop} {name : Text} {binding : Binding}
variable {env env' : Environment} {f f' : Frame} {start moment moment' : Moment}

theorem Binding.Stands.mono (stands : binding.Stands cells around name) (grown : cells <+: cells')
    (wider : ∀ point, around point → around' point) : binding.Stands cells' around' name := by
  cases stands with
  | cell member named => exact .cell (grown.subset member) named
  | constant fits => exact .constant fits
  | phi inside named => exact .phi (wider _ inside) named
theorem Environment.Stands.mono (stands : env.Stands cells around) (grown : cells <+: cells')
    (wider : ∀ point, around point → around' point) : env.Stands cells' around' :=
  fun name binding found => (stands name binding found).mono grown wider
theorem Environment.Stands.bind (stands : env.Stands cells around) {value : Value} {levity : Levity}
    (new : Binding.Stands cells around name ⟨value,levity⟩) : (env.bind name value levity).Stands cells around := by
  intro key binding found
  rw [Environment.lookup?_bind] at found
  by_cases same : key = name
  · rw [if_pos same] at found
    cases found
    exact same ▸ new
  · rw [if_neg same] at found
    exact stands key binding found
theorem Environment.Stands.bindAll (stands : env.Stands cells around) {points : List MergePoint}
    (inside : ∀ point ∈ points, around point) : (MergePoint.bindAll env points).Stands cells around := by
  induction points generalizing env with
  | nil => exact stands
  | cons point rest ih =>
    rw [List.forall_mem_cons] at inside
    exact ih (stands.bind (.phi inside.1 rfl)) inside.2
theorem Environment.Stands.integers {above : Text → List Text} (stands : env.Stands cells around) (binds : f.Binds above env) :
    env.Integers := by
  intro name binding found unboxed
  have type := (binds name binding found).2
  cases stands name binding found with
  | cell => cases unboxed
  | constant fits => exact fits
  | phi =>
    rw [unboxed] at type
    exact type
theorem Moment.Sound.integers (sound : moment.Sound signatures) (stands : moment.env.Stands cells around) : moment.env.Integers := by
  obtain ⟨root,pending,above,_,binds⟩ := sound
  exact stands.integers binds
/-- A statement binds its name to a constant or to its new cell. -/
theorem Stmt.lower_stands (s : Stmt) (sound : Moment.Sound signatures ⟨.stmt s,env,f⟩) (stands : env.Stands f.arena.cells around)
    (run : s.lower signatures env f = (.ok env',f')) : env'.Stands f'.arena.cells around := by
  have ends : Moment.Ends signatures ⟨.stmt s,env,f⟩ f' := ⟨env',run⟩
  have kept : env.Stands f'.arena.cells around := stands.mono (ends.precedes sound).cells fun _ inside => inside
  cases s with
  | discard value =>
    obtain ⟨_,_,_,last⟩ := Attempt.bind_eq_ok.mp run
    cases last
    exact kept
  | bindConst name value =>
    obtain ⟨n,ran,rfl⟩ := Stmt.lower_bindConst run
    exact kept.bind (.constant (value.lower_results signatures (sound.integers stands) _ _ _ ran))
  | bindMut name value =>
    obtain ⟨rfl,grown⟩ := Stmt.lower_bindMut sound run
    exact kept.bind (.cell (grown.subset (List.mem_append_right _ (List.mem_singleton_self _))) rfl)
  | assign name value =>
    obtain ⟨_,_,_,later⟩ := Attempt.bind_eq_ok.mp run
    obtain ⟨_,_,_,later⟩ := Attempt.bind_eq_ok.mp later
    obtain ⟨_,_,_,last⟩ := Attempt.bind_eq_ok.mp later
    cases last
    exact kept
theorem Block.lower_stands (b : Block) {env env' : Environment} {f f' : Frame} {value : Value}
    (sound : Moment.Sound signatures ⟨.block b,env,f⟩) (stands : env.Stands f.arena.cells around)
    (run : b.lower signatures env f = (.ok (value,env'),f')) : env'.Stands f'.arena.cells around := by
  match b with
  | .result e =>
    have ends : Moment.Ends signatures ⟨.block (.result e),env,f⟩ f' := ⟨_,run⟩
    have kept : env.Stands f'.arena.cells around := stands.mono (ends.precedes sound).cells fun _ inside => inside
    obtain ⟨_,_,_,last⟩ := Attempt.bind_eq_ok.mp run
    cases last
    exact kept
  | .step first rest =>
    obtain ⟨env₁,f₁,ranFirst,ranRest⟩ := Attempt.bind_eq_ok.mp run
    exact rest.lower_stands ((Moment.Leads.rest ranFirst).sound sound)
      (first.lower_stands (Moment.Leads.first.sound sound) stands ranFirst) ranRest

/-- Every name of the moment is bound to what its levity says, its phis being those of the loops around the moment. -/
def Moment.Stands (signatures : Table Nat) (moment start : Moment) : Prop :=
  moment.env.Stands moment.frame.arena.cells (Moment.Around signatures start moment)

/-- Inside of a loop, the names that it merges are bound to its phis. -/
theorem Moment.Enters.stands {loop inside : Moment} {points : List MergePoint} (enters : Moment.Enters signatures points loop inside)
    (way : ReflTransGen (Moment.Leads signatures) start loop) (sound : loop.Sound signatures) (stands : loop.Stands signatures start) :
    inside.Stands signatures start := by
  have around : ∀ point ∈ points, Moment.Around signatures start inside point :=
    fun point member => ⟨loop,inside,points,way,enters,.refl,member⟩
  have wider : ∀ point, Moment.Around signatures start loop point → Moment.Around signatures start inside point :=
    fun point outside => outside.lead enters.leads
  cases enters with
  | body ran ranOpen =>
    obtain ⟨_,_,advance⟩ := (Moment.Leads.body ran ranOpen).advance sound
    exact (stands.mono advance.cells wider).bindAll around
  | @again _ body _ _ _ _ _ _ _ _ ran ranOpen ranBody =>
    have leads : Moment.Leads signatures _ ⟨.block body,MergePoint.bindAll _ points,_⟩ := .body ran ranOpen
    obtain ⟨_,_,advance⟩ := leads.advance sound
    exact body.lower_stands (leads.sound sound) ((stands.mono advance.cells wider).bindAll around) ranBody
theorem Moment.Leads.stands (leads : moment.Leads signatures moment') (way : ReflTransGen (Moment.Leads signatures) start moment)
    (sound : moment.Sound signatures) (stands : moment.Stands signatures start) : moment'.Stands signatures start := by
  have wider : ∀ point, Moment.Around signatures start moment point → Moment.Around signatures start moment' point :=
    fun point outside => outside.lead leads
  obtain ⟨_,_,advance⟩ := leads.advance sound
  cases leads with
  | left | right _ | args _ | firstArg | laterArgs _ | scope | cond | discard | bindConst | bindMut _ | assign _ | result | first =>
    exact stands.mono advance.cells wider
  | body ran ranOpen => exact (Moment.Enters.body ran ranOpen).stands way sound stands
  | again ran ranOpen ranBody => exact (Moment.Enters.again ran ranOpen ranBody).stands way sound stands
  | rest ran => exact (Stmt.lower_stands _ (Moment.Leads.first.sound sound) stands ran).mono (List.prefix_refl _) wider
theorem Moment.stands_along (way : ReflTransGen (Moment.Leads signatures) start moment) (sound : start.Sound signatures)
    (stands : start.Stands signatures start) : moment.Stands signatures start := by
  induction way with
  | refl => exact stands
  | tail earlier leads ih => exact leads.stands earlier (sound.along earlier) ih
/-- Whatever lowering comes to, every name is bound to what its levity says. -/
theorem Program.Passes.stands {program : Program} {options : Options} (passes : program.Passes options signatures moment) :
    moment.env.Stands moment.frame.arena.cells (program.Around options signatures moment) := by
  obtain ⟨log,way⟩ := passes
  have start : (program.start options log).Stands signatures (program.start options log) := by
    intro name binding found
    cases found
  exact (Moment.stands_along way (program.start_sound options log) start).mono (List.prefix_refl _) fun _ around => ⟨log,around⟩

end

/-! ### The edges of phis -/

/-- The second value comes in along an edge of the first, which is a phi. -/
def Function.Feeds (fn : Function) (value source : Value) : Prop :=
  ∃ phi type label, value = .reg phi type ∧ (source,label) ∈ fn.incoming phi

/-- The value is the phi of a merge point of this kind, or else a cell or a constant, as the kind says. -/
def Levity.Covers (cells : List Cell) (points : List MergePoint) (levity : Levity) (value : Value) : Prop :=
  (∃ point ∈ points, levity.sameKind point.levity ∧ value = point.value) ∨
    match levity with
    | .boxed => ∃ cell ∈ cells, value = cell.pointer
    | .unboxed _ => ∃ n, FitsWord n ∧ value = .const n

section
variable {cells : List Cell} {points : List MergePoint} {levity levity' : Levity} {value : Value} {name : Text} {binding : Binding}

theorem Levity.sameKind_self (levity : Levity) : levity.sameKind levity := by cases levity <;> rfl
theorem Levity.sameKind_comm (levity levity' : Levity) : levity.sameKind levity' = levity'.sameKind levity := by
  cases levity <;> cases levity' <;> rfl
/-- The latch carries the phi itself, or what the name of the merge point is bound to, if this is of the same kind. -/
theorem MergePoint.carried_cases (point : MergePoint) (env : Environment) :
    point.carried env = point.value ∨ ∃ binding, env.lookup? point.name = some binding ∧ point.levity.sameKind binding.levity ∧
      point.carried env = binding.value := by
  unfold MergePoint.carried
  cases found : env.lookup? point.name with
  | none => exact .inl rfl
  | some binding =>
    by_cases fits : binding.levity.sameKind point.levity && binding.value.type = point.type
    · have same := ((Bool.and_eq_true_iff).mp fits).1
      exact .inr ⟨binding,rfl,Levity.sameKind_comm _ _ ▸ same,if_pos fits⟩
    · exact .inl (if_neg fits)
theorem Levity.Covers.congr (covers : levity.Covers cells points value) (same : levity'.sameKind levity) :
    levity'.Covers cells points value := by
  rcases covers with ⟨point,member,alike,found⟩ | direct
  · refine .inl ⟨point,member,?_,found⟩
    cases levity <;> cases levity' <;> cases kind : point.levity <;> simp_all [Levity.sameKind]
  · cases levity <;> cases levity' <;> first | exact .inr direct | cases same
theorem Levity.covers_point {point : MergePoint} (member : point ∈ points) (same : levity.sameKind point.levity) :
    levity.Covers cells points point.value := .inl ⟨point,member,same,rfl⟩
theorem Binding.Stands.covers (stands : binding.Stands cells (· ∈ points) name) :
    binding.levity.Covers cells points binding.value := by
  cases stands with
  | cell member _ => exact .inr ⟨_,member,rfl⟩
  | constant fits => exact .inr ⟨_,fits,rfl⟩
  | phi inside _ => exact Levity.covers_point inside (Levity.sameKind_self _)

end

section
variable {program : Program} {options : Options} {draft : Draft} {arena : Arena} {block : Text}

/-- The names of every moment of a build that succeeds are bound to cells, constants and phis of the module. -/
theorem Draft.stands (built : Draft.build program.subject (.new options) = (.ok (),draft)) (filling : draft.filling = some ⟨arena,block⟩)
    {moment : Moment} (passes : program.Passes options draft.signatures moment) :
    moment.env.Stands arena.cells (· ∈ draft.points) := by
  obtain ⟨_,_,same,grown⟩ := Draft.cells_of_passed built passes
  cases filling.symm.trans same
  intro name binding found
  cases passes.stands name binding found with
  | cell member named => exact .cell (grown.subset member) named
  | constant fits => exact .constant fits
  | @phi point inside named =>
    obtain ⟨latch,listed⟩ := Draft.listed_of_around built inside
    have closed : Binding.Stands arena.cells (· ∈ draft.points) name ⟨(point.closed latch).value,(point.closed latch).levity⟩ :=
      .phi listed named
    exact closed
/-- A merge point has the levity of what its name is bound to before the loop. -/
theorem Merge.Closes.levity_eq {signatures : Table Nat} {merge : Merge} (closes : merge.Closes signatures)
    (sound : merge.moment.Sound signatures) {point : MergePoint} (member : point ∈ merge.points) :
    ∃ binding, merge.env.lookup? point.name = some binding ∧ point.levity = binding.levity := by
  obtain ⟨points,_,enters,same⟩ := closes.entered
  obtain ⟨cond,body,env,g,first,before,opened,moment,ran,ranOpen⟩ := enters.opened
  obtain ⟨root,pending,above,sound,binds⟩ := sound
  rw [moment] at sound binds
  obtain ⟨_,_,_,opens,_⟩ := sound.opens binds ran ranOpen
  rw [same] at member
  obtain ⟨opening,listed,rfl⟩ := List.mem_map.mp member
  obtain ⟨binding,stands⟩ := opens.bindings opening listed
  cases moment
  exact ⟨binding,stands.bound,stands.levity⟩
/-- Where the two edges of a merge point come from: what its name is bound to before the loop, and what the body leaves. -/
theorem Draft.sources (built : Draft.build program.subject (.new options) = (.ok (),draft)) :
    ∃ fn, draft.entryFunction? = some fn ∧ fn.Named ∧ ∀ point ∈ draft.points, ∃ (merge : Merge) (binding : Binding),
      point ∈ merge.points ∧ merge.Closes draft.signatures ∧ program.Passes options draft.signatures merge.moment ∧
      merge.env.lookup? point.name = some binding ∧ point.levity = binding.levity ∧
      fn.incoming point.phi = [(binding.value,merge.preheader),(point.carried merge.after,merge.latch)] := by
  obtain ⟨fn,found,named,each⟩ := Draft.merged built
  refine ⟨fn,found,named,fun point member => ?_⟩
  obtain ⟨merge,listed,closes,settled,passes⟩ := each point member
  obtain ⟨binding,bound,levity⟩ := closes.levity_eq passes.sound listed
  have edges := settled.incoming_eq named listed
  rw [MergePoint.initial,bound] at edges
  exact ⟨merge,binding,listed,closes,passes,bound,levity,edges⟩
/-- Only phis have edges. -/
theorem Function.Named.phi_of_mem_incoming {fn : Function} (named : fn.Named) {phi label : Text} {source : Value}
    (edge : (source,label) ∈ fn.incoming phi) : ∃ place index type edges, fn.At place index (.phi phi type edges) := by
  obtain ⟨block,member,inside⟩ := List.mem_flatMap.mp edge
  obtain ⟨instr,listed,carries⟩ := List.mem_flatMap.mp inside
  cases instr with
  | phi result type edges =>
    obtain ⟨same,_⟩ := List.mem_ite_nil_right.mp carries
    obtain ⟨index,found⟩ := Function.At.of_mem ((Function.mem_blocks_iff named.labels).mp member) listed
    exact ⟨block.label,index,type,edges,same ▸ found⟩
  | _ => cases carries
/-- Nothing comes in along the edges of a cell. -/
theorem Draft.cell_not_fed (built : Draft.build program.subject (.new options) = (.ok (),draft)) {fn : Function}
    (found : draft.entryFunction? = some fn) (named : fn.Named) (filling : draft.filling = some ⟨arena,block⟩) {cell : Cell}
    (member : cell ∈ arena.cells) (source : Value) : ¬ fn.Feeds cell.pointer source := by
  rintro ⟨phi,type,label,pointer,edge⟩
  obtain ⟨_,_,_,names,found',filling',code,pointers⟩ := Draft.entry_code built
  cases found.symm.trans found'
  cases filling.symm.trans filling'
  have listed : Value.reg phi type ∈ names.map (Value.reg · .pointer) := by
    rw [← pointers,← pointer]
    exact List.mem_map_of_mem member
  obtain ⟨name,made,same⟩ := List.mem_map.mp listed
  cases same
  obtain ⟨index,here⟩ := Function.At.of_mem code (List.mem_append_left _ (List.mem_map_of_mem made))
  obtain ⟨place,index',_,edges,at_phi⟩ := named.phi_of_mem_incoming edge
  obtain ⟨rfl,rfl⟩ := named.resultOnce _ _ _ _ _ _ phi here at_phi rfl rfl
  cases here.unique at_phi
/-- What comes in along the edges of phis, one after the other, is covered by the kind of the first. -/
theorem Draft.covers_of_feeds (built : Draft.build program.subject (.new options) = (.ok (),draft)) :
    ∃ fn arena block, draft.entryFunction? = some fn ∧ draft.filling = some ⟨arena,block⟩ ∧ ∀ levity value source,
      Levity.Covers arena.cells draft.points levity value → fn.Feeds value source →
      Levity.Covers arena.cells draft.points levity source := by
  obtain ⟨fn,found,named,each⟩ := Draft.sources built
  obtain ⟨_,arena,block,_,_,filling,_⟩ := Draft.entry_code built
  refine ⟨fn,arena,block,found,filling,?_⟩
  rintro levity value source (⟨point,member,alike,rfl⟩ | direct) feeds
  · obtain ⟨phi,type,label,same,edge⟩ := feeds
    cases same
    obtain ⟨merge,binding,_,closes,passes,bound,kind,edges⟩ := each point member
    refine Levity.Covers.congr ?_ alike
    rw [edges,List.mem_pair] at edge
    rcases edge with first | second
    · cases first
      rw [kind]
      exact (Draft.stands built filling passes _ _ bound).covers
    · cases second
      rcases point.carried_cases merge.after with header | ⟨last,after,same,carried⟩
      · rw [header]
        exact Levity.covers_point member (Levity.sameKind_self _)
      · obtain ⟨_,ended,enters,_⟩ := closes.entered
        rw [carried]
        exact (Draft.stands built filling (passes.lead enters.leads) _ _ after).covers.congr same
  · cases levity with
    | boxed =>
      obtain ⟨cell,member,rfl⟩ := direct
      exact absurd feeds (Draft.cell_not_fed built found named filling member source)
    | unboxed c =>
      obtain ⟨n,_,rfl⟩ := direct
      obtain ⟨_,_,_,same,_⟩ := feeds
      cases same

end

/-- In every environment that lowering a program comes to, a name that is boxed stands for a cell or for the phi of a boxed
    merge point of a loop around, and a name that is unboxed for an integer of 32 bits or for the phi of an unboxed one, with
    the type that goes with it, and every expression that is lowered there is lowered to an integer. In a module that is
    built, the edges of boxed phis lead to such phis and to cells only, and those of unboxed phis to such and to constants. -/
theorem levity_matches_representation (program : Program) (options : Options) :
    (∀ signatures moment, program.Passes options signatures moment →
      (∀ name binding, moment.env.lookup? name = some binding →
        binding.Stands moment.frame.arena.cells (program.Around options signatures moment) name ∧
        binding.value.type = if binding.isBoxed then .pointer else .i32) ∧
      ∀ (e : Expr) f value f', e.lower signatures moment.env f = (.ok value,f') → value.type = .i32) ∧
    ∀ draft, Draft.build program.subject (.new options) = (.ok (),draft) →
      ∃ fn arena block, draft.entryFunction? = some fn ∧ draft.filling = some ⟨arena,block⟩ ∧
        ∀ point ∈ draft.points, ∀ value, ReflTransGen fn.Feeds point.value value →
          Levity.Covers arena.cells draft.points point.levity value := by
  refine ⟨fun signatures moment passes => ⟨fun name binding found => ?_,fun e f value f' run => ?_⟩,fun draft built => ?_⟩
  · obtain ⟨root,pending,above,_,binds⟩ := passes.sound
    exact ⟨passes.stands name binding found,(binds name binding found).2⟩
  · exact (e.lower_results signatures (passes.sound.integers passes.stands) f value f' run).type_eq
  · obtain ⟨fn,arena,block,found,filling,step⟩ := Draft.covers_of_feeds built
    refine ⟨fn,arena,block,found,filling,fun point member value way => ?_⟩
    induction way with
    | refl => exact Levity.covers_point member (Levity.sameKind_self _)
    | tail _ feeds ih => exact step _ _ _ ih feeds

/-- Before the loop, and in the module, which has a boxed merge point and two that are unboxed. -/
theorem levity_matches_representation_shadowing :
    shadowing.Passes {} [] ⟨.expr (.loop shadowedCond shadowingBody),shadowedEnv,shadowedFrame⟩ ∧
    (∀ name binding, shadowedEnv.lookup? name = some binding → binding.value.type = if binding.isBoxed then .pointer else .i32) ∧
    (Draft.build shadowing.subject (.new {})).1 = .ok () ∧
    (Draft.build shadowing.subject (.new {})).2.points.map MergePoint.levity = [.unboxed 1,.unboxed 7,.boxed] ∧
    ∃ fn arena, (Draft.build shadowing.subject (.new {})).2.entryFunction? = some fn ∧
      ∀ point ∈ (Draft.build shadowing.subject (.new {})).2.points, ∀ value, ReflTransGen fn.Feeds point.value value →
        Levity.Covers arena (Draft.build shadowing.subject (.new {})).2.points point.levity value := by
  have built : (Draft.build shadowing.subject (.new {})).1 = .ok () := Attempt.eq_ok_of_isOk (by decide +kernel)
  obtain ⟨bindings,edges⟩ := levity_matches_representation shadowing {}
  obtain ⟨fn,arena,_,entry,_,each⟩ := edges _ (Attempt.run_of_fst built)
  refine ⟨shadowing_passes,fun name binding found => ?_,built,by decide +kernel,fn,arena.cells,entry,each⟩
  exact ((bindings [] _ shadowing_passes).1 name binding found).2

end Lev
