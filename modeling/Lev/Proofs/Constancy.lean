import Lev.Proofs.Moves
import Lev.Proofs.Mutability
import Lev.Proofs.Representation

/-!
Whether tags tell the truth. An unboxed name is tagged with a constant, and the phi that stands for it inside of a loop
keeps the tag. The body may bind the name to another constant, though, and the phi takes this in the next round. Main
statement: for each name and constant, the tags are true, of the edges of the phis and in every run, exactly if no loop
does this to them.
-/
namespace Lev
open Relation (ReflTransGen)

/-! ### The loops of a program -/

def Task.loops : Task → List (Expr × Block)
  | .expr e => e.loops
  | .args arguments => arguments.loops
  | .stmt s => s.loops
  | .block b => b.loops

section
variable {signatures : Table Nat} {moment moment' : Moment}

theorem Moment.Leads.loops (leads : moment.Leads signatures moment') : moment'.task.loops ⊆ moment.task.loops := by
  cases leads <;> simp [Task.loops,Expr.loops,Args.loops,Stmt.loops,Block.loops]
theorem Moment.loops_along (way : ReflTransGen (Moment.Leads signatures) moment moment') : moment'.task.loops ⊆ moment.task.loops := by
  induction way with
  | refl => exact fun _ member => member
  | tail _ leads ih => exact fun _ member => ih (leads.loops member)
/-- The loops that lowering comes to are loops of the program. -/
theorem Program.Passes.mem_loops {program : Program} {options : Options} {cond : Expr} {body : Block} {env : Environment} {f : Frame}
    (passes : program.Passes options signatures ⟨.expr (.loop cond body),env,f⟩) : (cond,body) ∈ program.loops := by
  obtain ⟨log,way⟩ := passes
  have inside := Moment.loops_along way (List.mem_cons_self : (cond,body) ∈ (Task.expr (.loop cond body)).loops)
  cases program with
  | expr e => exact inside
  | block b => exact inside

end

/-! ### Names that are bound to another constant -/

/-- A loop of the program takes the name over as one constant and hands it on to its next round as another: its condition
    reads the name, and the last binding that its body makes of it is an immutable one, to the other constant. -/
def Program.Rebinds (program : Program) (options : Options) (signatures : Table Nat) (name : Text) (c : Int) : Prop :=
  ∃ cond body env f points after ended value bound n, program.Passes options signatures ⟨.expr (.loop cond body),env,f⟩ ∧
    Moment.Enters signatures points ⟨.expr (.loop cond body),env,f⟩ ⟨.expr cond,after,ended⟩ ∧
    name ∈ cond.reads ∧ env.lookup? name = some ⟨value,.unboxed c⟩ ∧ body.lastBinding? name = some (.bindConst name bound) ∧
    after.lookup? name = some ⟨.const n,.unboxed n⟩ ∧ n ≠ c

/-- This takes a loop whose body has such a binding. -/
theorem Program.not_rebinds {program : Program} {options : Options} {signatures : Table Nat} {name : Text} {c : Int}
    (mutable : ∀ loop ∈ program.loops, name ∈ loop.1.reads → ∀ bound, loop.2.lastBinding? name ≠ some (.bindConst name bound)) :
    ¬ program.Rebinds options signatures name c := by
  rintro ⟨cond,body,env,f,points,after,ended,value,bound,n,passes,_,read,_,last,_⟩
  exact mutable _ passes.mem_loops read bound last
/-- What the latch carries for an unboxed name is its phi, or a constant that the body binds it to. -/
theorem Moment.Enters.carried_unboxed {signatures : Table Nat} {points : List MergePoint} {cond : Expr} {body : Block}
    {env after : Environment} {f ended : Frame} {point : MergePoint} {c : Int}
    (enters : Moment.Enters signatures points ⟨.expr (.loop cond body),env,f⟩ ⟨.expr cond,after,ended⟩)
    (sound : Moment.Sound signatures ⟨.expr (.loop cond body),env,f⟩) (member : point ∈ points) (unboxed : point.levity = .unboxed c) :
    point.carried after = point.value ∨ ∃ bound n, body.lastBinding? point.name = some (.bindConst point.name bound) ∧
      after.lookup? point.name = some ⟨.const n,.unboxed n⟩ ∧ point.carried after = .const n := by
  cases enters with
  | @again _ _ _ _ _ before opened _ first value ran ranOpen ranBody =>
    have inside : Moment.Sound signatures ⟨.block body,MergePoint.bindAll env points,opened⟩ :=
      (Moment.Leads.body ran ranOpen).sound sound
    cases Block.lower_leaves inside ranBody point.name with
    | kept _ found =>
      obtain ⟨root,pending,above,sound,binds⟩ := sound
      obtain ⟨_,_,_,opens,_⟩ := sound.opens binds ran ranOpen
      have distinct : (points.map MergePoint.name).Nodup := opens.names ▸ (Text.sortDistinct_nodup cond.reads).filter _
      exact .inl (MergePoint.carried_eq_value (found.trans (MergePoint.lookup?_bindAll_of_mem env distinct member)))
    | constant last _ _ _ found =>
      rcases point.carried_cases after with header | ⟨binding,lookup,_,carried⟩
      · exact .inl header
      · cases found.symm.trans lookup
        exact .inr ⟨_,_,last,found,carried⟩
    | cell _ _ _ _ found =>
      rcases point.carried_cases after with header | ⟨binding,lookup,alike,_⟩
      · exact .inl header
      · cases found.symm.trans lookup
        rw [unboxed] at alike
        cases alike

/-! ### Phis that take one constant only -/

/-- The value is the constant, or one of the phis. -/
def Value.Within (phis : Text → Prop) (c : Int) : Value → Prop
  | .const n => n = c
  | .reg name _ => phis name

/-- The names are those of phis of the function, which take the constant or each other. -/
structure Function.Constant (fn : Function) (phis : Text → Prop) (c : Int) : Prop where
  phi : ∀ name, phis name → ∃ place index type edges, fn.At place index (.phi name type edges)
  edges : ∀ name, phis name → ∀ source label, (source,label) ∈ fn.incoming name → source.Within phis c

/-- The registers of the phis hold the constant, if they are set. -/
def Machine.Steady (phis : Text → Prop) (c : Int) (s : Machine) : Prop :=
  ∀ name datum, phis name → s.registers name = some datum → datum = .word (.ofInt 32 c)

section
variable {fn : Function} {phis : Text → Prop} {c : Int} {module : Module} {world : World} {s s' : Machine} {value source : Value}

theorem Function.Constant.feeds (constant : fn.Constant phis c) (within : value.Within phis c) (feeds : fn.Feeds value source) :
    source.Within phis c := by
  obtain ⟨phi,type,label,rfl,edge⟩ := feeds
  exact constant.edges phi within source label edge
/-- All that comes in, edge after edge, is the constant. -/
theorem Function.Constant.reachable (constant : fn.Constant phis c) (within : value.Within phis c)
    (way : ReflTransGen fn.Feeds value source) : source.Within phis c := by
  induction way with
  | refl => exact within
  | tail _ feeds ih => exact constant.feeds ih feeds
theorem Machine.Steady.value? (steady : s.Steady phis c) (within : value.Within phis c) {datum : Datum}
    (held : s.value? value = some datum) : datum = .word (.ofInt 32 c) := by
  cases value with
  | const n =>
    cases held
    rw [show n = c from within]
  | reg name type => exact steady name datum within held
theorem Machine.Steady.enter (steady : s.Steady phis c) (named : fn.Named) (constant : fn.Constant phis c) {target : Text}
    (entered : s.enter fn target = some s') : s'.Steady phis c := by
  obtain ⟨_,_,_,_,_,sets,_⟩ := Machine.enter_sets entered
  intro name datum inside held
  rcases sets name with same | ⟨index,type,edges,source,other,found,edge,carried,set⟩
  · exact steady name datum inside (same ▸ held)
  · rw [set] at held
    cases held
    have within : source.Within phis c := constant.edges name inside source s.block (named.incoming_eq found ▸ edge)
    exact steady.value? within carried
/-- A step keeps the constant in the registers of the phis. -/
theorem Machine.Moves.steady (moves : s.Moves fn s') (named : fn.Named) (constant : fn.Constant phis c) (steady : s.Steady phis c) :
    s'.Steady phis c := by
  cases moves with
  | enters _ target _ _ entered => exact steady.enter named constant entered
  | passes instr found plain _ _ _ registers _ =>
    intro name datum inside held
    have other : instr.result? ≠ some name := by
      intro yields
      obtain ⟨place,index,type,edges,at_phi⟩ := constant.phi name inside
      obtain ⟨rfl,rfl⟩ := named.resultOnce _ _ _ _ _ _ name found at_phi yields rfl
      rw [found.unique at_phi] at plain
      cases plain
    exact steady name datum inside (registers name other ▸ held)
/-- In every run they hold it. -/
theorem Machine.Reaches.steady (reaches : Machine.Reaches module fn world s s') (named : fn.Named) (constant : fn.Constant phis c)
    (steady : s.Steady phis c) : s'.Steady phis c := by
  induction reaches with
  | refl => exact steady
  | tail _ turn ih => exact (Machine.moves_of_step turn).steady named constant ih
theorem Machine.steady_start (entry : Text) : (Machine.start entry).Steady phis c := by
  intro name datum _ held
  cases held

end

/-! ### The phis of a module -/

section
variable {program : Program} {options : Options} {draft : Draft} {name : Text} {c : Int}

/-- The phis that stand for the name and are tagged with the constant. -/
def Draft.Tagged (draft : Draft) (name : Text) (c : Int) (phi : Text) : Prop :=
  ∃ point ∈ draft.points, point.name = name ∧ point.levity = .unboxed c ∧ point.phi = phi

theorem Binding.Stands.within {cells : List Cell} {value : Value}
    (stands : Binding.Stands cells (· ∈ draft.points) name ⟨value,.unboxed c⟩) : value.Within (draft.Tagged name c) c := by
  generalize same : (⟨value,.unboxed c⟩ : Binding) = binding at stands
  cases stands with
  | cell => cases same
  | constant =>
    cases same
    rfl
  | @phi point inside named =>
    obtain ⟨rfl,levity⟩ := Binding.mk.inj same
    exact ⟨point,inside,named,levity.symm,rfl⟩
/-- The phis of a name that is not bound to another constant take its constant only. -/
theorem Draft.constant_tagged (built : Draft.build program.subject (.new options) = (.ok (),draft)) {fn : Function}
    (found : draft.entryFunction? = some fn) (kept : ¬ program.Rebinds options draft.signatures name c) :
    fn.Constant (draft.Tagged name c) c := by
  obtain ⟨_,found',named,each⟩ := Draft.sources built
  cases found.symm.trans found'
  obtain ⟨_,arena,block,_,_,filling,_⟩ := Draft.entry_code built
  refine ⟨?_,?_⟩
  · rintro _ ⟨point,member,_,_,rfl⟩
    obtain ⟨merge,binding,_,_,_,_,_,edges⟩ := each point member
    exact named.phi_of_mem_incoming (edges ▸ List.mem_cons_self)
  · rintro _ ⟨point,member,rfl,unboxed,rfl⟩ source label edge
    obtain ⟨merge,binding,listed,closes,passes,bound,levity,edges⟩ := each point member
    rw [edges,List.mem_pair] at edge
    have read : point.name ∈ merge.cond.reads := by
      have merged := List.mem_map_of_mem (f := MergePoint.name) listed
      rw [closes.names] at merged
      exact Text.mem_sortDistinct_iff.mp (List.mem_of_mem_filter merged)
    obtain ⟨value,_⟩ := binding
    cases unboxed.symm.trans levity
    rcases edge with first | second
    · cases first
      exact (Draft.stands built filling passes _ _ bound).within
    · cases second
      obtain ⟨points,ended,enters,same⟩ := closes.entered
      rw [same] at listed
      obtain ⟨opening,inside,rfl⟩ := List.mem_map.mp listed
      rcases enters.carried_unboxed passes.sound inside unboxed with header | ⟨bound',n,last,after,carried⟩
      · have self : (opening.closed merge.latch).carried merge.after = opening.value := header
        rw [self]
        exact ⟨_,member,rfl,unboxed,rfl⟩
      · have constant : (opening.closed merge.latch).carried merge.after = .const n := carried
        rw [constant]
        by_contra other
        exact kept ⟨_,_,_,_,points,_,ended,value,bound',n,passes,enters,read,bound,last,after,other⟩
/-- A loop that binds the name to another constant has a phi with this tag and the other constant on an edge. -/
theorem Draft.fed_of_rebinds (built : Draft.build program.subject (.new options) = (.ok (),draft)) {fn : Function}
    (found : draft.entryFunction? = some fn) (rebinds : program.Rebinds options draft.signatures name c) :
    ∃ point ∈ draft.points, point.name = name ∧ point.levity = .unboxed c ∧ ∃ n, n ≠ c ∧ fn.Feeds point.value (.const n) := by
  obtain ⟨cond,body,env,f,points,after,ended,value,bound,n,passes,enters,read,before,_,last,other⟩ := rebinds
  obtain ⟨root,pending,above,sound,binds⟩ := passes.sound
  obtain ⟨_,_,_,_,first,frame,opened,same,ran,ranOpen⟩ := enters.opened
  cases same
  obtain ⟨_,_,_,opens,_⟩ := sound.opens binds ran ranOpen
  have listed : name ∈ points.map MergePoint.name := by
    rw [opens.names]
    exact List.mem_filter.mpr ⟨Text.mem_sortDistinct_iff.mpr read,by simp [before]⟩
  obtain ⟨point,member,rfl⟩ := List.mem_map.mp listed
  obtain ⟨binding,stands⟩ := opens.bindings point member
  cases before.symm.trans stands.bound
  have type : point.type = .i32 := stands.type.trans (binds _ _ before).2
  have carried : point.carried after = .const n := by
    simp [MergePoint.carried,last,stands.levity,type,Levity.sameKind,Value.type]
  obtain ⟨_,preheader,latch,found',inside,edges⟩ := Draft.edges_of_entered built passes enters member
  cases found.symm.trans found'
  refine ⟨_,inside,rfl,stands.levity,n,other,point.phi,point.type,latch,rfl,?_⟩
  rw [edges,carried]
  simp
/-- Whoever comes to the phi of a merge point sets its register. -/
theorem Draft.phi_set (built : Draft.build program.subject (.new options) = (.ok (),draft)) {fn : Function}
    (found : draft.entryFunction? = some fn) {point : MergePoint} (member : point ∈ draft.points) {target : Text} {index : Nat} {type : Ty}
    {edges : List (Value × Text)} (at_phi : fn.At target index (.phi point.phi type edges)) {s s' : Machine}
    (entered : s.enter fn target = some s') : ∃ datum, s'.registers point.phi = some datum := by
  obtain ⟨_,found',named,each⟩ := Draft.merged built
  cases found.symm.trans found'
  obtain ⟨merge,listed,_,settled,_⟩ := each point member
  obtain ⟨rest,code,_⟩ := settled.code
  have phi : merge.phi point ∈ merge.points.map merge.phi := List.mem_map_of_mem listed
  obtain ⟨index',here⟩ := Function.At.of_mem code (List.mem_append_left _ phi)
  obtain ⟨rfl,rfl⟩ := named.resultOnce _ _ _ _ _ _ point.phi at_phi here rfl rfl
  obtain ⟨instrs,code',_,_,_,_,set⟩ := Machine.enter_sets entered
  cases code.symm.trans code'
  have leading : ∀ instr ∈ merge.points.map merge.phi, instr.isPhi = true := by
    intro instr inside
    obtain ⟨other,_,rfl⟩ := List.mem_map.mp inside
    rfl
  rw [List.takeWhile_append_of_pos leading] at set
  exact Option.isSome_iff_exists.mp (set _ _ _ (List.mem_append_left _ phi))

end

/-- The value is the constant: no other comes in along the edges of phis, and the machine holds no other in any run. -/
structure Function.Tells (fn : Function) (value : Value) (c : Int) : Prop where
  edges : ∀ n, ReflTransGen fn.Feeds value (.const n) → n = c
  runs : ∀ module world label s datum, Machine.Reaches module fn world (.start label) s → s.value? value = some datum →
    datum = .word (.ofInt 32 c)

theorem Function.Constant.tells {fn : Function} {phis : Text → Prop} {c : Int} {value : Value} (constant : fn.Constant phis c)
    (named : fn.Named) (within : value.Within phis c) : fn.Tells value c where
  edges _ way := constant.reachable within way
  runs _ _ label _ _ reaches held := (reaches.steady named constant (Machine.steady_start label)).value? within held

/-- In a module that is built, the merge points of a name that are tagged with a constant have this constant as their value if, and
    only if, no loop takes the name over as this constant and hands it on as another. They have it then each time that their
    header is entered, and the name has it wherever lowering finds it unboxed with this constant. -/
theorem tags_true_unless_rebound (program : Program) (options : Options) (draft : Draft)
    (built : Draft.build program.subject (.new options) = (.ok (),draft)) :
    ∃ fn, draft.entryFunction? = some fn ∧ ∀ name c,
      ((∀ point ∈ draft.points, point.name = name → point.levity = .unboxed c → fn.Tells point.value c) ↔
        ¬ program.Rebinds options draft.signatures name c) ∧
      (¬ program.Rebinds options draft.signatures name c →
        (∀ point ∈ draft.points, point.name = name → point.levity = .unboxed c →
          ∀ module world label s s' target index type edges, Machine.Reaches module fn world (.start label) s →
            fn.At target index (.phi point.phi type edges) → s.enter fn target = some s' →
            s'.registers point.phi = some (.word (.ofInt 32 c))) ∧
        ∀ moment value, program.Passes options draft.signatures moment → moment.env.lookup? name = some ⟨value,.unboxed c⟩ →
          fn.Tells value c) := by
  obtain ⟨fn,found,named,_⟩ := Draft.merged built
  obtain ⟨_,arena,block,_,_,filling,_⟩ := Draft.entry_code built
  refine ⟨fn,found,fun name c => ⟨⟨fun truth rebinds => ?_,fun kept point member carries unboxed => ?_⟩,fun kept => ⟨?_,?_⟩⟩⟩
  · obtain ⟨point,member,carries,unboxed,n,other,feeds⟩ := Draft.fed_of_rebinds built found rebinds
    exact other ((truth point member carries unboxed).edges n (.single feeds))
  · exact (Draft.constant_tagged built found kept).tells named ⟨point,member,carries,unboxed,rfl⟩
  · intro point member carries unboxed module world label s s' target index type edges reaches at_phi entered
    have constant := Draft.constant_tagged built found kept
    obtain ⟨datum,held⟩ := Draft.phi_set built found member at_phi entered
    have steady := (reaches.steady named constant (Machine.steady_start label)).enter named constant entered
    rw [held,steady point.phi datum ⟨point,member,carries,unboxed,rfl⟩ held]
  · intro moment value passes bound
    exact (Draft.constant_tagged built found kept).tells named (Draft.stands built filling passes _ _ bound).within

/-- A loop in a loop; both read `n`, which is one, and count a cell down. -/
def steadyLoops : Program :=
  .block (.step (.bindConst (lit "n") (.literal 1)) (.step (.bindMut (lit "x") (.literal 2))
    (.step (.discard (.loop (.binary (.var (lit "x")) .mul (.var (lit "n")))
      (.step (.discard (.loop (.binary (.var (lit "x")) .sub (.var (lit "n")))
        (.step (.assign (lit "x") (.var (lit "n"))) (.result (.literal 0)))))
      (.step (.assign (lit "x") (.binary (.var (lit "x")) .sub (.var (lit "n")))) (.result (.literal 0))))))
    (.result (.var (lit "n"))))))
/-- The phi of the inner loop takes that of the outer one, and both are one. -/
theorem tags_true_unless_rebound_steadyLoops :
    (Draft.build steadyLoops.subject (.new {})).1 = .ok () ∧
    (Draft.build steadyLoops.subject (.new {})).2.points.map (fun point => (point.name,point.levity)) =
      [(lit "n",.unboxed 1),(lit "x",.boxed),(lit "n",.unboxed 1),(lit "x",.boxed)] ∧
    ¬ steadyLoops.Rebinds {} (Draft.build steadyLoops.subject (.new {})).2.signatures (lit "n") 1 ∧
    ∃ fn, (Draft.build steadyLoops.subject (.new {})).2.entryFunction? = some fn ∧
      ∀ point ∈ (Draft.build steadyLoops.subject (.new {})).2.points, point.name = lit "n" → point.levity = .unboxed 1 →
        fn.Tells point.value 1 := by
  have built : (Draft.build steadyLoops.subject (.new {})).1 = .ok () := Attempt.eq_ok_of_isOk (by decide +kernel)
  have kept : ¬ steadyLoops.Rebinds {} (Draft.build steadyLoops.subject (.new {})).2.signatures (lit "n") 1 := by
    refine Program.not_rebinds fun loop member _ bound => ?_
    have none : ∀ loop ∈ steadyLoops.loops, loop.2.lastBinding? (lit "n") = none := by decide +kernel
    rw [none loop member]
    exact fun same => by cases same
  obtain ⟨fn,entry,each⟩ := tags_true_unless_rebound steadyLoops {} _ (Attempt.run_of_fst built)
  exact ⟨built,by decide +kernel,kept,fn,entry,(each _ _).1.mpr kept⟩

/-! ### A tag that is not true -/

/-- The machine after a number of steps. -/
def Machine.after (module : Module) (fn : Function) (world : World) : Nat → Machine → Option Machine
  | 0, s => some s
  | steps + 1, s =>
    match s.step module fn world with
    | some (.next s') => Machine.after module fn world steps s'
    | _ => none

theorem Machine.reaches_of_after {module : Module} {fn : Function} {world : World} {s s' : Machine} {steps : Nat}
    (ran : Machine.after module fn world steps s = some s') : Machine.Reaches module fn world s s' := by
  induction steps generalizing s with
  | zero =>
    cases ran
    exact .refl
  | succ steps ih =>
    rw [Machine.after] at ran
    split at ran
    · rename_i next turn
      exact .head turn (ih ran)
    · cases ran

/-- A loop that counts a cell down while its body binds `n`, which is one before the loop, to two. -/
def rebinding : Program :=
  .block (.step (.bindConst (lit "n") (.literal 1)) (.step (.bindMut (lit "x") (.literal 2))
    (.step (.discard (.loop (.binary (.var (lit "x")) .mul (.var (lit "n")))
      (.step (.assign (lit "x") (.binary (.var (lit "x")) .sub (.literal 1)))
        (.step (.bindConst (lit "n") (.literal 2)) (.result (.literal 0))))))
    (.result (.literal 0)))))

theorem rebinding_built : Draft.build rebinding.subject (.new {}) = (.ok (),(Draft.build rebinding.subject (.new {})).2) :=
  Attempt.run_of_fst (Attempt.eq_ok_of_isOk (by decide +kernel))
theorem rebinding_point : ∃ point ∈ (Draft.build rebinding.subject (.new {})).2.points,
    point.phi = lit "n" ∧ point.type = .i32 ∧ point.levity = .unboxed 1 := by
  decide +kernel
/-- Not every tag is true: here the phi is tagged with one, has an edge with two, and is two in the second round. -/
theorem tag_belied :
    (¬ ∀ (program : Program) (options : Options) (draft : Draft), Draft.build program.subject (.new options) = (.ok (),draft) →
      ∀ fn, draft.entryFunction? = some fn → ∀ point ∈ draft.points, ∀ c, point.levity = .unboxed c →
        ∀ n, ReflTransGen fn.Feeds point.value (.const n) → n = c) ∧
    ¬ ∀ (program : Program) (options : Options) (draft : Draft), Draft.build program.subject (.new options) = (.ok (),draft) →
      ∀ fn, draft.entryFunction? = some fn → ∀ point ∈ draft.points, ∀ c, point.levity = .unboxed c →
        ∀ world s datum, Machine.Reaches draft.module fn world (.start (lit "entry")) s → s.value? point.value = some datum →
          datum = .word (.ofInt 32 c) := by
  obtain ⟨point,member,phi,type,unboxed⟩ := rebinding_point
  have self : point.value = .reg (lit "n") .i32 := by rw [MergePoint.value,phi,type]
  constructor
  · intro all
    have edges : (Draft.build rebinding.subject (.new {})).2.entryFunction?.map (·.incoming (lit "n")) =
        some [(.const 1,lit "start"),(.const 2,lit "loop")] := by decide +kernel
    obtain ⟨fn,entry,incoming⟩ := Option.map_eq_some_iff.mp edges
    have feeds : fn.Feeds point.value (.const 2) := ⟨lit "n",.i32,lit "loop",self,by simp [incoming]⟩
    have equal := all rebinding {} _ rebinding_built fn entry point member 1 unboxed 2 (.single feeds)
    exact absurd equal (by decide)
  · intro all
    have ran : (Draft.build rebinding.subject (.new {})).2.entryFunction?.bind (fun fn =>
        (Machine.after (Draft.build rebinding.subject (.new {})).2.module fn (fun _ _ _ => 0) 14 (.start (lit "entry"))).bind
          (·.registers (lit "n"))) = some (.word 2) := by decide +kernel
    obtain ⟨fn,entry,ran⟩ := Option.bind_eq_some_iff.mp ran
    obtain ⟨s,after,held⟩ := Option.bind_eq_some_iff.mp ran
    have value : s.value? point.value = some (.word 2) := by rw [self]; exact held
    have equal := all rebinding {} _ rebinding_built fn entry point member 1 unboxed _ s _ (Machine.reaches_of_after after) value
    exact absurd equal (by decide)

end Lev
