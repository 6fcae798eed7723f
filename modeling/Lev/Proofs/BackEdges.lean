import Lev.Proofs.Moments

/-!
What the back edges of loops carry. After its body, a loop hands each of the names that it merges on to its next
round. Main statement: the edge from the latch carries the cell of the last statement of the body that binds the name,
if this is a mutable binding and the name stands for a cell; the constant of this statement, if it is an immutable one
and the name stands for a value; and the phi itself in all other cases. Bindings further inside play no part, and
neither does the comparison of types.
-/
namespace Lev
open Lev.Frame (Advance)

/-! ### The last binding of a name -/

/-- The last statement of the block that binds the name, inner blocks apart. -/
def Block.lastBinding? (b : Block) (name : Text) : Option Stmt := b.stmts.reverse.find? (·.binder? = some name)

/-- Lowering a block from an environment and a frame comes to one of its statements, and what follows it, in others. -/
inductive Block.Comes (signatures : Table Nat) : Block → Environment → Frame → Stmt → Block → Environment → Frame → Prop
  | here {s : Stmt} {rest : Block} {env : Environment} {f : Frame} : Comes signatures (.step s rest) env f s rest env f
  | later {first s : Stmt} {block rest : Block} {env env₁ env₂ : Environment} {f f₁ f₂ : Frame}
      (ran : first.lower signatures env f = (.ok env₁,f₁)) (comes : Comes signatures block env₁ f₁ s rest env₂ f₂) :
      Comes signatures (.step first block) env f s rest env₂ f₂

section
variable {signatures : Table Nat} {env env' : Environment} {f f' : Frame} {name : Text}

theorem Block.lastBinding?_step (first : Stmt) (rest : Block) (name : Text) :
    (Block.step first rest).lastBinding? name =
      (rest.lastBinding? name).or (if first.binder? = some name then some first else none) := by
  by_cases binds : first.binder? = some name
  · simp [lastBinding?,stmts,List.find?_append,binds]
  · simp [lastBinding?,stmts,List.find?_append,binds]
theorem Block.lastBinding?_eq_none {b : Block} : b.lastBinding? name = none ↔ name ∉ b.binders := by
  simp only [lastBinding?,binders,List.find?_eq_none,List.mem_reverse,List.mem_filterMap,decide_eq_true_eq,not_exists,not_and]
theorem Block.binder?_lastBinding {b : Block} {s : Stmt} (last : b.lastBinding? name = some s) : s.binder? = some name := by
  simpa using List.find?_some last
/-- A mutable binding leaves its name bound to the cell that it allocates first. -/
theorem Stmt.lower_bindMut {value : Expr} (sound : Moment.Sound signatures ⟨.stmt (.bindMut name value),env,f⟩)
    (run : (Stmt.bindMut name value).lower signatures env f = (.ok env',f')) :
    env' = env.bind name (.reg (f.fresh name) .pointer) .boxed ∧
      f.arena.cells ++ [f.newCell name] <+: f'.arena.cells := by
  simp only [Stmt.lower] at run
  obtain ⟨base,_,ranName,later⟩ := Attempt.bind_eq_ok.mp run
  obtain ⟨rfl,rfl,carried⟩ := Build.identifier_eq_ok ranName
  obtain ⟨cell,_,ranCell,later⟩ := Attempt.bind_eq_ok.mp later
  cases (Build.allocate_run ..).symm.trans ranCell
  obtain ⟨bound,f₁,ran,later⟩ := Attempt.bind_eq_ok.mp later
  obtain ⟨_,_,ranStore,last⟩ := Attempt.bind_eq_ok.mp later
  cases (Build.emitUnnamed_run ..).symm.trans ranStore
  cases last
  have ends : Moment.Ends signatures ⟨.expr value,env,_⟩ f₁ := ⟨bound,ran⟩
  have inner := (Moment.Leads.bindMut carried : Moment.Leads signatures _ ⟨.expr value,env,_⟩).sound sound
  exact ⟨rfl,(ends.precedes inner).cells⟩
/-- An immutable binding leaves its name bound to a constant. -/
theorem Stmt.lower_bindConst {value : Expr} (run : (Stmt.bindConst name value).lower signatures env f = (.ok env',f')) :
    ∃ n, value.lower signatures env f = (.ok (.const n),f') ∧ env' = env.bind name (.const n) (.unboxed n) := by
  simp only [Stmt.lower] at run
  obtain ⟨bound,_,ran,last⟩ := Attempt.bind_eq_ok.mp run
  cases bound with
  | reg => cases last
  | const n =>
    cases last
    exact ⟨n,ran,rfl⟩
/-- After a block, a name that it binds stands for what the last binding of it has given. -/
theorem Block.lower_last (b : Block) {env after : Environment} {f ended : Frame} {value : Value} {s : Stmt}
    (sound : Moment.Sound signatures ⟨.block b,env,f⟩) (run : b.lower signatures env f = (.ok (value,after),ended))
    (last : b.lastBinding? name = some s) :
    ∃ rest env₁ f₁ env₂ f₂, b.Comes signatures env f s rest env₁ f₁ ∧ name ∉ rest.binders ∧
      Moment.Sound signatures ⟨.stmt s,env₁,f₁⟩ ∧ s.lower signatures env₁ f₁ = (.ok env₂,f₂) ∧
      after.lookup? name = env₂.lookup? name ∧ f₂.arena.cells <+: ended.arena.cells := by
  match b with
  | .result _ => cases last
  | .step first rest =>
    obtain ⟨env₁,f₁,ranFirst,ranRest⟩ := Attempt.bind_eq_ok.mp run
    have soundRest : Moment.Sound signatures ⟨.block rest,env₁,f₁⟩ := (Moment.Leads.rest ranFirst).sound sound
    rw [Block.lastBinding?_step] at last
    cases found : rest.lastBinding? name with
    | some other =>
      rw [found] at last
      cases last
      obtain ⟨block,env₂,f₂,env₃,f₃,comes,unbound,facts⟩ := rest.lower_last soundRest ranRest found
      exact ⟨block,env₂,f₂,env₃,f₃,.later ranFirst comes,unbound,facts⟩
    | none =>
      rw [found,Option.none_or] at last
      obtain ⟨_,same⟩ := Option.ite_none_right_eq_some.mp last
      cases same
      have unbound := Block.lastBinding?_eq_none.mp found
      have ends : Moment.Ends signatures ⟨.block rest,env₁,f₁⟩ ended := ⟨_,ranRest⟩
      exact ⟨rest,env,f,env₁,f₁,.here,unbound,Moment.Leads.first.sound sound,ranFirst,rest.lookup?_lower ranRest unbound,
        (ends.precedes soundRest).cells⟩

/-- What a block that was lowered leaves the name bound to: what it was bound to before, if no statement binds it, and otherwise the
    constant or the cell of the last one. -/
inductive Block.Leaves (signatures : Table Nat) (b : Block) (env : Environment) (f : Frame) (after : Environment) (ended : Frame)
    (name : Text) : Prop
  | kept (none : b.lastBinding? name = none) (found : after.lookup? name = env.lookup? name) : Leaves signatures b env f after ended name
  | constant {value : Expr} {rest : Block} {env₁ : Environment} {f₁ f₂ : Frame} {n : Int}
      (last : b.lastBinding? name = some (.bindConst name value)) (comes : b.Comes signatures env f (.bindConst name value) rest env₁ f₁)
      (unbound : name ∉ rest.binders) (ran : value.lower signatures env₁ f₁ = (.ok (.const n),f₂))
      (found : after.lookup? name = some ⟨.const n,.unboxed n⟩) : Leaves signatures b env f after ended name
  | cell {value : Expr} {rest : Block} {env₁ : Environment} {f₁ : Frame}
      (last : b.lastBinding? name = some (.bindMut name value)) (comes : b.Comes signatures env f (.bindMut name value) rest env₁ f₁)
      (unbound : name ∉ rest.binders)
      (made : f₁.arena.cells ++ [f₁.newCell name] <+: ended.arena.cells)
      (found : after.lookup? name = some ⟨.reg (f₁.fresh name) .pointer,.boxed⟩) : Leaves signatures b env f after ended name

theorem Block.lower_leaves {b : Block} {after : Environment} {ended : Frame} {value : Value}
    (sound : Moment.Sound signatures ⟨.block b,env,f⟩) (run : b.lower signatures env f = (.ok (value,after),ended)) (name : Text) :
    b.Leaves signatures env f after ended name := by
  cases found : b.lastBinding? name with
  | none => exact .kept found (b.lookup?_lower run (Block.lastBinding?_eq_none.mp found))
  | some s =>
    obtain ⟨rest,env₁,f₁,env₂,f₂,comes,unbound,soundLast,ran,lookup,cells⟩ := b.lower_last sound run found
    have named := Block.binder?_lastBinding found
    cases s with
    | discard _ | assign _ _ => cases named
    | bindConst key bound =>
      cases named
      obtain ⟨n,ranBound,rfl⟩ := Stmt.lower_bindConst ran
      rw [Environment.lookup?_bind,if_pos rfl] at lookup
      exact .constant found comes unbound ranBound lookup
    | bindMut key bound =>
      cases named
      obtain ⟨rfl,grown⟩ := Stmt.lower_bindMut soundLast ran
      rw [Environment.lookup?_bind,if_pos rfl] at lookup
      exact .cell found comes unbound (grown.trans cells) lookup

end

/-! ### What the latch carries -/

/-- What the latch would carry for a merge point if types were not compared. -/
def MergePoint.carriedByKind (point : MergePoint) (env : Environment) : Value :=
  match env.lookup? point.name with
  | some binding => if binding.levity.sameKind point.levity then binding.value else point.value
  | none => point.value

/-- What the edge of a merge point from the latch carries in a function that has been filled up to `done`, given that the
    body of the loop was lowered from `env` and `f`. -/
structure MergePoint.Latched (signatures : Table Nat) (body : Block) (env : Environment) (f done : Frame) (point : MergePoint)
    (carried : Value) : Prop where
  cell : ∀ value, body.lastBinding? point.name = some (.bindMut point.name value) → point.levity = .boxed →
    ∃ rest env₁ f₁ cell f₂, body.Comes signatures env f (.bindMut point.name value) rest env₁ f₁ ∧ point.name ∉ rest.binders ∧
      Build.allocate point.name f₁ = (.ok cell,f₂) ∧ done.arena.cells[f₁.arena.cells.length]? = some cell ∧ carried = cell.pointer
  constant : ∀ value c, body.lastBinding? point.name = some (.bindConst point.name value) → point.levity = .unboxed c →
    ∃ rest env₁ f₁ n f₂, body.Comes signatures env f (.bindConst point.name value) rest env₁ f₁ ∧ point.name ∉ rest.binders ∧
      value.lower signatures env₁ f₁ = (.ok (.const n),f₂) ∧ carried = .const n
  header : (∀ value, body.lastBinding? point.name = some (.bindMut point.name value) → point.levity ≠ .boxed) →
    (∀ value c, body.lastBinding? point.name = some (.bindConst point.name value) → point.levity ≠ .unboxed c) → carried = point.value

namespace LoopRun
variable {signatures : Table Nat} {root : Text} {pending : List Text} {above : Text → List Text} {cond : Expr} {body : Block}
variable {env : Environment} {f : Frame} (loop : LoopRun signatures root pending above cond body env f) {point : MergePoint}

theorem type_eq (binds : f.Binds above env) (member : point ∈ loop.points) :
    point.type = if point.levity = .boxed then .pointer else .i32 := by
  obtain ⟨binding,stands⟩ := loop.opens.bindings point member
  rw [stands.type,stands.levity,(binds point.name binding stands.bound).2]
  simp [Binding.isBoxed]
/-- Names that are represented alike stand for values of the same type. -/
theorem carried_eq_byKind (binds : f.Binds above env) (member : point ∈ loop.points) :
    point.carried loop.after = point.carriedByKind loop.after := by
  unfold MergePoint.carried MergePoint.carriedByKind
  cases found : loop.after.lookup? point.name with
  | none => rfl
  | some binding =>
    have type := (loop.bindsEnded _ _ found).2
    have alike : binding.levity.sameKind point.levity = true → binding.value.type = point.type := by
      rw [type,loop.type_eq binds member]
      unfold Binding.isBoxed
      cases binding.levity <;> cases point.levity <;> simp [Levity.sameKind]
    by_cases same : binding.levity.sameKind point.levity = true
    · simp [same,alike same]
    · simp [same]
theorem latched (sound : f.Sound signatures root pending above) (binds : f.Binds above env) (member : point ∈ loop.points) :
    point.Latched signatures body (MergePoint.bindAll env loop.points) loop.opened loop.done (point.carried loop.after) := by
  have inside : Moment.Sound signatures ⟨.block body,MergePoint.bindAll env loop.points,loop.opened⟩ :=
    (Moment.Leads.body loop.ranFirst loop.ranOpen).sound ⟨root,pending,above,sound,binds⟩
  rw [loop.carried_eq_byKind binds member,MergePoint.carriedByKind]
  cases Block.lower_leaves inside loop.ranBody point.name with
  | kept none found =>
    refine ⟨fun _ last => ?_,fun _ _ last => ?_,fun _ _ => ?_⟩
    · cases none.symm.trans last
    · cases none.symm.trans last
    · rw [found,MergePoint.lookup?_bindAll_of_mem env loop.names_nodup member]
      simp
  | constant last comes unbound ran found =>
    rw [found]
    refine ⟨fun _ other => ?_,fun _ c same unboxed => ?_,fun _ differs => ?_⟩
    · cases last.symm.trans other
    · cases last.symm.trans same
      exact ⟨_,_,_,_,_,comes,unbound,ran,by simp [unboxed,Levity.sameKind]⟩
    · cases kind : point.levity with
      | boxed => rfl
      | unboxed c => exact absurd kind (differs _ c last)
  | @cell _ rest env₁ f₁ last comes unbound made found =>
    rw [found]
    refine ⟨fun _ same boxed => ?_,fun _ _ other => ?_,fun differs _ => ?_⟩
    · cases last.symm.trans same
      refine ⟨rest,env₁,f₁,_,_,comes,unbound,Build.allocate_run _ _,?_,by simp [boxed,Levity.sameKind]⟩
      obtain ⟨more,grown⟩ := made.trans loop.precedes_done.2.1.cells
      rw [← grown]
      simp
    · cases last.symm.trans other
    · cases kind : point.levity with
      | boxed => exact absurd kind (differs _ last)
      | unboxed c => rfl

end LoopRun

/-- For every loop that is lowered successfully in the course of a build, the merge points of the loop are the last ones that
    are listed afterwards, and the edge of each of them from the latch carries what the last binding of its name in the body
    says; to compare types as well changes nothing. -/
theorem latch_carries_last_binding (program : Program) (options : Options) (signatures : Table Nat) (cond : Expr) (body : Block)
    (env : Environment) (f f' : Frame) (value : Value)
    (passes : program.Passes options signatures ⟨.expr (.loop cond body),env,f⟩)
    (lowered : (Expr.loop cond body).lower signatures env f = (.ok value,f')) :
    ∃ (points earlier : List MergePoint) (opened ended : Frame) (ignored : Value) (after : Environment) (preheader latch : Text),
      points.map MergePoint.name = merged cond.reads env.names ∧
      Moment.Enters signatures points ⟨.expr (.loop cond body),env,f⟩ ⟨.block body,MergePoint.bindAll env points,opened⟩ ∧
      body.lower signatures (MergePoint.bindAll env points) opened = (.ok (ignored,after),ended) ∧
      f'.points = earlier ++ points.map (MergePoint.closed latch) ∧
      ∀ point ∈ points, ∃ initial carried, f'.function.incoming point.phi = [(initial,preheader),(carried,latch)] ∧
        point.Latched signatures body (MergePoint.bindAll env points) opened f' carried ∧
        carried = point.carried after ∧ carried = point.carriedByKind after := by
  obtain ⟨root,pending,above,sound,binds⟩ := passes.sound
  obtain ⟨_,done,_⟩ := (Expr.lower_sound signatures _ sound binds).ok lowered
  obtain ⟨_,loop,rfl⟩ := LoopRun.of_lower sound binds lowered
  have names : loop.points.map MergePoint.name = merged cond.reads env.names := by
    have same : loop.merge.points.map MergePoint.name = loop.points.map MergePoint.name := List.map_map
    exact same.symm.trans (loop.settled_done.joins loop.closes done.named).names
  refine ⟨loop.points,loop.latch.points,loop.opened,loop.ended,loop.ignored,loop.after,loop.preheader.block,loop.latch.block,names,
    .body loop.ranFirst loop.ranOpen,loop.ranBody,rfl,fun point member => ?_⟩
  have listed : point.closed loop.latch.block ∈ loop.merge.points := List.mem_map_of_mem member
  have edges := loop.settled_done.incoming_eq done.named listed
  exact ⟨point.initial env,point.carried loop.after,edges,loop.latched sound binds member,rfl,loop.carried_eq_byKind binds member⟩

/-- A condition that reads three names. -/
def shadowedCond : Expr := .binary (.binary (.var (lit "n")) .sub (.var (lit "k"))) .mul (.var (lit "m"))
/-- A body that binds them again, one of them otherwise than before, and one of them once more further inside. -/
def shadowingBody : Block :=
  .step (.bindMut (lit "n") (.literal 0)) (.step (.bindConst (lit "k") (.literal 2)) (.step (.bindMut (lit "m") (.literal 5))
    (.step (.discard (.scope (.step (.bindConst (lit "k") (.literal 4)) (.result (.var (lit "k")))))) (.result (.literal 0)))))
/-- A program with this loop, around which one of the names stands for a cell and two for constants. -/
def shadowing : Program :=
  .block (.step (.bindMut (lit "n") (.literal 3)) (.step (.bindConst (lit "k") (.literal 1)) (.step (.bindConst (lit "m") (.literal 7))
    (.step (.discard (.loop shadowedCond shadowingBody)) (.result (.literal 0))))))
/-- What the names stand for where the loop is met. -/
def shadowedEnv : Environment :=
  ((Environment.empty.bind (lit "n") (.reg (lit "n") .pointer) .boxed).bind (lit "k") (.const 1) (.unboxed 1)).bind (lit "m") (.const 7)
    (.unboxed 7)
/-- The frame in which the loop is met. -/
def shadowedFrame : Frame := ((Stmt.bindMut (lit "n") (.literal 3)).lower [] .empty (shadowing.start {} []).frame).2
theorem shadowing_passes : shadowing.Passes {} [] ⟨.expr (.loop shadowedCond shadowingBody),shadowedEnv,shadowedFrame⟩ := by
  have ranCell : (Stmt.bindMut (lit "n") (.literal 3)).lower [] .empty (shadowing.start {} []).frame =
      (.ok (Environment.empty.bind (lit "n") (.reg (lit "n") .pointer) .boxed),shadowedFrame) :=
    Attempt.run_of_fst (Attempt.eq_ok_of_toOption (by decide +kernel))
  exact ⟨[],.tail (.tail (.tail (.tail (.single (.rest ranCell)) (.rest rfl)) (.rest rfl)) .first) .discard⟩
/-- A loop with all three cases: a new constant for `k`, the phi for `m`, and a new cell for `n`. -/
theorem latch_carries_last_binding_shadowing :
    shadowing.Passes {} [] ⟨.expr (.loop shadowedCond shadowingBody),shadowedEnv,shadowedFrame⟩ ∧
    ∃ f', (Expr.loop shadowedCond shadowingBody).lower [] shadowedEnv shadowedFrame = (.ok (.const 0),f') ∧
    ∃ (points earlier : List MergePoint) (opened : Frame) (preheader latch : Text),
      points.map MergePoint.name = [lit "k",lit "m",lit "n"] ∧ f'.points = earlier ++ points.map (MergePoint.closed latch) ∧
      ∀ point ∈ points, ∃ initial carried, f'.function.incoming point.phi = [(initial,preheader),(carried,latch)] ∧
        point.Latched [] shadowingBody (MergePoint.bindAll shadowedEnv points) opened f' carried := by
  have lowered : (Expr.loop shadowedCond shadowingBody).lower [] shadowedEnv shadowedFrame = (.ok (.const 0),_) :=
    Attempt.run_of_fst (Attempt.eq_ok_of_toOption (by decide +kernel))
  obtain ⟨points,earlier,opened,_,_,_,preheader,latch,names,_,_,listed,each⟩ :=
    latch_carries_last_binding shadowing {} [] shadowedCond shadowingBody shadowedEnv shadowedFrame _ _ shadowing_passes lowered
  refine ⟨shadowing_passes,_,lowered,points,earlier,opened,preheader,latch,names.trans (by decide +kernel),listed,fun point member => ?_⟩
  obtain ⟨initial,carried,edges,latched,_⟩ := each point member
  exact ⟨initial,carried,edges,latched⟩

end Lev
