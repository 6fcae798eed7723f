import Lev.Build.Draft
import Lev.Proofs.Agreement
import Lev.Proofs.Arities

/-!
What lowering depends on, in every state of a build. Environments may differ in the order of their names and in all names
that the syntax does not mention. Main statement: if two environments have the same bindings for the names that the syntax
reads or assigns, it is lowered from every state to the same value or the same fault, and leaves the same state; the
environments after a block agree on these names again, and on those that its statements bind. This holds where a function
is filled and where there is none yet.
-/
namespace Lev
open Attempt (Alike)

/-! ### Names that are assigned -/

/-- Somewhere inside the syntax the name is assigned. -/
def Node.Assigns (n : Node) (name : Text) : Prop := ∃ value, Relation.ReflTransGen Node.Part n (.stmt (.assign name value))

/-- The variables that syntax reads or assigns, wherever they are bound. -/
def Node.mentions : Node → List Text
  | .expr e => e.mentions
  | .stmt s => s.mentions
  | .block b => b.mentions

theorem Node.Part.assigns {n part : Node} (inside : n.Part part) {name : Text} (assigned : part.Assigns name) : n.Assigns name := by
  obtain ⟨value,way⟩ := assigned
  exact ⟨value,.head inside way⟩
theorem Args.mentions_eq (args : Args) : args.mentions = args.toList.flatMap Expr.mentions := by
  cases args with
  | nil => rfl
  | cons first rest => simp [Args.mentions,Args.toList,Args.mentions_eq rest]
theorem Node.Part.mentions {n part : Node} (inside : n.Part part) {name : Text} (member : name ∈ part.mentions) : name ∈ n.mentions := by
  cases inside with
  | left | cond | first => exact List.mem_append_left _ member
  | right | body | rest => exact List.mem_append_right _ member
  | arg callee inside =>
    refine (Args.mentions_eq _ ▸ List.mem_flatMap.mpr ⟨_,inside,member⟩ : name ∈ Args.mentions _)
  | assign => exact List.mem_cons_of_mem _ member
  | scope | discard | bindConst | bindMut | result => exact member
theorem Node.mentions_of_assigns {n : Node} {name : Text} (assigned : n.Assigns name) : name ∈ n.mentions := by
  obtain ⟨value,way⟩ := assigned
  induction way using Relation.ReflTransGen.head_induction_on with
  | refl => exact List.mem_cons_self
  | head inside _ member => exact inside.mentions member

mutual

theorem Expr.assigns_of_targets (e : Expr) {name : Text} (target : name ∈ e.targets) : (Node.expr e).Assigns name := by
  match e with
  | .literal _ => cases target
  | .var _ => cases target
  | .binary left op right =>
    rcases List.mem_append.mp target with early | late
    · exact (Node.Part.left left op right).assigns (left.assigns_of_targets early)
    · exact (Node.Part.right left op right).assigns (right.assigns_of_targets late)
  | .call callee args =>
    obtain ⟨arg,inside,assigned⟩ := args.assigns_of_targets target
    exact (Node.Part.arg callee inside).assigns assigned
  | .scope body => exact (Node.Part.scope body).assigns (body.assigns_of_targets target)
  | .loop cond body =>
    rcases List.mem_append.mp target with early | late
    · exact (Node.Part.cond cond body).assigns (cond.assigns_of_targets early)
    · exact (Node.Part.body cond body).assigns (body.assigns_of_targets late)

theorem Args.assigns_of_targets (args : Args) {name : Text} (target : name ∈ args.targets) :
    ∃ arg ∈ args.toList, (Node.expr arg).Assigns name := by
  match args with
  | .nil => cases target
  | .cons first rest =>
    rcases List.mem_append.mp target with early | late
    · exact ⟨first,List.mem_cons_self,first.assigns_of_targets early⟩
    · obtain ⟨arg,inside,assigned⟩ := rest.assigns_of_targets late
      exact ⟨arg,List.mem_cons_of_mem _ inside,assigned⟩

theorem Stmt.assigns_of_targets (s : Stmt) {name : Text} (target : name ∈ s.targets) : (Node.stmt s).Assigns name := by
  match s with
  | .discard value => exact (Node.Part.discard value).assigns (value.assigns_of_targets target)
  | .bindConst bound value => exact (Node.Part.bindConst bound value).assigns (value.assigns_of_targets target)
  | .bindMut bound value => exact (Node.Part.bindMut bound value).assigns (value.assigns_of_targets target)
  | .assign assigned value =>
    rcases List.mem_cons.mp target with rfl | deeper
    · exact ⟨value,.refl⟩
    · exact (Node.Part.assign assigned value).assigns (value.assigns_of_targets deeper)

theorem Block.assigns_of_targets (b : Block) {name : Text} (target : name ∈ b.targets) : (Node.block b).Assigns name := by
  match b with
  | .result value => exact (Node.Part.result value).assigns (value.assigns_of_targets target)
  | .step first rest =>
    rcases List.mem_append.mp target with early | late
    · exact (Node.Part.first first rest).assigns (first.assigns_of_targets early)
    · exact (Node.Part.rest first rest).assigns (rest.assigns_of_targets (List.mem_filter.mp late).1)

end

/-! ### Where there is no function to fill -/

mutual

theorem Expr.constant_agree (signatures : Table Nat) (e : Expr) {env env' : Environment}
    (reads : ∀ name ∈ e.reads, env.Agree env' name) (targets : ∀ name ∈ e.targets, env.Agree env' name) :
    e.constant signatures env = e.constant signatures env' := by
  match e with
  | .literal _ => rfl
  | .var name =>
    simp only [Expr.constant]
    rw [(reads name List.mem_cons_self).resolve]
  | .binary left op right =>
    obtain ⟨leftReads,rightReads⟩ := List.forall_mem_append.mp reads
    obtain ⟨leftTargets,rightTargets⟩ := List.forall_mem_append.mp targets
    simp only [Expr.constant]
    rw [left.constant_agree signatures leftReads leftTargets,right.constant_agree signatures rightReads rightTargets]
  | .call callee args =>
    simp only [Expr.constant]
    rw [args.constant_agree signatures reads targets]
  | .scope body =>
    -- The bodies have different environments as results, so equality comes back only once these are dropped.
    have alike : Alike Eq (Attempt.ofExcept ((Expr.scope body).constant signatures env) : Session Value)
        (Attempt.ofExcept ((Expr.scope body).constant signatures env')) := by
      simp only [Expr.constant,Attempt.ofExcept_bind]
      refine (body.constant_agree signatures reads targets).bind fun result result' related => ?_
      exact .pure related.1
    exact congrArg Prod.fst (congrFun alike.eq (.new {}))
  | .loop _ _ => rfl

theorem Args.constant_agree (signatures : Table Nat) (args : Args) {env env' : Environment}
    (reads : ∀ name ∈ args.reads, env.Agree env' name) (targets : ∀ name ∈ args.targets, env.Agree env' name) :
    args.constant signatures env = args.constant signatures env' := by
  match args with
  | .nil => rfl
  | .cons first rest =>
    obtain ⟨firstReads,restReads⟩ := List.forall_mem_append.mp reads
    obtain ⟨firstTargets,restTargets⟩ := List.forall_mem_append.mp targets
    simp only [Args.constant]
    rw [first.constant_agree signatures firstReads firstTargets,rest.constant_agree signatures restReads restTargets]

theorem Stmt.constant_agree (signatures : Table Nat) (s : Stmt) {env env' : Environment}
    (reads : ∀ name ∈ s.reads, env.Agree env' name) (targets : ∀ name ∈ s.targets, env.Agree env' name) :
    Alike (fun after after' => ∀ name, env.Agree env' name ∨ s.binder? = some name → after.Agree after' name)
      (Attempt.ofExcept (s.constant signatures env) : Session Environment) (Attempt.ofExcept (s.constant signatures env')) := by
  match s with
  | .discard value =>
    simp only [Stmt.constant,Attempt.ofExcept_bind]
    rw [value.constant_agree signatures reads targets]
    exact .after fun _ => .pure fun name kept => kept.resolve_right (by simp [Stmt.binder?])
  | .bindConst bound value =>
    simp only [Stmt.constant,Attempt.ofExcept_bind]
    rw [value.constant_agree signatures reads targets]
    refine .after fun result => ?_
    split
    · exact .fail _
    · refine .pure fun name kept => ?_
      rcases kept with agree | binder
      · exact agree.bind _ _ _
      · cases binder
        exact Environment.agree_bind_self _ _ _ _ _
  | .bindMut _ _ => exact .fail _
  | .assign target value =>
    obtain ⟨here,later⟩ := List.forall_mem_cons.mp targets
    simp only [Stmt.constant,Attempt.ofExcept_bind]
    rw [here.assignable,value.constant_agree signatures reads later]
    exact .after fun address => .after fun result => .fail _

theorem Block.constant_agree (signatures : Table Nat) (b : Block) {env env' : Environment}
    (reads : ∀ name ∈ b.reads, env.Agree env' name) (targets : ∀ name ∈ b.targets, env.Agree env' name) :
    Alike (fun result result' => result.1 = result'.1 ∧
        ∀ name, env.Agree env' name ∨ name ∈ b.binders → result.2.Agree result'.2 name)
      (Attempt.ofExcept (b.constant signatures env) : Session (Value × Environment))
      (Attempt.ofExcept (b.constant signatures env')) := by
  match b with
  | .result value =>
    simp only [Block.constant,Attempt.ofExcept_bind]
    rw [value.constant_agree signatures reads targets]
    exact .after fun _ => .pure ⟨rfl,fun _ kept => kept.resolve_right List.not_mem_nil⟩
  | .step first rest =>
    obtain ⟨firstReads,restReads⟩ := List.forall_mem_append.mp reads
    obtain ⟨firstTargets,_⟩ := List.forall_mem_append.mp targets
    simp only [Block.constant,Attempt.ofExcept_bind]
    refine (first.constant_agree signatures firstReads firstTargets).bind fun after after' kept => ?_
    have readsRest (name : Text) (read : name ∈ rest.reads) : after.Agree after' name := kept name (.inl (restReads name read))
    refine (rest.constant_agree signatures readsRest (Block.targets_rest kept targets)).mono fun _ _ related => ?_
    exact ⟨related.1,fun name member => related.2 name (Block.binders_rest kept member)⟩

end

/-! ### States of a build -/

/-- Steps that are alike inside a function and without one are alike in a draft. -/
theorem Draft.fill_alike {α β : Type} {same : α → β → Prop} {work : Build α} {work' : Build β} {idle : Except Fault α}
    {idle' : Except Fault β} (inside : Alike same work work')
    (outside : Alike same (Attempt.ofExcept idle : Session α) (Attempt.ofExcept idle')) (draft : Draft) :
    (∃ a b after, fill work idle draft = (.ok a,after) ∧ fill work' idle' draft = (.ok b,after) ∧ same a b) ∨
      ∃ fault after, fill work idle draft = (.error fault,after) ∧ fill work' idle' draft = (.error fault,after) := by
  unfold fill
  cases draft.entryFunction? with
  | none => exact outside draft
  | some fn =>
    cases draft.filling with
    | none => exact outside draft
    | some filling =>
      rcases inside (draft.frame fn filling) with ⟨a,b,f,run,run',related⟩ | ⟨fault,f,run,run'⟩
      · simp only [run,run']
        exact .inl ⟨a,b,_,rfl,rfl,related⟩
      · simp only [run,run']
        exact .inr ⟨fault,_,rfl,rfl⟩

/-- The environments have the same binding, or none, for each name that the syntax reads and for each that it assigns. -/
def Environment.AgreeOn (env env' : Environment) (n : Node) : Prop := ∀ name, name ∈ n.reads ∨ n.Assigns name → env.Agree env' name

/-- The values are the same, and the environments agree on the names that the block mentions and on those that its statements bind. -/
def Block.SameResult (b : Block) (result result' : Value × Environment) : Prop :=
  result.1 = result'.1 ∧ result.2.AgreeOn result'.2 (.block b) ∧ ∀ name ∈ b.binders, result.2.Agree result'.2 name

section
variable {env env' : Environment}

theorem Expr.lower_agreeOn {e : Expr} (agree : env.AgreeOn env' (.expr e)) (signatures : Table Nat) :
    e.lower signatures env = e.lower signatures env' :=
  e.lower_agree signatures (fun name read => agree name (.inl read)) fun name target => agree name (.inr (e.assigns_of_targets target))
theorem Expr.constant_agreeOn {e : Expr} (agree : env.AgreeOn env' (.expr e)) (signatures : Table Nat) :
    e.constant signatures env = e.constant signatures env' :=
  e.constant_agree signatures (fun name read => agree name (.inl read)) fun name target => agree name (.inr (e.assigns_of_targets target))
theorem Environment.AgreeOn.sameResult {b : Block} (agree : env.AgreeOn env' (.block b)) (result result' : Value × Environment)
    (related : result.1 = result'.1 ∧ ∀ name, env.Agree env' name ∨ name ∈ b.binders → result.2.Agree result'.2 name) :
    b.SameResult result result' := by
  obtain ⟨value,kept⟩ := related
  exact ⟨value,fun name mentioned => kept name (.inl (agree name mentioned)),fun name bound => kept name (.inr bound)⟩
theorem Block.lower_agreeOn {b : Block} (agree : env.AgreeOn env' (.block b)) (signatures : Table Nat) :
    Alike b.SameResult (b.lower signatures env) (b.lower signatures env') :=
  (b.lower_agree signatures (fun name read => agree name (.inl read))
    fun name target => agree name (.inr (b.assigns_of_targets target))).mono agree.sameResult
theorem Block.constant_agreeOn {b : Block} (agree : env.AgreeOn env' (.block b)) (signatures : Table Nat) :
    Alike b.SameResult (Attempt.ofExcept (b.constant signatures env) : Session (Value × Environment))
      (Attempt.ofExcept (b.constant signatures env')) :=
  (b.constant_agree signatures (fun name read => agree name (.inl read))
    fun name target => agree name (.inr (b.assigns_of_targets target))).mono agree.sameResult

end

/-- Two environments that agree on the names an expression mentions lead from every state to the same outcome: the value or the
    fault, and the state afterwards. The same holds of a block, and the environments that it leaves agree on the names it mentions
    and on those that its own statements bind. -/
theorem lowering_depends_on_mentioned (env env' : Environment) :
    (∀ e : Expr, env.AgreeOn env' (.expr e) →
      (∀ signatures f, e.lower signatures env f = e.lower signatures env' f) ∧
      ∀ draft, Draft.lowerExpr (.node (.expr e)) env draft = Draft.lowerExpr (.node (.expr e)) env' draft) ∧
    ∀ b : Block, env.AgreeOn env' (.block b) →
      (∀ signatures, Alike b.SameResult (b.lower signatures env) (b.lower signatures env')) ∧
      Alike b.SameResult (Draft.lowerBlock (.node (.block b)) env) (Draft.lowerBlock (.node (.block b)) env') := by
  constructor
  · intro e agree
    refine ⟨fun signatures f => ?_,fun draft => ?_⟩
    · rw [Expr.lower_agreeOn agree]
    · simp only [Draft.lowerExpr,Subject.lowerExpr,Subject.constantExpr]
      rw [Expr.lower_agreeOn agree,Expr.constant_agreeOn agree]
  · intro b agree
    refine ⟨Block.lower_agreeOn agree,fun draft => ?_⟩
    exact Draft.fill_alike (Block.lower_agreeOn agree draft.signatures) (Block.constant_agreeOn agree draft.signatures) draft

/-- A loop on `x` that assigns `y` to it, and then a binding of `z`. -/
def settling : Block :=
  .step (.discard (.loop (.var (lit "x")) (.step (.assign (lit "x") (.var (lit "y"))) (.result (.literal 0)))))
    (.step (.bindConst (lit "z") (.literal 1)) (.result (.var (lit "x"))))
/-- An environment with a cell for `x` and one for `y`. -/
def twoCells : Environment :=
  (Environment.empty.bind (lit "x") (.reg (lit "x") .pointer) .boxed).bind (lit "y") (.reg (lit "y") .pointer) .boxed
/-- The same cells in the other order, behind a `z`. -/
def twoCellsMore : Environment :=
  ((Environment.empty.bind (lit "z") (.const 7) (.unboxed 7)).bind (lit "y") (.reg (lit "y") .pointer) .boxed).bind
    (lit "x") (.reg (lit "x") .pointer) .boxed
/-- The environments differ in `z`, which the block does not mention, and lead to the same outcome, for the block and for a scope
    with it. -/
theorem lowering_depends_on_mentioned_settling :
    twoCells.lookup? (lit "z") ≠ twoCellsMore.lookup? (lit "z") ∧
    twoCells.AgreeOn twoCellsMore (.block settling) ∧ twoCells.AgreeOn twoCellsMore (.expr (.scope settling)) ∧
    Alike settling.SameResult (Draft.lowerBlock (.node (.block settling)) twoCells)
      (Draft.lowerBlock (.node (.block settling)) twoCellsMore) ∧
    Draft.lowerExpr (.node (.expr (.scope settling))) twoCells (.new {}) =
      Draft.lowerExpr (.node (.expr (.scope settling))) twoCellsMore (.new {}) := by
  have agree (n : Node) (reads : n.reads = settling.reads) (mentions : n.mentions = settling.mentions) :
      twoCells.AgreeOn twoCellsMore n := by
    rintro name (read | assigned)
    · rw [reads] at read
      exact (by decide +kernel : ∀ name ∈ settling.reads, twoCells.lookup? name = twoCellsMore.lookup? name) name read
    · have mentioned := Node.mentions_of_assigns assigned
      rw [mentions] at mentioned
      exact (by decide +kernel : ∀ name ∈ settling.mentions, twoCells.lookup? name = twoCellsMore.lookup? name) name mentioned
  have agreeBlock := agree (.block settling) rfl rfl
  have agreeScope := agree (.expr (.scope settling)) rfl rfl
  obtain ⟨exprs,blocks⟩ := lowering_depends_on_mentioned twoCells twoCellsMore
  exact ⟨by decide +kernel,agreeBlock,agreeScope,(blocks settling agreeBlock).2,(exprs (.scope settling) agreeScope).2 _⟩

end Lev
