import Lev.Build.Lower
import Lev.Proofs.Evaluation
import Lev.Proofs.Names

/-!
What lowering depends on: the bindings of the names that the syntax reads, and of those that it assigns
and does not bind itself. Environments that agree on them lead to the same code.
-/
namespace Lev
open Attempt (Alike)

/-- Both environments have the same binding for the name, or none. -/
def Environment.Agree (env env' : Environment) (name : Text) : Prop := env.lookup? name = env'.lookup? name

section
variable {env env' : Environment} {name : Text}

theorem Environment.Agree.bind (agree : env.Agree env' name) (bound : Text) (value : Value) (levity : Levity) :
    (env.bind bound value levity).Agree (env'.bind bound value levity) name := by
  unfold Environment.Agree at agree ⊢
  rw [Environment.lookup?_bind,Environment.lookup?_bind,agree]
theorem Environment.agree_bind_self (env env' : Environment) (name : Text) (value : Value) (levity : Levity) :
    (env.bind name value levity).Agree (env'.bind name value levity) name := by
  unfold Environment.Agree
  rw [Environment.lookup?_bind,Environment.lookup?_bind,if_pos rfl,if_pos rfl]
theorem Environment.Agree.resolve (agree : env.Agree env' name) : env.resolve name = env'.resolve name := by
  unfold Environment.resolve
  rw [agree]
theorem Environment.Agree.assignable (agree : env.Agree env' name) : env.assignable name = env'.assignable name := by
  unfold Environment.assignable
  rw [agree.resolve]
theorem Environment.Agree.readVariable (agree : env.Agree env' name) : Build.readVariable env name = Build.readVariable env' name := by
  unfold Build.readVariable
  rw [agree.resolve]

namespace MergePoint

theorem openAll_agree {names : List Text} (agree : ∀ name ∈ names, env.Agree env' name) (preheader : Text) :
    openAll env preheader names = openAll env' preheader names := by
  induction names with
  | nil => rfl
  | cons name rest ih =>
    obtain ⟨here,later⟩ := List.forall_mem_cons.mp agree
    rw [openAll,openAll,here,ih later]
theorem openFor_agree {reads : List Text} (agree : ∀ name ∈ reads, env.Agree env' name) (preheader : Text) :
    openFor reads env preheader = openFor reads env' preheader := by
  unfold openFor
  rw [openAll_agree fun name listed => agree name (Text.mem_sortDistinct_iff.mp listed)]
/-- The names of merge points stand for their phis, whatever they stood for before. -/
theorem bindAll_agree {points : List MergePoint} (agree : env.Agree env' name ∨ name ∈ points.map MergePoint.name) :
    (bindAll env points).Agree (bindAll env' points) name := by
  induction points generalizing env env' with
  | nil => exact agree.resolve_right List.not_mem_nil
  | cons point rest ih =>
    refine ih ?_
    rcases agree with before | listed
    · exact .inl (before.bind _ _ _)
    · rcases List.mem_cons.mp listed with rfl | later
      · exact .inl (Environment.agree_bind_self _ _ _ _ _)
      · exact .inr later
theorem closeAll_agree {points : List MergePoint} (agree : ∀ name ∈ points.map MergePoint.name, env.Agree env' name)
    (latch : Text) : closeAll env latch points = closeAll env' latch points := by
  induction points with
  | nil => rfl
  | cons point rest ih =>
    obtain ⟨here,later⟩ := List.forall_mem_cons.mp agree
    have carried : point.carried env = point.carried env' := by
      unfold carried
      rw [here]
    rw [closeAll,closeAll,carried,ih later]

end MergePoint

section
variable {first : Stmt} {rest : Block} {after after' : Environment}
variable (kept : ∀ name, env.Agree env' name ∨ first.binder? = some name → after.Agree after' name)
include kept

/-- After the first statement, the environments agree on what the rest of the block assigns and does not bind itself. -/
theorem Block.targets_rest (targets : ∀ name ∈ (Block.step first rest).targets, env.Agree env' name) :
    ∀ name ∈ rest.targets, after.Agree after' name := by
  intro name target
  by_cases bound : first.binder? = some name
  · exact kept name (.inr bound)
  · refine kept name (.inl (targets name (List.mem_append_right _ ?_)))
    exact List.mem_filter.mpr ⟨target,by simpa using bound⟩
theorem Block.binders_rest (member : env.Agree env' name ∨ name ∈ (Block.step first rest).binders) :
    after.Agree after' name ∨ name ∈ rest.binders := by
  rw [Block.binders_step,List.mem_append,Option.mem_toList,← or_assoc] at member
  exact member.imp_left (kept name)

end

end

mutual

theorem Expr.lower_agree (signatures : Table Nat) (e : Expr) {env env' : Environment}
    (reads : ∀ name ∈ e.reads, env.Agree env' name) (targets : ∀ name ∈ e.targets, env.Agree env' name) :
    e.lower signatures env = e.lower signatures env' := by
  match e with
  | .literal n => rfl
  | .var name =>
    simp only [Expr.lower]
    exact (reads name List.mem_cons_self).readVariable
  | .binary left op right =>
    obtain ⟨leftReads,rightReads⟩ := List.forall_mem_append.mp reads
    obtain ⟨leftTargets,rightTargets⟩ := List.forall_mem_append.mp targets
    simp only [Expr.lower]
    rw [left.lower_agree signatures leftReads leftTargets,right.lower_agree signatures rightReads rightTargets]
  | .call callee args =>
    simp only [Expr.lower]
    rw [args.lower_agree signatures reads targets]
  | .scope body =>
    simp only [Expr.lower]
    refine ((body.lower_agree signatures reads targets).bind fun result result' related => ?_).eq
    exact .pure related.1
  | .loop cond body =>
    obtain ⟨condReads,bodyReads⟩ := List.forall_mem_append.mp reads
    obtain ⟨condTargets,bodyTargets⟩ := List.forall_mem_append.mp targets
    simp only [Expr.lower]
    rw [cond.lower_agree signatures condReads condTargets]
    refine bind_congr fun first => bind_congr fun skip => bind_congr fun header => bind_congr fun exit => ?_
    refine bind_congr fun preheader => bind_congr fun _ => bind_congr fun _ => ?_
    rw [MergePoint.openFor_agree condReads]
    refine bind_congr fun points => ?_
    have inside {name : Text} (agree : env.Agree env' name) :
        (MergePoint.bindAll env points).Agree (MergePoint.bindAll env' points) name := MergePoint.bindAll_agree (.inl agree)
    -- The second visit to the condition and the latch see environments that still agree.
    refine ((body.lower_agree signatures (fun name read => inside (bodyReads name read))
      (fun name target => inside (bodyTargets name target))).bind fun result result' related => .of_eq ?_).eq
    rw [cond.lower_agree signatures (fun name read => related.2 name (.inl (inside (condReads name read))))
      (fun name target => related.2 name (.inl (inside (condTargets name target))))]
    refine bind_congr fun again => bind_congr fun leave => bind_congr fun latch => ?_
    rw [MergePoint.closeAll_agree fun name listed => related.2 name (.inl (MergePoint.bindAll_agree (.inr listed)))]

theorem Args.lower_agree (signatures : Table Nat) (args : Args) {env env' : Environment}
    (reads : ∀ name ∈ args.reads, env.Agree env' name) (targets : ∀ name ∈ args.targets, env.Agree env' name) :
    args.lower signatures env = args.lower signatures env' := by
  match args with
  | .nil => rfl
  | .cons first rest =>
    obtain ⟨firstReads,restReads⟩ := List.forall_mem_append.mp reads
    obtain ⟨firstTargets,restTargets⟩ := List.forall_mem_append.mp targets
    simp only [Args.lower]
    rw [first.lower_agree signatures firstReads firstTargets,rest.lower_agree signatures restReads restTargets]

/-- The environments after a statement agree where those before it did, and on the name that it binds. -/
theorem Stmt.lower_agree (signatures : Table Nat) (s : Stmt) {env env' : Environment}
    (reads : ∀ name ∈ s.reads, env.Agree env' name) (targets : ∀ name ∈ s.targets, env.Agree env' name) :
    Alike (fun after after' => ∀ name, env.Agree env' name ∨ s.binder? = some name → after.Agree after' name)
      (s.lower signatures env) (s.lower signatures env') := by
  match s with
  | .discard value =>
    simp only [Stmt.lower]
    rw [value.lower_agree signatures reads targets]
    exact .after fun _ => .pure fun name kept => kept.resolve_right (by simp [Stmt.binder?])
  | .bindConst bound value =>
    simp only [Stmt.lower]
    rw [value.lower_agree signatures reads targets]
    refine .after fun result => ?_
    split
    · exact .reject _
    · refine .pure fun name kept => ?_
      rcases kept with agree | binder
      · exact agree.bind _ _ _
      · cases binder
        exact Environment.agree_bind_self _ _ _ _ _
  | .bindMut bound value =>
    simp only [Stmt.lower]
    rw [value.lower_agree signatures reads targets]
    refine .after fun base => .after fun cell => .after fun result => .after fun _ => ?_
    refine .pure fun name kept => ?_
    rcases kept with agree | binder
    · exact agree.bind _ _ _
    · cases binder
      exact Environment.agree_bind_self _ _ _ _ _
  | .assign target value =>
    obtain ⟨here,later⟩ := List.forall_mem_cons.mp targets
    simp only [Stmt.lower]
    rw [here.assignable,value.lower_agree signatures reads later]
    refine .after fun address => .after fun result => .after fun _ => ?_
    exact .pure fun name kept => kept.resolve_right (by simp [Stmt.binder?])

/-- The environments after a block agree where those before it did, and on the names that its statements bind. -/
theorem Block.lower_agree (signatures : Table Nat) (b : Block) {env env' : Environment}
    (reads : ∀ name ∈ b.reads, env.Agree env' name) (targets : ∀ name ∈ b.targets, env.Agree env' name) :
    Alike (fun result result' => result.1 = result'.1 ∧
        ∀ name, env.Agree env' name ∨ name ∈ b.binders → result.2.Agree result'.2 name)
      (b.lower signatures env) (b.lower signatures env') := by
  match b with
  | .result value =>
    simp only [Block.lower]
    rw [value.lower_agree signatures reads targets]
    exact .after fun _ => .pure ⟨rfl,fun _ kept => kept.resolve_right List.not_mem_nil⟩
  | .step first rest =>
    obtain ⟨firstReads,restReads⟩ := List.forall_mem_append.mp reads
    obtain ⟨firstTargets,_⟩ := List.forall_mem_append.mp targets
    simp only [Block.lower]
    refine (first.lower_agree signatures firstReads firstTargets).bind fun after after' kept => ?_
    have readsRest (name : Text) (read : name ∈ rest.reads) : after.Agree after' name := kept name (.inl (restReads name read))
    refine (rest.lower_agree signatures readsRest (Block.targets_rest kept targets)).mono fun _ _ related => ?_
    exact ⟨related.1,fun name member => related.2 name (Block.binders_rest kept member)⟩

end

end Lev
