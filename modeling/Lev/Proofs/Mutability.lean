import Lev.Proofs.Building
import Lev.Proofs.Evaluation

/-!
Assignments to immutable names. Lowering visits the condition of a loop a second time, in the
environment that the body leaves. A name that the condition assigns may be immutable there although it
is mutable around the loop; the check, which visits the condition once, does not see this. Main
statement: nothing else escapes the check, and a module with such a loop is never built.
-/
namespace Lev
open Attempt (Meets)

mutual

/-- The loops in an expression, with their conditions and bodies. -/
def Expr.loops : Expr → List (Expr × Block)
  | .literal _ => []
  | .var _ => []
  | .binary left _ right => left.loops ++ right.loops
  | .call _ args => args.loops
  | .scope body => body.loops
  | .loop cond body => (cond,body) :: (cond.loops ++ body.loops)

def Args.loops : Args → List (Expr × Block)
  | .nil => []
  | .cons first rest => first.loops ++ rest.loops

def Stmt.loops : Stmt → List (Expr × Block)
  | .discard value => value.loops
  | .bindConst _ value => value.loops
  | .bindMut _ value => value.loops
  | .assign _ value => value.loops

def Block.loops : Block → List (Expr × Block)
  | .result value => value.loops
  | .step first rest => first.loops ++ rest.loops

end

def Program.loops : Program → List (Expr × Block)
  | .expr e => e.loops
  | .block b => b.loops

/-- The scope at the end of a block. -/
def Block.extend (scope : Scope) : Block → Scope
  | .result _ => scope
  | .step first rest => rest.extend (first.extend scope)

/-- The condition of the loop assigns the name, and the last binding that the body makes of it is
    immutable. -/
def Freezes (loop : Expr × Block) (name : Text) : Prop :=
  name ∈ loop.1.targets ∧ (loop.2.extend []).get? name = some false

/-! ### Scopes -/

theorem Stmt.get?_extend (s : Stmt) (scope : Scope) (name : Text) :
    (s.extend scope).get? name = if s.binder? = some name then (s.extend []).get? name else scope.get? name := by
  cases s with
  | discard _ | assign _ _ => simp [Stmt.extend,Stmt.binder?]
  | bindConst bound _ | bindMut bound _ =>
    by_cases same : name = bound
    · simp [Stmt.extend,Stmt.binder?,Table.get?_set,same]
    · simp [Stmt.extend,Stmt.binder?,Table.get?_set,same,Ne.symm same]
theorem Stmt.get?_extend_nil {s : Stmt} {name : Text} (other : s.binder? ≠ some name) : (s.extend []).get? name = none := by
  rw [Stmt.get?_extend,if_neg other]
  rfl
/-- A name has the last binding that the block makes of it, and the one around the block if it makes none. -/
theorem Block.get?_extend (b : Block) (scope : Scope) (name : Text) :
    (b.extend scope).get? name = ((b.extend []).get? name).or (scope.get? name) := by
  cases b with
  | result _ => rfl
  | step first rest =>
    simp only [Block.extend]
    rw [rest.get?_extend (first.extend scope),rest.get?_extend (first.extend []),Option.or_assoc]
    congr 1
    by_cases bound : first.binder? = some name
    · rw [first.get?_extend scope,if_pos bound]
      cases first with
      | discard _ | assign _ _ => cases bound
      | bindConst _ _ | bindMut _ _ =>
        cases bound
        simp [Stmt.extend,Table.get?_set]
    · rw [first.get?_extend scope,if_neg bound,Stmt.get?_extend_nil bound,Option.none_or]

/-! ### The check -/

theorem Scope.immutable_assign (scope : Scope) (target name : Text) :
    .immutable name ∈ scope.assignViolations target ↔ name = target ∧ scope.get? name = some false := by
  unfold Scope.assignViolations
  split
  · rename_i found
    simp +contextual [found]
  · rename_i found
    simp +contextual [found]
  · rename_i found
    simp +contextual [found]
theorem Scope.immutable_read (scope : Scope) (read name : Text) : .immutable name ∉ scope.readViolations read := by
  unfold Scope.readViolations
  split <;> simp

mutual

/-- An assignment to an immutable name concerns a name of the scope, or one that the expression binds itself. -/
theorem Expr.immutable_iff (e : Expr) (scope : Scope) (name : Text) :
    .immutable name ∈ e.violations scope ↔
      name ∈ e.targets ∧ scope.get? name = some false ∨ .immutable name ∈ e.violations [] := by
  match e with
  | .literal _ => simp [Expr.violations,Expr.targets]
  | .var read => simp [Expr.violations,Expr.targets,Scope.immutable_read]
  | .binary left _ right =>
    simp only [Expr.violations,Expr.targets,List.mem_append]
    rw [left.immutable_iff scope,right.immutable_iff scope]
    tauto
  | .call _ args =>
    simp only [Expr.violations,Expr.targets]
    exact args.immutable_iff scope name
  | .scope body =>
    simp only [Expr.violations,Expr.targets]
    exact body.immutable_iff scope name
  | .loop cond body =>
    simp only [Expr.violations,Expr.targets,List.mem_append]
    rw [cond.immutable_iff scope,body.immutable_iff scope]
    tauto

theorem Args.immutable_iff (args : Args) (scope : Scope) (name : Text) :
    .immutable name ∈ args.violations scope ↔
      name ∈ args.targets ∧ scope.get? name = some false ∨ .immutable name ∈ args.violations [] := by
  match args with
  | .nil => simp [Args.violations,Args.targets]
  | .cons first rest =>
    simp only [Args.violations,Args.targets,List.mem_append]
    rw [first.immutable_iff scope,rest.immutable_iff scope]
    tauto

theorem Stmt.immutable_iff (s : Stmt) (scope : Scope) (name : Text) :
    .immutable name ∈ s.violations scope ↔
      name ∈ s.targets ∧ scope.get? name = some false ∨ .immutable name ∈ s.violations [] := by
  match s with
  | .discard value | .bindConst _ value | .bindMut _ value =>
    simp only [Stmt.violations,Stmt.targets]
    exact value.immutable_iff scope name
  | .assign target value =>
    simp only [Stmt.violations,Stmt.targets,List.mem_append,List.mem_cons,Scope.immutable_assign]
    rw [value.immutable_iff scope]
    simp only [Table.get?]
    tauto

theorem Block.immutable_iff (b : Block) (scope : Scope) (name : Text) :
    .immutable name ∈ b.violations scope ↔
      name ∈ b.targets ∧ scope.get? name = some false ∨ .immutable name ∈ b.violations [] := by
  match b with
  | .result value =>
    simp only [Block.violations,Block.targets]
    exact value.immutable_iff scope name
  | .step first rest =>
    simp only [Block.violations,Block.targets,List.mem_append,List.mem_filter,decide_eq_true_eq]
    rw [first.immutable_iff scope,rest.immutable_iff (first.extend scope),rest.immutable_iff (first.extend []),
      first.get?_extend scope]
    by_cases bound : first.binder? = some name
    · rw [if_pos bound]
      tauto
    · rw [if_neg bound,Stmt.get?_extend_nil bound]
      tauto

end

/-! ### Lowering -/

/-- None of the loops freezes a name. -/
def Unfrozen (loops : List (Expr × Block)) : Prop := ∀ loop ∈ loops, ∀ name, ¬Freezes loop name

/-- If the fault is an assignment to an immutable name, it is among the violations or one of the loops
    freezes the name. -/
def Explains (violations : List Violation) (loops : List (Expr × Block)) (fault : Fault) : Prop :=
  ∀ name, fault = .program (.immutableAssignment name) →
    ∃ text, name = .text text ∧ (.immutable text ∈ violations ∨ ∃ loop ∈ loops, Freezes loop text)

theorem Unfrozen.append {loops more : List (Expr × Block)} (first : Unfrozen loops) (rest : Unfrozen more) :
    Unfrozen (loops ++ more) := List.forall_mem_append.mpr ⟨first,rest⟩
theorem Explains.mono {violations violations' : List Violation} {loops loops' : List (Expr × Block)} {fault : Fault}
    (explains : Explains violations loops fault) (more : violations ⊆ violations') (larger : loops ⊆ loops') :
    Explains violations' loops' fault := by
  intro name immutable
  obtain ⟨text,same,found | ⟨loop,inside,freezes⟩⟩ := explains name immutable
  · exact ⟨text,same,.inl (more found)⟩
  · exact ⟨text,same,.inr ⟨loop,larger inside,freezes⟩⟩
theorem Explains.append_left {violations : List Violation} {loops : List (Expr × Block)} {fault : Fault}
    (explains : Explains violations loops fault) (more : List Violation) (others : List (Expr × Block)) :
    Explains (violations ++ more) (loops ++ others) fault :=
  explains.mono (List.subset_append_left _ _) (List.subset_append_left _ _)
theorem Explains.append_right {violations : List Violation} {loops : List (Expr × Block)} {fault : Fault}
    (explains : Explains violations loops fault) (before : List Violation) (others : List (Expr × Block)) :
    Explains (before ++ violations) (others ++ loops) fault :=
  explains.mono (List.subset_append_right _ _) (List.subset_append_right _ _)
theorem Fault.IsUnscoped.explains {fault : Fault} (unscoped : fault.IsUnscoped) (violations : List Violation)
    (loops : List (Expr × Block)) : Explains violations loops fault :=
  fun name immutable => absurd immutable (unscoped name).2

/-- What the second visit to a condition meets, the first one met, or else the body has frozen it. -/
theorem Explains.second_visit {cond : Expr} {body : Block} {scope : Scope} {fault : Fault}
    (explains : Explains (cond.violations (body.extend scope)) cond.loops fault) :
    Explains (cond.violations scope) ((cond,body) :: cond.loops) fault := by
  intro name immutable
  obtain ⟨text,same,found | ⟨loop,inside,freezes⟩⟩ := explains name immutable
  · refine ⟨text,same,?_⟩
    rcases (cond.immutable_iff _ text).mp found with ⟨target,bound⟩ | own
    · rw [body.get?_extend scope,Option.or_eq_some_iff] at bound
      rcases bound with rebound | ⟨_,outside⟩
      · exact .inr ⟨(cond,body),List.mem_cons_self,target,rebound⟩
      · exact .inl ((cond.immutable_iff scope text).mpr (.inl ⟨target,outside⟩))
    · exact .inl ((cond.immutable_iff scope text).mpr (.inr own))
  · exact ⟨text,same,.inr ⟨loop,List.mem_cons_of_mem _ inside,freezes⟩⟩
/-- If the second visit to a condition meets nothing, the body has frozen none of its targets. -/
theorem not_freezes_of_clean {cond : Expr} {body : Block} {scope : Scope} (clean : cond.violations (body.extend scope) = [])
    (name : Text) : ¬Freezes (cond,body) name := by
  rintro ⟨target,rebound⟩
  have bound : (body.extend scope).get? name = some false := by
    rw [body.get?_extend scope,rebound]
    rfl
  have found := (cond.immutable_iff _ name).mpr (.inl ⟨target,bound⟩)
  rw [clean] at found
  cases found

theorem Environment.resolve_explains {env : Environment} {name : Text} {fault : Fault} (failed : env.resolve name = .error fault)
    (violations : List Violation) : Explains violations [] fault := by
  unfold Environment.resolve at failed
  split at failed
  · cases failed
    intro _ immutable
    cases immutable
  · cases failed
theorem Environment.assignable_explains {scope : Scope} {env : Environment} (agrees : scope.Matches env) {name : Text}
    {fault : Fault} (failed : env.assignable name = .error fault) : Explains (scope.assignViolations name) [] fault := by
  unfold Environment.assignable at failed
  cases result : env.resolve name with
  | error early =>
    rw [result] at failed
    cases failed
    exact resolve_explains result _
  | ok binding =>
    have found : env.lookup? name = some binding := by
      unfold Environment.resolve at result
      split at result <;> cases result
      assumption
    rw [result] at failed
    simp only [Bind.bind,Except.bind] at failed
    split at failed
    · cases failed
    · rename_i unboxed
      cases failed
      intro target immutable
      cases immutable
      refine ⟨name,rfl,.inl ((scope.immutable_assign name name).mpr ⟨rfl,?_⟩)⟩
      rw [agrees name,found,Option.map_some,Bool.eq_false_iff.mpr unboxed]
/-- The scope of a block's end matches the environment that lowering the block leaves. -/
theorem Block.lower_extends (signatures : Table Nat) (b : Block) {scope : Scope} {env : Environment}
    (agrees : scope.Matches env) (f : Frame) :
    Meets (b.lower signatures env) f (fun result _ => (b.extend scope).Matches result.2) (fun _ _ => True) := by
  match b with
  | .result value =>
    simp only [Block.lower,Block.extend]
    refine .bind (value.lower_resolves signatures agrees f) (fun _ after _ => ?_) (fun _ _ _ => trivial)
    exact .of_run rfl agrees
  | .step first rest =>
    simp only [Block.lower,Block.extend]
    refine .bind (first.lower_resolves signatures agrees f) (fun env' after clean => ?_) (fun _ _ _ => trivial)
    exact rest.lower_extends signatures clean.2 after

mutual

theorem Expr.lower_freezes (signatures : Table Nat) (e : Expr) {scope : Scope} {env : Environment}
    (agrees : scope.Matches env) (f : Frame) :
    Meets (e.lower signatures env) f (fun _ _ => Unfrozen e.loops)
      (fun fault _ => Explains (e.violations scope) e.loops fault) := by
  match e with
  | .literal n => exact .of_run rfl (fun _ none => by cases none)
  | .var name =>
    simp only [Expr.lower,Expr.violations,Expr.loops]
    unfold Build.readVariable
    cases result : env.resolve name with
    | error fault => exact .of_error rfl (Environment.resolve_explains result _)
    | ok binding =>
      refine .whatever rfl (fun b after => ?_)
      split
      · exact .of_run rfl (fun _ none => by cases none)
      · exact .of_run rfl (fun _ none => by cases none)
  | .binary left op right =>
    simp only [Expr.lower,Expr.violations,Expr.loops]
    refine .bind (left.lower_freezes signatures agrees f) (fun a after leftFree => ?_) (fun _ _ explains => explains.append_left _ _)
    refine .bind (right.lower_freezes signatures agrees after) (fun b after rightFree => ?_) (fun _ _ explains => explains.append_right _ _)
    unfold Build.arith
    split
    · exact .of_run rfl (leftFree.append rightFree)
    · exact .of_run rfl (leftFree.append rightFree)
  | .call callee args =>
    simp only [Expr.lower,Expr.violations,Expr.loops]
    cases result : callable signatures callee args.length with
    | error fault => exact .of_error rfl ((callable_unscoped result).explains _ _)
    | ok _ =>
      refine .whatever rfl (fun _ after => ?_)
      refine .andThen (args.lower_freezes signatures agrees after) (fun values after free => ?_)
      refine .bind (Build.identifier_meets callee after) (fun name after _ => ?_)
        (fun _ _ failed => failed.1.isUnscoped.explains _ _)
      exact .of_run rfl free
  | .scope body =>
    simp only [Expr.lower,Expr.violations,Expr.loops]
    exact .andThen (body.lower_freezes signatures agrees f) (fun result after free => .of_run rfl free)
  | .loop cond body =>
    simp only [Expr.lower,Expr.violations,Expr.loops]
    have inCond : cond.loops ⊆ (cond,body) :: (cond.loops ++ body.loops) :=
      List.Subset.trans (List.subset_append_left _ _) (List.subset_cons_self _ _)
    have inBody : body.loops ⊆ (cond,body) :: (cond.loops ++ body.loops) :=
      List.Subset.trans (List.subset_append_right _ _) (List.subset_cons_self _ _)
    refine .bind (cond.lower_freezes signatures agrees f) (fun first after condFree => ?_)
      (fun _ _ explains => explains.mono (List.subset_append_left _ _) inCond)
    refine .whatever rfl (fun skip after => ?_)
    refine .whatever rfl (fun header after => ?_)
    refine .whatever rfl (fun exit after => ?_)
    refine .whatever rfl (fun preheader after => ?_)
    refine .bind (Build.terminate_unscoped _ after) (fun _ after _ => ?_) (fun _ _ unscoped => unscoped.explains _ _)
    refine .whatever rfl (fun _ after => ?_)
    refine .bind (MergePoint.openFor_meets _ env preheader after) (fun points after opened => ?_)
      (fun _ _ unscoped => unscoped.explains _ _)
    have within := agrees.bindAll opened
    refine .bind ((body.lower_freezes signatures within after).and (body.lower_extends signatures within after))
      (fun result after bodyFree => ?_) (fun _ _ explains => explains.1.mono (List.subset_append_right _ _) inBody)
    -- The second visit to the condition is checked against the scope that the body leaves.
    refine .bind ((cond.lower_freezes signatures bodyFree.2 after).and (cond.lower_resolves signatures bodyFree.2 after))
      (fun again after clean => ?_) (fun _ _ explains => explains.1.second_visit.mono (List.subset_append_left _ _) ?_)
    · refine .whatever rfl (fun leave after => ?_)
      refine .whatever rfl (fun latch after => ?_)
      refine .bind (MergePoint.closeAll_unscoped _ latch points after) (fun closed after _ => ?_)
        (fun _ _ unscoped => unscoped.explains _ _)
      refine .bind (Build.terminate_unscoped _ after) (fun _ after _ => ?_) (fun _ _ unscoped => unscoped.explains _ _)
      refine .of_run rfl (List.forall_mem_cons.mpr ⟨?_,condFree.append bodyFree.1⟩)
      exact not_freezes_of_clean clean.2
    · exact List.cons_subset_cons _ (List.subset_append_left _ _)

theorem Args.lower_freezes (signatures : Table Nat) (args : Args) {scope : Scope} {env : Environment}
    (agrees : scope.Matches env) (f : Frame) :
    Meets (args.lower signatures env) f (fun _ _ => Unfrozen args.loops)
      (fun fault _ => Explains (args.violations scope) args.loops fault) := by
  match args with
  | .nil => exact .of_run rfl (fun _ none => by cases none)
  | .cons first rest =>
    simp only [Args.lower,Args.violations,Args.loops]
    refine .bind (first.lower_freezes signatures agrees f) (fun value after firstFree => ?_) (fun _ _ explains => explains.append_left _ _)
    refine .bind (rest.lower_freezes signatures agrees after) (fun values after restFree => ?_) (fun _ _ explains => explains.append_right _ _)
    exact .of_run rfl (firstFree.append restFree)

theorem Stmt.lower_freezes (signatures : Table Nat) (s : Stmt) {scope : Scope} {env : Environment}
    (agrees : scope.Matches env) (f : Frame) :
    Meets (s.lower signatures env) f (fun _ _ => Unfrozen s.loops)
      (fun fault _ => Explains (s.violations scope) s.loops fault) := by
  match s with
  | .discard value =>
    simp only [Stmt.lower,Stmt.violations,Stmt.loops]
    exact .andThen (value.lower_freezes signatures agrees f) (fun _ after free => .of_run rfl free)
  | .bindConst name value =>
    simp only [Stmt.lower,Stmt.violations,Stmt.loops]
    refine .andThen (value.lower_freezes signatures agrees f) (fun bound after free => ?_)
    split
    · exact .of_error rfl (Fault.IsUnscoped.explains (fun _ => by simp) _ _)
    · exact .of_run rfl free
  | .bindMut name value =>
    simp only [Stmt.lower,Stmt.violations,Stmt.loops]
    refine .bind (Build.identifier_meets name f) (fun base after _ => ?_)
      (fun _ _ failed => failed.1.isUnscoped.explains _ _)
    refine .whatever rfl (fun cell after => ?_)
    exact .andThen (value.lower_freezes signatures agrees after) (fun bound after free => .of_run rfl free)
  | .assign name value =>
    simp only [Stmt.lower,Stmt.violations,Stmt.loops]
    cases result : env.assignable name with
    | error fault =>
      have explains := Environment.assignable_explains agrees result
      exact .of_error rfl (explains.mono (List.subset_append_left _ _) (List.nil_subset _))
    | ok address =>
      refine .whatever rfl (fun address after => ?_)
      refine .bind (value.lower_freezes signatures agrees after) (fun bound after free => ?_)
        (fun _ _ explains => explains.mono (List.subset_append_right _ _) (List.Subset.refl _))
      exact .of_run rfl free

theorem Block.lower_freezes (signatures : Table Nat) (b : Block) {scope : Scope} {env : Environment}
    (agrees : scope.Matches env) (f : Frame) :
    Meets (b.lower signatures env) f (fun _ _ => Unfrozen b.loops)
      (fun fault _ => Explains (b.violations scope) b.loops fault) := by
  match b with
  | .result value =>
    simp only [Block.lower,Block.violations,Block.loops]
    exact .andThen (value.lower_freezes signatures agrees f) (fun _ after free => .of_run rfl free)
  | .step first rest =>
    simp only [Block.lower,Block.violations,Block.loops]
    refine .bind ((first.lower_freezes signatures agrees f).and (first.lower_resolves signatures agrees f))
      (fun env' after firstFree => ?_) (fun _ _ explains => explains.1.append_left _ _)
    refine (rest.lower_freezes signatures firstFree.2.2 after).mono ?_ (fun _ _ explains => explains.append_right _ _)
    exact fun _ _ restFree => firstFree.1.append restFree

end

/-! ### Programs -/

/-- A loop of the program freezes the name. -/
def Program.Freezes (program : Program) (name : Text) : Prop := ∃ loop ∈ program.loops, Lev.Freezes loop name

theorem Program.lower_freezes (signatures : Table Nat) (program : Program) {scope : Scope} {env : Environment}
    (agrees : scope.Matches env) (f : Frame) :
    Meets (program.subject.lowerProgram signatures env) f (fun _ _ => Unfrozen program.loops)
      (fun fault _ => Explains (program.node.violations scope) program.loops fault) := by
  cases program with
  | expr e => exact e.lower_freezes signatures agrees f
  | block b => exact .andThen (b.lower_freezes signatures agrees f) (fun _ after free => .of_run rfl free)
theorem Draft.mem_findings_immutable {options : Options} {n : Node} {name : Json}
    (found : .immutableAssignment name ∈ findings options n) : ∃ text, name = .text text ∧ .immutable text ∈ n.check [] := by
  simp only [findings,List.mem_append,List.mem_map,List.mem_filterMap] at found
  rcases found with (⟨conflict,_,same⟩ | ⟨callee,_,failed⟩) | ⟨violation,reported,same⟩
  · cases same
  · obtain ⟨reason,same⟩ := Identifier.error?_eq_some failed
    cases same
  · cases violation with
    | undeclared text => cases same
    | immutable text =>
      cases same
      exact ⟨text,rfl,reported⟩
/-- A build meets an assignment to an immutable name in the check, with nothing emitted, or at a loop that freezes the name. -/
theorem Draft.build_immutable {program : Program} {options : Options} {errors : List ProgramError} {name : Json}
    (failed : (build program.subject (.new options)).1 = .error (.program (.build errors)))
    (found : .immutableAssignment name ∈ errors) :
    ∃ text, name = .text text ∧ (.immutable text ∈ program.node.check [] ∧
      (build program.subject (.new options)).2.functions = [] ∨ program.Freezes text) := by
  by_cases clean : findings options program.node = []
  · obtain ⟨draft,others,holds,_,run⟩ := build_of_clean clean
    rw [run] at failed
    rcases holds.reported_run with ⟨_,_,_,_,_,outcome,_⟩ | ⟨error,f',_,lowered,_,_,outcome,_⟩
    · rw [outcome] at failed
      cases failed
    · rw [outcome] at failed
      cases failed
      have explains := (program.lower_freezes draft.signatures Scope.matches_empty _).error lowered
      obtain ⟨text,same,reported | freezes⟩ := explains name (by rw [List.mem_singleton.mp found])
      · rw [violations_of_clean clean] at reported
        cases reported
      · exact ⟨text,same,.inr freezes⟩
  · rw [build_of_findings clean] at failed ⊢
    cases failed
    obtain ⟨text,same,reported⟩ := mem_findings_immutable found
    exact ⟨text,same,.inl ⟨reported,rfl⟩⟩
theorem Draft.not_freezes_of_built {program : Program} {options : Options}
    (built : (build program.subject (.new options)).1 = .ok ()) (name : Text) : ¬program.Freezes name := by
  obtain ⟨draft,_,_,_,_,lowered,_⟩ := build_eq_ok (Attempt.run_of_fst built)
  have free := (program.lower_freezes draft.signatures Scope.matches_empty _).ok lowered
  rintro ⟨loop,inside,freezes⟩
  exact free loop inside name freezes

/-- For every program and options: if the analyses find nothing and the build still meets an assignment to
    an immutable name, a loop of the program freezes this name. Any other such assignment is met by the
    check, before there is a function. A program with a loop that freezes a name is not built. -/
theorem immutable_only_frozen (program : Program) (options : Options) :
    (∀ table, Draft.discover options program.subject = .ok (table,[]) → program.subject.check [] = .ok [] →
      ∀ errors name, (Draft.build program.subject (.new options)).1 = .error (.program (.build errors)) →
        .immutableAssignment name ∈ errors → ∃ text, name = .text text ∧ program.Freezes text) ∧
    (∀ errors text, (Draft.build program.subject (.new options)).1 = .error (.program (.build errors)) →
      .immutableAssignment (.text text) ∈ errors → ¬program.Freezes text →
        .immutable text ∈ program.node.check [] ∧ (Draft.build program.subject (.new options)).2.functions = []) ∧
    ((Draft.build program.subject (.new options)).1 = .ok () → ∀ name, ¬program.Freezes name) := by
  refine ⟨?_,?_,Draft.not_freezes_of_built⟩
  · intro table _ checked errors name failed found
    obtain ⟨text,same,⟨reported,_⟩ | freezes⟩ := Draft.build_immutable failed found
    · rw [show program.node.check [] = [] from Except.ok.inj checked] at reported
      cases reported
    · exact ⟨text,same,freezes⟩
  · intro errors text failed found unfrozen
    obtain ⟨_,same,reported | freezes⟩ := Draft.build_immutable failed found
    · cases same
      exact reported
    · cases same
      exact absurd freezes unfrozen

/-- A loop whose condition counts a cell down and whose body binds its name to a constant. -/
def frozenCounter : Program :=
  .block (.step (.bindMut (lit "x") (.literal 2))
    (.step (.discard (.loop
      (.scope (.step (.assign (lit "x") (.binary (.var (lit "x")) .sub (.literal 1))) (.result (.var (lit "x")))))
      (.step (.bindConst (lit "x") (.literal 0)) (.result (.literal 0)))))
    (.result (.literal 0))))

/-- The name, if the outcome is that one assignment to an immutable name was met. -/
def immutable? : Except Fault Unit → Option Text
  | .error (.program (.build [.immutableAssignment (.text name)])) => some name
  | _ => none

theorem eq_of_immutable? {outcome : Except Fault Unit} {name : Text} (found : immutable? outcome = some name) :
    outcome = .error (.program (.build [.immutableAssignment (.text name)])) := by
  unfold immutable? at found
  split at found
  · cases found
    rfl
  · cases found
/-- The analyses find nothing in the program, and its build meets an assignment to an immutable name. -/
theorem frozenCounter_fails :
    Draft.discover {} frozenCounter.subject = .ok ([(lit "main",0)],[]) ∧ frozenCounter.subject.check [] = .ok [] ∧
      (Draft.build frozenCounter.subject (.new {})).1 =
        .error (.program (.build [.immutableAssignment (.text (lit "x"))])) := by
  have carried : Identifier.error? (lit "main") = none := Option.isNone_iff_eq_none.mp (by decide +kernel)
  have violations : frozenCounter.node.check [] = [] := by decide +kernel
  refine ⟨?_,congrArg Except.ok violations,eq_of_immutable? (by decide +kernel)⟩
  show Except.ok ([(lit "main",0)],[].map Conflict.error ++ [lit "main"].filterMap Identifier.error?) = _
  simp [carried]
theorem immutable_only_frozen_counter :
    Draft.discover {} frozenCounter.subject = .ok ([(lit "main",0)],[]) ∧ frozenCounter.subject.check [] = .ok [] ∧
      (Draft.build frozenCounter.subject (.new {})).1 =
        .error (.program (.build [.immutableAssignment (.text (lit "x"))])) ∧ frozenCounter.Freezes (lit "x") := by
  obtain ⟨discovered,checked,failed⟩ := frozenCounter_fails
  refine ⟨discovered,checked,failed,?_⟩
  obtain ⟨text,same,freezes⟩ :=
    (immutable_only_frozen frozenCounter {}).1 _ discovered checked _ _ failed List.mem_cons_self
  cases same
  exact freezes
/-- It is not so that the check finds every assignment to an immutable name that a build can meet. -/
theorem immutable_missed_by_check :
    ¬∀ (program : Program) (options : Options) table, Draft.discover options program.subject = .ok (table,[]) →
      program.subject.check [] = .ok [] → ∀ errors name,
        (Draft.build program.subject (.new options)).1 = .error (.program (.build errors)) →
          .immutableAssignment name ∉ errors := by
  intro all
  obtain ⟨discovered,checked,failed⟩ := frozenCounter_fails
  exact all frozenCounter {} _ discovered checked _ _ failed List.mem_cons_self

end Lev
