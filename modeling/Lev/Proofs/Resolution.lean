import Lev.Analysis.Bindings
import Lev.Build.Draft
import Lev.Proofs.Attempt
import Lev.Proofs.Names

/-!
The binding check and lowering resolve names alike. Lowering visits the condition of a loop a second
time, in the environment that the body leaves; this visit meets no undeclared name, since a body only
adds names to those that the first visit has found.
-/
namespace Lev
open Attempt (Meets Allows)

/-- The scope knows the names of the environment, and as mutable those that stand for a cell. -/
def Scope.Matches (scope : Scope) (env : Environment) : Prop :=
  ∀ name, scope.get? name = (env.lookup? name).map Binding.isBoxed
/-- Every name of the first scope is a name of the second. -/
def Scope.Within (small large : Scope) : Prop := ∀ name, small.contains name → large.contains name
/-- If the fault is about an undeclared variable, then the first violation is about the same one. -/
def Blames (violations : List Violation) (fault : Fault) : Prop :=
  ∀ name, fault = .program (.undeclaredVariable name) →
    ∃ first rest, name = .text first ∧ violations = .undeclared first :: rest

theorem Blames.append {violations : List Violation} {fault : Fault} (blames : Blames violations fault)
    (more : List Violation) : Blames (violations ++ more) fault := by
  intro name undeclared
  obtain ⟨first,rest,same,head⟩ := blames name undeclared
  exact ⟨first,rest ++ more,same,by simp [head]⟩
theorem Scope.Within.refl (scope : Scope) : scope.Within scope := fun _ found => found
theorem Scope.Within.trans {a b c : Scope} (first : a.Within b) (second : b.Within c) : a.Within c :=
  fun name found => second name (first name found)
theorem Scope.Within.set {small large : Scope} (within : small.Within large) (name : Text) (mutableSmall mutableLarge : Bool) :
    Scope.Within (small.set name mutableSmall) (large.set name mutableLarge) := by
  intro key found
  rw [Table.contains_set] at found ⊢
  by_cases same : key = name
  · simp [same]
  · simpa [same] using within key (by simpa [same] using found)
theorem Scope.within_set (scope : Scope) (name : Text) (isMutable : Bool) : scope.Within (scope.set name isMutable) := by
  intro key found
  rw [Table.contains_set,found,Bool.or_true]
theorem Stmt.within_extend (scope : Scope) (s : Stmt) : scope.Within (s.extend scope) := by
  cases s with
  | discard _ => exact .refl scope
  | bindConst name _ => exact scope.within_set name false
  | bindMut name _ => exact scope.within_set name true
  | assign _ _ => exact .refl scope
theorem Stmt.extend_within {small large : Scope} (within : small.Within large) (s : Stmt) :
    (s.extend small).Within (s.extend large) := by
  cases s with
  | discard _ => exact within
  | bindConst name _ => exact within.set name false false
  | bindMut name _ => exact within.set name true true
  | assign _ _ => exact within

/-! ### More names, fewer undeclared ones -/

theorem Scope.read_undeclared {small large : Scope} (within : small.Within large) {name missing : Text}
    (found : .undeclared missing ∈ large.readViolations name) : .undeclared missing ∈ small.readViolations name := by
  unfold readViolations at found ⊢
  by_cases inside : small.contains name
  · simp [within name inside] at found
  · by_cases outside : large.contains name
    · simp [outside] at found
    · simpa [inside,outside] using found
theorem Scope.assign_undeclared {small large : Scope} (within : small.Within large) {name missing : Text}
    (found : .undeclared missing ∈ large.assignViolations name) : .undeclared missing ∈ small.assignViolations name := by
  unfold assignViolations at found ⊢
  cases inside : small.get? name with
  | none =>
    split at found <;> simp_all
  | some isMutable =>
    obtain ⟨other,outside⟩ := Option.isSome_iff_exists.mp (within name (by simp [Table.contains,inside]))
    cases other <;> simp [outside] at found

mutual

theorem Expr.undeclared_mono (e : Expr) {small large : Scope} (within : small.Within large) {missing : Text}
    (found : .undeclared missing ∈ e.violations large) : .undeclared missing ∈ e.violations small := by
  match e with
  | .literal _ => simp [Expr.violations] at found
  | .var name =>
    simp only [Expr.violations] at found ⊢
    exact Scope.read_undeclared within found
  | .binary left _ right =>
    simp only [Expr.violations,List.mem_append] at found ⊢
    exact found.imp (left.undeclared_mono within) (right.undeclared_mono within)
  | .call _ args =>
    simp only [Expr.violations] at found ⊢
    exact args.undeclared_mono within found
  | .scope body =>
    simp only [Expr.violations] at found ⊢
    exact body.undeclared_mono within found
  | .loop cond body =>
    simp only [Expr.violations,List.mem_append] at found ⊢
    exact found.imp (cond.undeclared_mono within) (body.undeclared_mono within)

theorem Args.undeclared_mono (args : Args) {small large : Scope} (within : small.Within large) {missing : Text}
    (found : .undeclared missing ∈ args.violations large) : .undeclared missing ∈ args.violations small := by
  match args with
  | .nil => simp [Args.violations] at found
  | .cons first rest =>
    simp only [Args.violations,List.mem_append] at found ⊢
    exact found.imp (first.undeclared_mono within) (rest.undeclared_mono within)

theorem Stmt.undeclared_mono (s : Stmt) {small large : Scope} (within : small.Within large) {missing : Text}
    (found : .undeclared missing ∈ s.violations large) : .undeclared missing ∈ s.violations small := by
  match s with
  | .discard value | .bindConst _ value | .bindMut _ value =>
    simp only [Stmt.violations] at found ⊢
    exact value.undeclared_mono within found
  | .assign _ value =>
    simp only [Stmt.violations,List.mem_append] at found ⊢
    exact found.imp (Scope.assign_undeclared within) (value.undeclared_mono within)

theorem Block.undeclared_mono (b : Block) {small large : Scope} (within : small.Within large) {missing : Text}
    (found : .undeclared missing ∈ b.violations large) : .undeclared missing ∈ b.violations small := by
  match b with
  | .result value =>
    simp only [Block.violations] at found ⊢
    exact value.undeclared_mono within found
  | .step first rest =>
    simp only [Block.violations,List.mem_append] at found ⊢
    exact found.imp (first.undeclared_mono within) (rest.undeclared_mono (first.extend_within within))

end

/-! ### Lowering in step with the check -/

/-- The fault is about something else than an undeclared variable. -/
def Fault.IsOther (fault : Fault) : Prop := ∀ name, fault ≠ .program (.undeclaredVariable name)
/-- The fault is about something else than what the check looks for. -/
def Fault.IsUnscoped (fault : Fault) : Prop :=
  ∀ name, fault ≠ .program (.undeclaredVariable name) ∧ fault ≠ .program (.immutableAssignment name)

theorem Fault.IsOther.blames {fault : Fault} (other : fault.IsOther) (violations : List Violation) :
    Blames violations fault :=
  fun name undeclared => absurd undeclared (other name)
theorem Fault.IsUnscoped.isOther {fault : Fault} (unscoped : fault.IsUnscoped) : fault.IsOther := fun name => (unscoped name).1
theorem Identifier.error?_eq_some {name : Text} {error : ProgramError} (found : error? name = some error) :
    ∃ reason, error = .badIdentifier (.text name) reason := by
  obtain ⟨reason,_,rfl⟩ := Option.map_eq_some_iff.mp found
  exact ⟨reason.message,rfl⟩
theorem Fault.Misnamed.isUnscoped {fault : Fault} (misnamed : fault.Misnamed) : fault.IsUnscoped := by
  obtain ⟨name,error,found,rfl⟩ := misnamed
  obtain ⟨reason,rfl⟩ := Identifier.error?_eq_some found
  exact fun _ => by simp
theorem Build.terminate_unscoped (instr : Instr) (f : Frame) :
    Meets (terminate instr) f (fun _ _ => True) (fun fault _ => fault.IsUnscoped) := by
  refine .whatever rfl (fun _ after => ?_)
  refine .whatever rfl (fun ended after => ?_)
  cases ended with
  | true => exact .of_error rfl (fun _ => by simp)
  | false => exact .of_run rfl trivial
theorem callable_unscoped {signatures : Table Nat} {callee : Text} {count : Nat} {fault : Fault}
    (failed : callable signatures callee count = .error fault) : fault.IsUnscoped := by
  unfold callable at failed
  split at failed
  · cases failed; exact fun _ => by simp
  · split at failed
    · cases failed
    · cases failed; exact fun _ => by simp
/-- The merge point is one for the names, and keeps the representation of its name. -/
def MergePoint.IsFor (names : List Text) (env : Environment) (point : MergePoint) : Prop :=
  point.name ∈ names ∧ ∃ binding, env.lookup? point.name = some binding ∧ point.levity = binding.levity

theorem MergePoint.IsFor.mono {names more : List Text} {env : Environment} {point : MergePoint} (isFor : point.IsFor names env)
    (within : ∀ name ∈ names, name ∈ more) : point.IsFor more env :=
  ⟨within _ isFor.1,isFor.2⟩
theorem MergePoint.openAll_meets (env : Environment) (preheader : Text) (names : List Text) (f : Frame) :
    Meets (openAll env preheader names) f (fun points _ => ∀ point ∈ points, point.IsFor names env)
      (fun fault _ => fault.IsUnscoped) := by
  induction names generalizing f with
  | nil => exact .of_run rfl (by simp)
  | cons name rest ih =>
    have wider {points : List MergePoint} (isFor : ∀ point ∈ points, point.IsFor rest env) :
        ∀ point ∈ points, point.IsFor (name :: rest) env :=
      fun point member => (isFor point member).mono fun _ => List.mem_cons_of_mem name
    rw [openAll]
    cases bound : env.lookup? name with
    | none => exact (ih f).mono (fun _ _ => wider) (fun _ _ unscoped => unscoped)
    | some binding =>
      refine .bind (Build.identifier_meets name f) (fun base after _ => ?_) (fun _ _ failed => failed.1.isUnscoped)
      refine .whatever rfl (fun phi after => ?_)
      refine .whatever rfl (fun _ after => ?_)
      refine .andThen (ih after) (fun points after isFor => ?_)
      exact .of_run rfl (List.forall_mem_cons.mpr ⟨⟨List.mem_cons_self,binding,bound,rfl⟩,wider isFor⟩)
theorem MergePoint.openFor_meets (reads : List Text) (env : Environment) (preheader : Text) (f : Frame) :
    Meets (openFor reads env preheader) f (fun points _ => ∀ point ∈ points, point.IsFor reads env)
      (fun fault _ => fault.IsUnscoped) := by
  refine .andThen (openAll_meets env preheader _ f) (fun points after opened => ?_)
  have isFor (point : MergePoint) (member : point ∈ points) : point.IsFor reads env :=
    (opened point member).mono fun _ => Text.mem_sortDistinct_iff.mp
  split
  · exact .of_run rfl isFor
  · exact .of_run rfl isFor
theorem MergePoint.close_unscoped (point : MergePoint) (fn : Function) (value : Value) (latch : Text) (f : Frame) :
    Meets (Attempt.ofExcept (point.close fn value latch)) f (fun _ _ => True) (fun fault _ => fault.IsUnscoped) := by
  unfold close
  split
  · exact .of_error rfl (fun _ => by simp)
  · exact .of_run rfl trivial
theorem MergePoint.closeAll_unscoped (env : Environment) (latch : Text) (points : List MergePoint) (f : Frame) :
    Meets (closeAll env latch points) f (fun _ _ => True) (fun fault _ => fault.IsUnscoped) := by
  induction points generalizing f with
  | nil => exact .of_run rfl trivial
  | cons point rest ih =>
    refine .whatever rfl (fun fn after => ?_)
    refine .andThen (point.close_unscoped fn _ latch after) (fun closed after _ => ?_)
    refine .whatever rfl (fun _ after => ?_)
    refine .whatever rfl (fun _ after => ?_)
    exact .andThen (ih after) (fun _ _ _ => .of_run rfl trivial)

theorem Scope.matches_empty : Scope.Matches [] .empty := fun _ => rfl
theorem Scope.Matches.resolve {scope : Scope} {env : Environment} (agrees : scope.Matches env) (name : Text) :
    Allows (fun _ => scope.readViolations name = []) (Blames (scope.readViolations name)) (env.resolve name) := by
  unfold Environment.resolve readViolations Table.contains
  rw [agrees name]
  cases env.lookup? name with
  | none =>
    intro missing undeclared
    simp only [Fault.program.injEq,ProgramError.undeclaredVariable.injEq] at undeclared
    exact ⟨name,[],undeclared.symm,by simp⟩
  | some binding => simp [Allows]
theorem Scope.Matches.assignable {scope : Scope} {env : Environment} (agrees : scope.Matches env) (name : Text) :
    Allows (fun _ => scope.assignViolations name = []) (Blames (scope.assignViolations name)) (env.assignable name) := by
  unfold Environment.assignable Environment.resolve assignViolations
  rw [agrees name]
  cases env.lookup? name with
  | none =>
    intro missing undeclared
    simp only [Fault.program.injEq,ProgramError.undeclaredVariable.injEq] at undeclared
    exact ⟨name,[],undeclared.symm,rfl⟩
  | some binding =>
    cases boxed : binding.isBoxed with
    | true => simp [boxed,bind,Except.bind,Allows]
    | false =>
      simp only [boxed,bind,Except.bind]
      exact Fault.IsOther.blames (fun _ => by simp) _
theorem Scope.Matches.bind {scope : Scope} {env : Environment} (agrees : scope.Matches env) (name : Text)
    (value : Value) (levity : Levity) :
    Scope.Matches (scope.set name (levity = .boxed)) (env.bind name value levity) := by
  intro key
  rw [Table.get?_set,Environment.lookup?_bind]
  by_cases same : key = name
  · simp [same,Binding.isBoxed]
  · simp [same,agrees key]
/-- The phis of a loop keep the representation of the names they stand for. -/
theorem Scope.Matches.bindAll {scope : Scope} {env : Environment} (agrees : scope.Matches env)
    {points : List MergePoint} {names : List Text} (opened : ∀ point ∈ points, point.IsFor names env) :
    scope.Matches (MergePoint.bindAll env points) := by
  suffices general : ∀ start : Environment,
      (∀ name, (start.lookup? name).map Binding.isBoxed = (env.lookup? name).map Binding.isBoxed) →
      ∀ name, ((MergePoint.bindAll start points).lookup? name).map Binding.isBoxed =
        (env.lookup? name).map Binding.isBoxed by
    intro name
    rw [agrees name,general env (fun _ => rfl) name]
  induction points with
  | nil => exact fun start same => same
  | cons point rest ih =>
    intro start same
    refine ih (fun point later => opened point (List.mem_cons_of_mem _ later)) _ ?_
    intro name
    rw [Environment.lookup?_bind]
    obtain ⟨_,binding,bound,levity⟩ := opened point List.mem_cons_self
    by_cases here : name = point.name
    · simp [here,bound,Binding.isBoxed,levity]
    · simp [here,same name]

mutual

theorem Expr.lower_resolves (signatures : Table Nat) (e : Expr) {scope : Scope} {env : Environment}
    (agrees : scope.Matches env) (f : Frame) :
    Meets (e.lower signatures env) f (fun _ _ => e.violations scope = [])
      (fun fault _ => Blames (e.violations scope) fault) := by
  match e with
  | .literal n => exact .of_run rfl rfl
  | .var name =>
    simp only [Expr.lower,Expr.violations]
    have resolved := agrees.resolve name
    unfold Build.readVariable
    cases result : env.resolve name with
    | error fault =>
      rw [result] at resolved
      exact .of_error rfl resolved
    | ok binding =>
      rw [result] at resolved
      refine .whatever rfl (fun b after => ?_)
      split
      · exact .of_run rfl resolved
      · exact .of_run rfl resolved
  | .binary left op right =>
    simp only [Expr.lower,Expr.violations]
    refine .bind (left.lower_resolves signatures agrees f) (fun a after clean => ?_)
      (fun _ _ blames => blames.append _)
    rw [clean,List.nil_append]
    refine .andThen (right.lower_resolves signatures agrees after) (fun b after clean => ?_)
    unfold Build.arith
    split
    · exact .of_run rfl clean
    · exact .of_run rfl clean
  | .call callee args =>
    simp only [Expr.lower,Expr.violations]
    cases result : callable signatures callee args.length with
    | error fault => exact .of_error rfl ((callable_unscoped result).isOther.blames _)
    | ok _ =>
      refine .whatever rfl (fun _ after => ?_)
      refine .andThen (args.lower_resolves signatures agrees after) (fun values after clean => ?_)
      refine .bind (Build.identifier_meets callee after) (fun name after _ => ?_)
        (fun _ _ failed => failed.1.isUnscoped.isOther.blames _)
      exact .of_run rfl clean
  | .scope body =>
    simp only [Expr.lower,Expr.violations]
    refine .andThen (body.lower_resolves signatures agrees f) (fun result after clean => ?_)
    exact .of_run rfl clean.1
  | .loop cond body =>
    simp only [Expr.lower,Expr.violations]
    refine .bind (cond.lower_resolves signatures agrees f) (fun first after clean => ?_)
      (fun _ _ blames => blames.append _)
    rw [clean,List.nil_append]
    refine .whatever rfl (fun skip after => ?_)
    refine .whatever rfl (fun header after => ?_)
    refine .whatever rfl (fun exit after => ?_)
    refine .whatever rfl (fun preheader after => ?_)
    refine .bind (Build.terminate_unscoped _ after) (fun _ after _ => ?_) (fun _ _ unscoped => unscoped.isOther.blames _)
    refine .whatever rfl (fun _ after => ?_)
    refine .bind (MergePoint.openFor_meets _ env preheader after) (fun points after opened => ?_)
      (fun _ _ unscoped => unscoped.isOther.blames _)
    refine .andThen (body.lower_resolves signatures (agrees.bindAll opened) after)
      (fun result after bodyClean => ?_)
    obtain ⟨left,within,bodyAgrees⟩ := bodyClean.2
    -- The second visit to the condition sees every name that the first one saw.
    refine .bind (cond.lower_resolves signatures bodyAgrees after) (fun again after _ => ?_) (fun fault _ blames => ?_)
    · refine .whatever rfl (fun leave after => ?_)
      refine .whatever rfl (fun latch after => ?_)
      refine .bind (MergePoint.closeAll_unscoped _ latch points after) (fun closed after _ => ?_)
        (fun _ _ unscoped => unscoped.isOther.blames _)
      refine .bind (Build.terminate_unscoped _ after) (fun _ after _ => ?_) (fun _ _ unscoped => unscoped.isOther.blames _)
      exact .of_run rfl bodyClean.1
    · intro name undeclared
      obtain ⟨missing,rest,_,head⟩ := blames name undeclared
      have late : .undeclared missing ∈ cond.violations left := by rw [head]; exact List.mem_cons_self
      have early := cond.undeclared_mono within late
      rw [clean] at early
      exact absurd early List.not_mem_nil

theorem Args.lower_resolves (signatures : Table Nat) (args : Args) {scope : Scope} {env : Environment}
    (agrees : scope.Matches env) (f : Frame) :
    Meets (args.lower signatures env) f (fun _ _ => args.violations scope = [])
      (fun fault _ => Blames (args.violations scope) fault) := by
  match args with
  | .nil => exact .of_run rfl rfl
  | .cons first rest =>
    simp only [Args.lower,Args.violations]
    refine .bind (first.lower_resolves signatures agrees f) (fun value after clean => ?_)
      (fun _ _ blames => blames.append _)
    rw [clean,List.nil_append]
    refine .andThen (rest.lower_resolves signatures agrees after) (fun values after clean => ?_)
    exact .of_run rfl clean

theorem Stmt.lower_resolves (signatures : Table Nat) (s : Stmt) {scope : Scope} {env : Environment}
    (agrees : scope.Matches env) (f : Frame) :
    Meets (s.lower signatures env) f
      (fun env' _ => s.violations scope = [] ∧ (s.extend scope).Matches env')
      (fun fault _ => Blames (s.violations scope) fault) := by
  match s with
  | .discard value =>
    simp only [Stmt.lower,Stmt.violations,Stmt.extend]
    refine .andThen (value.lower_resolves signatures agrees f) (fun _ after clean => ?_)
    exact .of_run rfl ⟨clean,agrees⟩
  | .bindConst name value =>
    simp only [Stmt.lower,Stmt.violations,Stmt.extend]
    refine .andThen (value.lower_resolves signatures agrees f) (fun bound after clean => ?_)
    split
    · exact .of_error rfl (Fault.IsOther.blames (fun _ => by simp) _)
    · rename_i n _
      exact .of_run rfl ⟨clean,by simpa using agrees.bind name bound (.unboxed n)⟩
  | .bindMut name value =>
    simp only [Stmt.lower,Stmt.violations,Stmt.extend]
    refine .bind (Build.identifier_meets name f) (fun base after _ => ?_)
      (fun _ _ failed => failed.1.isUnscoped.isOther.blames _)
    refine .whatever rfl (fun cell after => ?_)
    refine .andThen (value.lower_resolves signatures agrees after) (fun bound after clean => ?_)
    exact .of_run rfl ⟨clean,agrees.bind name cell.pointer .boxed⟩
  | .assign name value =>
    simp only [Stmt.lower,Stmt.violations,Stmt.extend]
    have assigned := agrees.assignable name
    cases result : env.assignable name with
    | error fault =>
      rw [result] at assigned
      exact .of_error rfl (assigned.append _)
    | ok address =>
      rw [result] at assigned
      rw [assigned,List.nil_append]
      refine .whatever rfl (fun address after => ?_)
      refine .andThen (value.lower_resolves signatures agrees after) (fun bound after clean => ?_)
      exact .of_run rfl ⟨clean,agrees⟩

theorem Block.lower_resolves (signatures : Table Nat) (b : Block) {scope : Scope} {env : Environment}
    (agrees : scope.Matches env) (f : Frame) :
    Meets (b.lower signatures env) f
      (fun result _ => b.violations scope = [] ∧ ∃ left : Scope, scope.Within left ∧ left.Matches result.2)
      (fun fault _ => Blames (b.violations scope) fault) := by
  match b with
  | .result value =>
    simp only [Block.lower,Block.violations]
    refine .andThen (value.lower_resolves signatures agrees f) (fun _ after clean => ?_)
    exact .of_run rfl ⟨clean,scope,.refl scope,agrees⟩
  | .step first rest =>
    simp only [Block.lower,Block.violations]
    refine .bind (first.lower_resolves signatures agrees f) (fun env' after clean => ?_)
      (fun _ _ blames => blames.append _)
    rw [clean.1,List.nil_append]
    refine (rest.lower_resolves signatures clean.2 after).mono ?_ (fun _ _ blames => blames)
    rintro result after ⟨restClean,left,within,agreesLeft⟩
    exact ⟨restClean,left,(first.within_extend scope).trans within,agreesLeft⟩

end

/-! ### Lowering where there is no function to fill -/

/-- What lowering without a function says is what lowering into any function does, as long as nothing
    has to be emitted. -/
def Foretells {α β : Type} (result : Except Fault α) (work : Build β) (same : α → β → Prop) : Prop :=
  match result with
  | .ok a => ∀ f, ∃ b, work f = (.ok b,f) ∧ same a b
  | .error (.program error) => ∀ f, ∃ after, work f = (.error (.program error),after)
  | .error _ => True

/-- A sequence is foretold by its parts. -/
theorem Foretells.bind {α β γ δ : Type} {first : Except Fault α} {next : α → Except Fault β} {work : Build γ}
    {rest : γ → Build δ} {same : α → γ → Prop} {same' : β → δ → Prop} (foretold : Foretells first work same)
    (foretoldRest : ∀ a c, same a c → Foretells (next a) (rest c) same') :
    Foretells (first >>= next) (work >>= rest) same' := by
  cases first with
  | error fault =>
    cases fault with
    | program error =>
      intro f
      obtain ⟨after,run⟩ := foretold f
      exact ⟨after,Attempt.bind_run_error run⟩
    | _ => trivial
  | ok a =>
    show Foretells (next a) (work >>= rest) same'
    unfold Foretells
    split
    · rename_i b result
      intro f
      obtain ⟨c,run,related⟩ := foretold f
      have later := foretoldRest a c related
      rw [result] at later
      obtain ⟨d,runRest,related'⟩ := later f
      exact ⟨d,by rw [Attempt.bind_run_ok run,runRest],related'⟩
    · rename_i error result
      intro f
      obtain ⟨c,run,related⟩ := foretold f
      have later := foretoldRest a c related
      rw [result] at later
      obtain ⟨after,runRest⟩ := later f
      exact ⟨after,by rw [Attempt.bind_run_ok run,runRest]⟩
    · trivial
theorem Foretells.ofExcept {α : Type} (result : Except Fault α) : Foretells result (Attempt.ofExcept result) Eq := by
  cases result with
  | ok a => exact fun f => ⟨a,rfl,rfl⟩
  | error fault =>
    cases fault with
    | program error => exact fun f => ⟨f,rfl⟩
    | _ => trivial

mutual

theorem Expr.constant_foretells (signatures : Table Nat) (e : Expr) (env : Environment) :
    Foretells (e.constant signatures env) (e.lower signatures env) Eq := by
  match e with
  | .literal n => exact fun f => ⟨.ofInt n,rfl,rfl⟩
  | .var name =>
    simp only [Expr.constant,Expr.lower,Build.readVariable]
    refine (Foretells.ofExcept (env.resolve name)).bind ?_
    rintro binding _ rfl
    split
    · trivial
    · exact fun f => ⟨binding.value,rfl,rfl⟩
  | .binary left op right =>
    simp only [Expr.constant,Expr.lower]
    refine (left.constant_foretells signatures env).bind ?_
    rintro a _ rfl
    refine (right.constant_foretells signatures env).bind ?_
    rintro b _ rfl
    unfold Build.arith
    cases op.folded? a b with
    | some n => exact fun f => ⟨.ofInt n,rfl,rfl⟩
    | none => trivial
  | .call callee args =>
    simp only [Expr.constant,Expr.lower]
    refine (Foretells.ofExcept (callable signatures callee args.length)).bind ?_
    rintro _ _ rfl
    exact (args.constant_foretells signatures env).bind (fun _ _ _ => trivial)
  | .scope body =>
    simp only [Expr.constant,Expr.lower]
    refine (body.constant_foretells signatures env).bind ?_
    rintro ⟨value,_⟩ _ rfl
    exact fun f => ⟨value,rfl,rfl⟩
  | .loop _ _ => trivial

theorem Args.constant_foretells (signatures : Table Nat) (args : Args) (env : Environment) :
    Foretells (args.constant signatures env) (args.lower signatures env) (fun _ _ => True) := by
  match args with
  | .nil => exact fun f => ⟨[],rfl,trivial⟩
  | .cons first rest =>
    simp only [Args.constant,Args.lower]
    refine (first.constant_foretells signatures env).bind (fun _ value _ => ?_)
    -- The values of the rest are only put behind the first one.
    have later := rest.constant_foretells signatures env
    unfold Foretells at later ⊢
    split at later
    · intro f
      obtain ⟨values,run,_⟩ := later f
      exact ⟨value :: values,Attempt.bind_run_ok run,trivial⟩
    · intro f
      obtain ⟨after,run⟩ := later f
      exact ⟨after,Attempt.bind_run_error run⟩
    · trivial

theorem Stmt.constant_foretells (signatures : Table Nat) (s : Stmt) (env : Environment) :
    Foretells (s.constant signatures env) (s.lower signatures env) Eq := by
  match s with
  | .discard value =>
    simp only [Stmt.constant,Stmt.lower]
    refine (value.constant_foretells signatures env).bind (fun _ _ _ => ?_)
    exact fun f => ⟨env,rfl,rfl⟩
  | .bindConst name value =>
    simp only [Stmt.constant,Stmt.lower]
    refine (value.constant_foretells signatures env).bind ?_
    rintro bound _ rfl
    cases bound.known? with
    | none => exact fun f => ⟨f,rfl⟩
    | some n => exact fun f => ⟨env.bind name bound (.unboxed n),rfl,rfl⟩
  | .bindMut _ _ => trivial
  | .assign name value =>
    simp only [Stmt.constant,Stmt.lower]
    refine (Foretells.ofExcept (env.assignable name)).bind (fun _ _ _ => ?_)
    exact (value.constant_foretells signatures env).bind (fun _ _ _ => trivial)

theorem Block.constant_foretells (signatures : Table Nat) (b : Block) (env : Environment) :
    Foretells (b.constant signatures env) (b.lower signatures env) Eq := by
  match b with
  | .result value =>
    simp only [Block.constant,Block.lower]
    refine (value.constant_foretells signatures env).bind ?_
    rintro result _ rfl
    exact fun f => ⟨(result,env),rfl,rfl⟩
  | .step first rest =>
    simp only [Block.constant,Block.lower]
    refine (first.constant_foretells signatures env).bind ?_
    rintro env' _ rfl
    exact rest.constant_foretells signatures env'

end

/-! ### Programs -/

theorem Program.lower_resolves (signatures : Table Nat) (program : Program) {scope : Scope} {env : Environment}
    (agrees : scope.Matches env) (f : Frame) :
    Meets (program.subject.lowerProgram signatures env) f (fun _ _ => program.node.violations scope = [])
      (fun fault _ => Blames (program.node.violations scope) fault) := by
  cases program with
  | expr e => exact e.lower_resolves signatures agrees f
  | block b =>
    refine .andThen (b.lower_resolves signatures agrees f) (fun result after clean => ?_)
    exact .of_run rfl clean.1
theorem Program.constant_foretells (signatures : Table Nat) (program : Program) (env : Environment) :
    Foretells (program.subject.constantProgram signatures env) (program.subject.lowerProgram signatures env) Eq := by
  cases program with
  | expr e => exact e.constant_foretells signatures env
  | block b =>
    refine (b.constant_foretells signatures env).bind ?_
    rintro ⟨value,_⟩ _ rfl
    exact fun f => ⟨value,rfl,rfl⟩
/-- A frame in which nothing has been filled. -/
def Frame.blank : Frame := ⟨Function.declare [] 0,⟨⟨[],0⟩,[]⟩,[],[],[]⟩
theorem Program.constant_resolves (signatures : Table Nat) (program : Program) {scope : Scope} {env : Environment}
    (agrees : scope.Matches env) :
    Allows (fun _ => program.node.violations scope = []) (Blames (program.node.violations scope))
      (program.subject.constantProgram signatures env) := by
  have foretold := program.constant_foretells signatures env
  have resolved := program.lower_resolves signatures agrees .blank
  cases result : program.subject.constantProgram signatures env with
  | ok value =>
    rw [result] at foretold
    obtain ⟨_,run,_⟩ := foretold .blank
    exact resolved.ok run
  | error fault =>
    rw [result] at foretold
    cases fault with
    | program error =>
      obtain ⟨_,run⟩ := foretold .blank
      exact resolved.error run
    | _ => exact Fault.IsOther.blames (fun _ => by simp) _
/-- What holds of a step both in a function and without one holds of it in a draft. -/
theorem Draft.fill_allows {α : Type} {work : Build α} {idle : Except Fault α} {good : α → Prop} {bad : Fault → Prop}
    (inside : ∀ f, Meets work f (fun a _ => good a) (fun fault _ => bad fault)) (outside : Allows good bad idle)
    (draft : Draft) : Allows good bad (fill work idle draft).1 := by
  unfold fill
  split
  · rename_i fn filling _ _
    have allowed := Attempt.meets_iff_allows.mp (inside (draft.frame fn filling))
    exact allowed
  · exact outside
/-- Whether there is a function to fill or not, lowering resolves names as the check does. -/
theorem Draft.lowerProgram_resolves (program : Program) {scope : Scope} {env : Environment}
    (agrees : scope.Matches env) (draft : Draft) :
    Allows (fun _ => program.node.violations scope = []) (Blames (program.node.violations scope))
      (lowerProgram program.subject env draft).1 :=
  fill_allows (program.lower_resolves draft.signatures agrees) (program.constant_resolves draft.signatures agrees) draft
theorem Node.check_eq_nil_iff (n : Node) (scope : Scope) : n.check scope = [] ↔ n.violations scope = [] := by
  unfold check
  cases n.violations scope with
  | nil => simp
  | cons first rest => simp [List.eraseDups_cons]
theorem Node.check_cons (n : Node) (scope : Scope) {first : Violation} {rest : List Violation}
    (starts : n.violations scope = first :: rest) : ∃ more, n.check scope = first :: more := by
  unfold check
  rw [starts,List.eraseDups_cons]
  exact ⟨_,rfl⟩

/-- For every program and environment and the scope that matches it: if lowering succeeds, the check finds
    nothing; if it meets an undeclared variable, the check reports this one first; so it meets none if
    the check finds nothing. The functions that are declared play no part. -/
theorem check_agrees_with_lowering (program : Program) (env : Environment) (scope : Scope) (draft : Draft)
    (agrees : scope.Matches env) :
    (∀ value, (Draft.lowerProgram program.subject env draft).1 = .ok value → program.node.check scope = []) ∧
    (∀ name, (Draft.lowerProgram program.subject env draft).1 = .error (.program (.undeclaredVariable name)) →
      ∃ rest, (program.node.check scope).map Violation.error = .undeclaredVariable name :: rest) ∧
    (program.node.check scope = [] → ∀ name,
      (Draft.lowerProgram program.subject env draft).1 ≠ .error (.program (.undeclaredVariable name))) := by
  have resolved := Draft.lowerProgram_resolves program agrees draft
  have blamed : ∀ name, (Draft.lowerProgram program.subject env draft).1 = .error (.program (.undeclaredVariable name)) →
      ∃ rest, (program.node.check scope).map Violation.error = .undeclaredVariable name :: rest := by
    intro name failed
    rw [failed] at resolved
    obtain ⟨missing,rest,rfl,head⟩ := resolved name rfl
    obtain ⟨more,starts⟩ := program.node.check_cons scope head
    exact ⟨more.map Violation.error,by rw [starts]; rfl⟩
  refine ⟨?_,blamed,?_⟩
  · intro value done
    rw [done] at resolved
    exact (program.node.check_eq_nil_iff scope).mpr resolved
  · intro clean name failed
    obtain ⟨rest,starts⟩ := blamed name failed
    rw [clean] at starts
    cases starts

/-- A loop on `x` whose body assigns to it what `y` holds. -/
def copyingLoop : Program :=
  .expr (.loop (.var (lit "x")) (.step (.assign (lit "x") (.var (lit "y"))) (.result (.literal 0))))
/-- An environment that knows a mutable `x` and nothing else. -/
def cellOnly : Environment := Environment.empty.bind (lit "x") (.reg (lit "x") .pointer) .boxed
/-- A draft whose entry function has its blocks and is still empty. -/
def emptyEntry : Draft :=
  (Draft.openEntry
    { Draft.new {} with functions := [.declare (lit "main") 0], signatures := [(lit "main",0)], entry := some (lit "main") }).2
/-- The variable that a failure says is undeclared. -/
def undeclared? {α : Type} : Except Fault α → Option Text
  | .error (.program (.undeclaredVariable (.text name))) => some name
  | _ => none

theorem eq_error_of_undeclared? {α : Type} {result : Except Fault α} {name : Text} (blamed : undeclared? result = some name) :
    result = .error (.program (.undeclaredVariable (.text name))) := by
  unfold undeclared? at blamed
  split at blamed
  · cases blamed
    rfl
  · cases blamed
/-- Where there is no `y`, lowering the loop and checking it both blame `y`. -/
theorem check_agrees_with_lowering_copyingLoop :
    Scope.Matches [(lit "x",true)] cellOnly ∧
    (Draft.lowerProgram copyingLoop.subject cellOnly emptyEntry).1 =
      .error (.program (.undeclaredVariable (.text (lit "y")))) ∧
    ∃ rest, (copyingLoop.node.check [(lit "x",true)]).map Violation.error =
      .undeclaredVariable (.text (lit "y")) :: rest := by
  have agrees : Scope.Matches [(lit "x",true)] cellOnly := by
    intro name
    by_cases same : lit "x" = name
    · subst same; rfl
    · simp [cellOnly,Environment.empty,Environment.bind,Environment.lookup?,Table.set,Table.get?,same]
  have failed : (Draft.lowerProgram copyingLoop.subject cellOnly emptyEntry).1 =
      .error (.program (.undeclaredVariable (.text (lit "y")))) :=
    eq_error_of_undeclared? (by decide +kernel)
  exact ⟨agrees,failed,(check_agrees_with_lowering copyingLoop cellOnly _ emptyEntry agrees).2.1 _ failed⟩

end Lev
