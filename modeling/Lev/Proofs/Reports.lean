import Lev.Proofs.Arities
import Lev.Proofs.Building

/-!
What a build reports before it emits anything, and what it leaves. Main statement: a build from scratch
reports all conflicts of arity, all names of functions that the target cannot carry and all violations of
scope, in this order, and leaves nothing behind if there are any; and however a build has ended, another
build on its draft fails and changes nothing.
-/
namespace Lev

theorem Identifier.error?_iff {name : Text} :
    (∃ reason, error? name = some (.badIdentifier (.text name) reason)) ↔
      name = [] ∨ .char (Char.ofNat 0) ∈ name ∨ ∃ offset, .surrogate offset ∈ name := by
  have encodable : name.all CodePoint.isEncodable = false ↔ ∃ offset, .surrogate offset ∈ name := by
    rw [List.all_eq_false]
    constructor
    · rintro ⟨point,member,fails⟩
      cases point with
      | char c => exact absurd rfl fails
      | surrogate offset => exact ⟨offset,member⟩
    · rintro ⟨offset,member⟩
      exact ⟨_,member,by simp [CodePoint.isEncodable]⟩
  rw [← encodable]
  unfold error? reason?
  by_cases empty : name = []
  · simp [empty]
  · by_cases nul : .char (Char.ofNat 0) ∈ name
    · simp [empty,nul]
    · by_cases carried : name.all CodePoint.isEncodable <;> simp [empty,nul,carried]

namespace Draft

/-- The entry function counts as called without arguments. -/
def entrySite (options : Options) : Table Int := [(options.entryName,0)]
/-- The errors of a program that are found before anything is emitted. -/
def report (options : Options) (n : Node) : List ProgramError :=
  let known := entrySite options
  ((Signatures.disputed known n.calls).filterMap (Signatures.conflict? known n.calls)).map Conflict.error ++
    (options.entryName :: n.calls.map CallSite.name).eraseDups.filterMap Identifier.error? ++
    (n.check []).map Violation.error

theorem findings_eq_report (options : Options) (n : Node) : findings options n = report options n := by
  have distinct : (entrySite options).names.Nodup := List.nodup_singleton options.entryName
  have reflects := Signatures.ofCalls_reflects distinct n.calls
  have conflicts := congrArg (List.map Conflict.error) reflects.conflicts
  have names := congrArg (List.filterMap Identifier.error?) reflects.names
  exact congrArg₂ _ (congrArg₂ _ conflicts names) rfl

/-! ### A draft builds once -/

/-- The step does not touch the mark of a draft that has built. -/
def KeepsMark {α : Type} (step : Session α) : Prop := ∀ draft, (step draft).2.built = draft.built

section
variable {α β : Type}

theorem KeepsMark.bind {step : Session α} {next : α → Session β} (first : KeepsMark step) (rest : ∀ a, KeepsMark (next a)) :
    KeepsMark (step >>= next) := by
  intro draft
  have kept := first draft
  rcases run : step draft with ⟨fault | a,after⟩
  · rw [Attempt.bind_run_error run]
    rwa [run] at kept
  · rw [Attempt.bind_run_ok run,rest a after]
    rwa [run] at kept
theorem KeepsMark.fill (work : Build α) (idle : Except Fault α) : KeepsMark (fill work idle) := by
  intro draft
  unfold Draft.fill
  split <;> rfl
theorem KeepsMark.reported {step : Session α} (kept : KeepsMark step) : KeepsMark (reported step) := by
  intro draft
  have kept := kept draft
  unfold Draft.reported
  split
  · rename_i same
    rw [same] at kept
    exact kept
  · exact kept
theorem KeepsMark.declare (name : Text) (arity : Int) : KeepsMark (declare name arity) := by
  refine KeepsMark.bind (fun _ => rfl) (fun known => ?_)
  cases known with
  | some fn =>
    intro draft
    dsimp only
    split <;> rfl
  | none =>
    intro draft
    cases Identifier.error? name <;> rfl
theorem KeepsMark.declareAll (table : Table Int) : KeepsMark (declareAll table) := by
  induction table with
  | nil => exact fun _ => rfl
  | cons entry rest ih => exact .bind (.declare _ _) (fun _ => ih)
theorem KeepsMark.buildEntry (subject : Subject) : KeepsMark (buildEntry subject) := by
  refine .bind ?_ (fun _ => .bind (fun _ => rfl) (fun signatures => .fill _ _))
  intro draft
  unfold openEntry
  split <;> rfl

end

theorem once_of_built (work : Session Unit) {draft : Draft} (already : draft.built = true) :
    once work draft = (.error .alreadyBuilt,draft) := by
  unfold once
  rw [Attempt.bind_run_ok (Attempt.read_run _ _),already]
  rfl
theorem once_of_new (work : Session Unit) {draft : Draft} (fresh : draft.built = false) :
    once work draft = work { draft with built := true } := by
  unfold once
  rw [Attempt.bind_run_ok (Attempt.read_run _ _),fresh]
  rfl
/-- However a build ends, its draft is marked. -/
theorem built_build (subject : Subject) (draft : Draft) : (build subject draft).2.built = true := by
  unfold build
  cases already : draft.built with
  | true => rwa [once_of_built _ already]
  | false =>
    rw [once_of_new _ already]
    -- Once the mark is set, no step of the build takes it away.
    refine KeepsMark.bind (fun _ => rfl) (fun options => .bind (fun _ => rfl) (fun discovered => ?_)) _
    refine .bind (fun _ => rfl) (fun violations => ?_)
    split
    · refine .bind (.declareAll _) (fun _ => .bind (.declare _ _) (fun entry => .bind (fun _ => rfl) (fun _ => ?_)))
      exact .reported (.buildEntry subject)
    · exact fun _ => rfl
theorem build_of_built (subject : Subject) {draft : Draft} (already : draft.built = true) :
    build subject draft = (.error .alreadyBuilt,draft) := once_of_built _ already

end Draft

/-- Whatever the program and the options: a build from scratch reports every name that is called with two numbers of
    arguments, then every function name that the target cannot carry, then the violations of scope, and if there is
    anything to report it leaves no function, cell or merge point. However it ends, the draft builds nothing more. -/
theorem build_reports_once (program : Program) (options : Options) :
    let known := Draft.entrySite options
    let sites := program.node.calls
    let errors := Draft.report options program.node
    let outcome := Draft.build program.subject (.new options)
    (∀ site, site ∈ sites ↔ program.node.Calls site) ∧
    (Signatures.disputed known sites).Nodup ∧
    (∀ name, name ∈ Signatures.disputed known sites ↔
      ∃ one other, one ≠ other ∧ Signatures.Given known sites name one ∧ Signatures.Given known sites name other) ∧
    ((Signatures.disputed known sites).filterMap (Signatures.conflict? known sites)).map Conflict.name =
      Signatures.disputed known sites ∧
    (∀ name, (∃ reason, Identifier.error? name = some (.badIdentifier (.text name) reason)) ↔
      name = [] ∨ .char (Char.ofNat 0) ∈ name ∨ ∃ offset, .surrogate offset ∈ name) ∧
    (errors ≠ [] → outcome.1 = .error (.program (.build errors)) ∧ outcome.2.module.functions = [] ∧
      outcome.2.signatures = [] ∧ outcome.2.entryFunction? = none ∧ outcome.2.filling = none ∧ outcome.2.points = []) ∧
    ∀ subject, Draft.build subject outcome.2 = (.error .alreadyBuilt,outcome.2) := by
  refine ⟨program.node.mem_calls_iff,Text.nodup_eraseDups _,fun name => Signatures.mem_disputed_iff_given,
    Signatures.names_conflict? _ _,fun name => Identifier.error?_iff,?_,?_⟩
  · intro dirty
    rw [← Draft.findings_eq_report] at dirty ⊢
    rw [Draft.build_of_findings dirty]
    exact ⟨rfl,rfl,rfl,rfl,rfl,rfl⟩
  · intro subject
    exact Draft.build_of_built subject (Draft.built_build _ _)

/-- A program that calls `f` and the entry function with different numbers of arguments, calls a function without
    a name, and reads a name that it never binds. -/
def quarrel : Program :=
  .block (.step (.discard (.call (lit "f") (.cons (.literal 1) .nil)))
    (.step (.discard (.loop (.call (lit "f") .nil) (.result (.call [] .nil))))
    (.result (.call (lit "main") (.cons (.var (lit "x")) .nil)))))
/-- Everything that is wrong with the program is reported, and nothing is emitted. -/
theorem build_reports_once_quarrel :
    (Draft.report {} quarrel.node).map ProgramError.message =
      [lit "Function 'f' is called with different numbers of arguments (1 and 0 arguments)",
        lit "Function 'main' is called with different numbers of arguments (0 and 1 arguments)",
        lit "Identifier '' cannot be used as an LLVM name: name is empty",
        lit "Undeclared identifier 'x': variable has not been declared in this scope"] ∧
      (Draft.build quarrel.subject (.new {})).1 = .error (.program (.build (Draft.report {} quarrel.node))) ∧
      (Draft.build quarrel.subject (.new {})).2.module.functions = [] := by
  have dirty : Draft.report {} quarrel.node ≠ [] := by
    have found : (Draft.report {} quarrel.node).isEmpty = false := by decide +kernel
    simpa using found
  obtain ⟨_,_,_,_,_,failed,_⟩ := build_reports_once quarrel {}
  exact ⟨by decide +kernel,(failed dirty).1,(failed dirty).2.1⟩

end Lev
