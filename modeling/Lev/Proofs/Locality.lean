import Lev.Proofs.Agreement
import Lev.Proofs.Building
import Lev.Proofs.Machine
import Lev.Proofs.Rounds

/-!
Bindings in the body of a loop. The second visit to the condition of a loop and the phis of its header
see the environment that the body leaves, so a binding of the body reaches the next round if the
condition uses its name. Main statement: otherwise it makes no difference to put the body in a scope of
its own.
-/
namespace Lev

/-- The block in a scope of its own. -/
def Block.enclosed (b : Block) : Block := .step (.discard (.scope b)) (.result (.literal 0))

/-- The body of the loop binds a name that the condition reads, or that it assigns and does not bind itself. -/
def Captures (cond : Expr) (body : Block) : Prop := ∃ name ∈ body.binders, name ∈ cond.reads ∨ name ∈ cond.targets

instance (cond : Expr) (body : Block) : Decidable (Captures cond body) := inferInstanceAs (Decidable (∃ name ∈ _, _))

mutual

/-- The second expression is the first one, but for one loop of the given condition and body: its body is in
    a scope of its own. -/
inductive Expr.Encloses (cond : Expr) (body : Block) : Expr → Expr → Prop
  | here : Expr.Encloses cond body (.loop cond body) (.loop cond body.enclosed)
  | left {e e' : Expr} {op : Operator} {right : Expr} (inside : Expr.Encloses cond body e e') :
      Expr.Encloses cond body (.binary e op right) (.binary e' op right)
  | right {left : Expr} {op : Operator} {e e' : Expr} (inside : Expr.Encloses cond body e e') :
      Expr.Encloses cond body (.binary left op e) (.binary left op e')
  | args {callee : Text} {args args' : Args} (inside : Args.Encloses cond body args args') :
      Expr.Encloses cond body (.call callee args) (.call callee args')
  | scope {b b' : Block} (inside : Block.Encloses cond body b b') : Expr.Encloses cond body (.scope b) (.scope b')
  | cond {e e' : Expr} {b : Block} (inside : Expr.Encloses cond body e e') :
      Expr.Encloses cond body (.loop e b) (.loop e' b)
  | body {e : Expr} {b b' : Block} (inside : Block.Encloses cond body b b') :
      Expr.Encloses cond body (.loop e b) (.loop e b')

inductive Args.Encloses (cond : Expr) (body : Block) : Args → Args → Prop
  | first {e e' : Expr} {rest : Args} (inside : Expr.Encloses cond body e e') :
      Args.Encloses cond body (.cons e rest) (.cons e' rest)
  | rest {first : Expr} {args args' : Args} (inside : Args.Encloses cond body args args') :
      Args.Encloses cond body (.cons first args) (.cons first args')

inductive Stmt.Encloses (cond : Expr) (body : Block) : Stmt → Stmt → Prop
  | discard {e e' : Expr} (inside : Expr.Encloses cond body e e') : Stmt.Encloses cond body (.discard e) (.discard e')
  | bindConst {name : Text} {e e' : Expr} (inside : Expr.Encloses cond body e e') :
      Stmt.Encloses cond body (.bindConst name e) (.bindConst name e')
  | bindMut {name : Text} {e e' : Expr} (inside : Expr.Encloses cond body e e') :
      Stmt.Encloses cond body (.bindMut name e) (.bindMut name e')
  | assign {name : Text} {e e' : Expr} (inside : Expr.Encloses cond body e e') :
      Stmt.Encloses cond body (.assign name e) (.assign name e')

inductive Block.Encloses (cond : Expr) (body : Block) : Block → Block → Prop
  | result {e e' : Expr} (inside : Expr.Encloses cond body e e') : Block.Encloses cond body (.result e) (.result e')
  | first {s s' : Stmt} {rest : Block} (inside : Stmt.Encloses cond body s s') :
      Block.Encloses cond body (.step s rest) (.step s' rest)
  | rest {first : Stmt} {b b' : Block} (inside : Block.Encloses cond body b b') :
      Block.Encloses cond body (.step first b) (.step first b')

end

inductive Program.Encloses (cond : Expr) (body : Block) : Program → Program → Prop
  | expr {e e' : Expr} (inside : Expr.Encloses cond body e e') : Program.Encloses cond body (.expr e) (.expr e')
  | block {b b' : Block} (inside : Block.Encloses cond body b b') : Program.Encloses cond body (.block b) (.block b')

/-! ### The loop -/

theorem Block.enclosed_run {signatures : Table Nat} (b : Block) (env : Environment) (f : Frame) :
    b.enclosed.lower signatures env f =
      match b.lower signatures env f with
      | (.ok _,after) => (.ok (.ofInt 0,env),after)
      | (.error fault,after) => (.error fault,after) := by
  simp only [Block.enclosed,Block.lower,Stmt.lower,Expr.lower,Attempt.bind_run]
  rcases b.lower signatures env f with ⟨fault | result,after⟩
  · rfl
  · rfl
/-- If the body binds no name that the condition uses, lowering cannot tell it from the body in a scope of its own. -/
theorem Expr.lower_enclosed (signatures : Table Nat) {cond : Expr} {body : Block} (apart : ¬Captures cond body)
    (env : Environment) : (Expr.loop cond body).lower signatures env = (Expr.loop cond body.enclosed).lower signatures env := by
  simp only [Expr.lower]
  refine bind_congr fun first => bind_congr fun skip => bind_congr fun header => bind_congr fun exit => ?_
  refine bind_congr fun preheader => bind_congr fun _ => bind_congr fun _ => ?_
  funext f
  rw [Attempt.bind_run,Attempt.bind_run]
  rcases opened : MergePoint.openFor cond.reads env preheader f with ⟨fault | points,f₁⟩
  · rfl
  have isFor := (MergePoint.openFor_meets cond.reads env preheader f).ok opened
  dsimp only
  rw [Attempt.bind_run,Attempt.bind_run,body.enclosed_run]
  rcases ran : body.lower signatures (MergePoint.bindAll env points) f₁ with ⟨fault | result,f₂⟩
  · rfl
  have reads (name : Text) (read : name ∈ cond.reads) : result.2.Agree (MergePoint.bindAll env points) name :=
    body.lookup?_lower ran fun binder => apart ⟨name,binder,.inl read⟩
  have targets (name : Text) (target : name ∈ cond.targets) : result.2.Agree (MergePoint.bindAll env points) name :=
    body.lookup?_lower ran fun binder => apart ⟨name,binder,.inr target⟩
  dsimp only
  rw [cond.lower_agree signatures reads targets]
  refine congrFun (bind_congr fun again => bind_congr fun leave => bind_congr fun latch => ?_) f₂
  have points_agree (name : Text) (listed : name ∈ points.map MergePoint.name) :
      result.2.Agree (MergePoint.bindAll env points) name := by
    obtain ⟨point,member,rfl⟩ := List.mem_map.mp listed
    exact reads _ (isFor point member).1
  rw [MergePoint.closeAll_agree points_agree]

/-! ### What surrounds the loop -/

/-- The analyses and lowering do not tell the expressions apart. -/
structure Expr.Same (e e' : Expr) : Prop where
  reads : e.reads = e'.reads
  calls : e.calls = e'.calls
  violations : e.violations = e'.violations
  lower : ∀ signatures, e.lower signatures = e'.lower signatures

structure Args.Same (args args' : Args) : Prop where
  length : args.length = args'.length
  reads : args.reads = args'.reads
  calls : args.calls = args'.calls
  violations : args.violations = args'.violations
  lower : ∀ signatures, args.lower signatures = args'.lower signatures

structure Stmt.Same (s s' : Stmt) : Prop where
  extend : ∀ scope, s.extend scope = s'.extend scope
  reads : s.reads = s'.reads
  calls : s.calls = s'.calls
  violations : s.violations = s'.violations
  lower : ∀ signatures, s.lower signatures = s'.lower signatures

structure Block.Same (b b' : Block) : Prop where
  reads : b.reads = b'.reads
  calls : b.calls = b'.calls
  violations : b.violations = b'.violations
  lower : ∀ signatures, b.lower signatures = b'.lower signatures

section
variable {cond : Expr} {body : Block}

theorem Expr.same_enclosed (apart : ¬Captures cond body) : Expr.Same (.loop cond body) (.loop cond body.enclosed) where
  reads := by simp [Expr.reads,Block.enclosed,Block.reads,Stmt.reads]
  calls := by simp [Expr.calls,Block.enclosed,Block.calls,Stmt.calls]
  violations := by
    funext scope
    simp [Expr.violations,Block.enclosed,Block.violations,Stmt.violations]
  lower signatures := funext (Expr.lower_enclosed signatures apart)

mutual

theorem Expr.Encloses.same {e e' : Expr} (apart : ¬Captures cond body) (encloses : Expr.Encloses cond body e e') : e.Same e' := by
  cases encloses with
  | here => exact Expr.same_enclosed apart
  | left inside | right inside | scope inside | cond inside | body inside =>
    have same := inside.same apart
    refine ⟨?_,?_,funext fun scope => ?_,fun signatures => funext fun env => ?_⟩
    · simp only [Expr.reads,same.reads]
    · simp only [Expr.calls,same.calls]
    · simp only [Expr.violations,same.violations]
    · simp only [Expr.lower,same.lower,same.reads]
  | args inside =>
    have same := inside.same apart
    refine ⟨?_,?_,funext fun scope => ?_,fun signatures => funext fun env => ?_⟩
    · simp only [Expr.reads,same.reads]
    · simp only [Expr.calls,same.calls,same.length]
    · simp only [Expr.violations,same.violations]
    · simp only [Expr.lower,same.lower,same.length]

theorem Args.Encloses.same {args args' : Args} (apart : ¬Captures cond body) (encloses : Args.Encloses cond body args args') : args.Same args' := by
  cases encloses with
  | first inside =>
    have same := inside.same apart
    refine ⟨rfl,?_,?_,funext fun scope => ?_,fun signatures => funext fun env => ?_⟩
    · simp only [Args.reads,same.reads]
    · simp only [Args.calls,same.calls]
    · simp only [Args.violations,same.violations]
    · simp only [Args.lower,same.lower]
  | rest inside =>
    have same := inside.same apart
    refine ⟨congrArg (· + 1) same.length,?_,?_,funext fun scope => ?_,fun signatures => funext fun env => ?_⟩
    · simp only [Args.reads,same.reads]
    · simp only [Args.calls,same.calls]
    · simp only [Args.violations,same.violations]
    · simp only [Args.lower,same.lower]

theorem Stmt.Encloses.same {s s' : Stmt} (apart : ¬Captures cond body) (encloses : Stmt.Encloses cond body s s') : s.Same s' := by
  cases encloses with
  | discard inside | bindConst inside | bindMut inside | assign inside =>
    have same := inside.same apart
    refine ⟨fun scope => rfl,?_,?_,funext fun scope => ?_,fun signatures => funext fun env => ?_⟩
    · simp only [Stmt.reads,same.reads]
    · simp only [Stmt.calls,same.calls]
    · simp only [Stmt.violations,same.violations]
    · simp only [Stmt.lower,same.lower]

theorem Block.Encloses.same {b b' : Block} (apart : ¬Captures cond body) (encloses : Block.Encloses cond body b b') : b.Same b' := by
  cases encloses with
  | result inside | rest inside =>
    have same := inside.same apart
    refine ⟨?_,?_,funext fun scope => ?_,fun signatures => funext fun env => ?_⟩
    · simp only [Block.reads,same.reads]
    · simp only [Block.calls,same.calls]
    · simp only [Block.violations,same.violations]
    · simp only [Block.lower,same.lower]
  | first inside =>
    have same := inside.same apart
    refine ⟨?_,?_,funext fun scope => ?_,fun signatures => funext fun env => ?_⟩
    · simp only [Block.reads,same.reads]
    · simp only [Block.calls,same.calls]
    · simp only [Block.violations,same.violations,same.extend]
    · simp only [Block.lower,same.lower]

end

theorem Program.Encloses.lower_eq {program program' : Program} (encloses : Program.Encloses cond body program program')
    (apart : ¬Captures cond body) (signatures : Table Nat) :
    program.subject.lowerProgram signatures = program'.subject.lowerProgram signatures := by
  funext env
  cases encloses with
  | expr inside => exact congrFun ((inside.same apart).lower signatures) env
  | block inside => simp only [Program.subject,Program.node,Subject.lowerProgram,(inside.same apart).lower]
theorem Program.Encloses.analyses {program program' : Program} (encloses : Program.Encloses cond body program program')
    (apart : ¬Captures cond body) :
    program.node.calls = program'.node.calls ∧ program.node.check [] = program'.node.check [] := by
  cases encloses with
  | expr inside | block inside =>
    have same := inside.same apart
    exact ⟨same.calls,by simp only [Node.check,Node.violations,Program.node,same.violations]⟩
theorem Program.Encloses.build_eq {program program' : Program} (encloses : Program.Encloses cond body program program')
    (apart : ¬Captures cond body) (options : Options) :
    Draft.build program.subject (.new options) = Draft.build program'.subject (.new options) := by
  obtain ⟨calls,check⟩ := encloses.analyses apart
  have findings : Draft.findings options program.node = Draft.findings options program'.node := by
    simp only [Draft.findings,calls,check]
  have callees : Draft.callees options program.node = Draft.callees options program'.node := by
    simp only [Draft.callees,calls]
  have entry : Draft.buildEntry program.subject = Draft.buildEntry program'.subject := by
    simp only [Draft.buildEntry,Draft.fillEntry,encloses.lower_eq apart]
  rw [Draft.build_run,Draft.build_run,findings]
  simp only [Draft.proceed,callees,entry]

end

/-- If the body of a loop binds no name that the condition uses, the bindings of the body are local to one
    round: with the body in a scope of its own, the program is built into the same module, or fails alike.
    So the entry function returns the same after the same calls, however the functions outside behave. -/
theorem body_bindings_local (cond : Expr) (body : Block) (program program' : Program) (options : Options)
    (encloses : Program.Encloses cond body program program') (apart : ¬Captures cond body) :
    Draft.build program.subject (.new options) = Draft.build program'.subject (.new options) ∧
    ∀ draft draft', Draft.build program.subject (.new options) = (.ok (),draft) →
      Draft.build program'.subject (.new options) = (.ok (),draft') → ∀ world w trace,
        draft.module.Returns world options.entryName w trace ↔ draft'.module.Returns world options.entryName w trace := by
  have same := encloses.build_eq apart options
  refine ⟨same,?_⟩
  intro draft draft' built built' world w trace
  rw [same,built'] at built
  cases built
  rfl

/-- A program with one loop, which counts a cell down from three, and returns what is left in the cell. -/
def counting (body : Block) : Program :=
  .block (.step (.bindMut (lit "n") (.literal 3)) (.step (.discard (.loop (.var (lit "n")) body)) (.result (.var (lit "n")))))
/-- Takes a constant, which has a name, from the cell. -/
def namedStep : Block :=
  .step (.bindConst (lit "one") (.literal 1))
    (.step (.assign (lit "n") (.binary (.var (lit "n")) .sub (.var (lit "one")))) (.result (.literal 0)))
/-- Takes one from the cell and gives its name to another. -/
def shadowingStep : Block :=
  .step (.assign (lit "n") (.binary (.var (lit "n")) .sub (.literal 1)))
    (.step (.bindMut (lit "n") (.literal 0)) (.result (.literal 0)))

theorem counting_encloses (body : Block) :
    Program.Encloses (.var (lit "n")) body (counting body) (counting body.enclosed) :=
  .block (.rest (.first (.discard .here)))
theorem body_bindings_local_counting :
    ¬Captures (.var (lit "n")) namedStep ∧ (Draft.build (counting namedStep).subject (.new {})).1 = .ok () ∧
      Draft.build (counting namedStep).subject (.new {}) = Draft.build (counting namedStep.enclosed).subject (.new {}) := by
  have apart : ¬Captures (.var (lit "n")) namedStep := by decide +kernel
  have built : (Draft.build (counting namedStep).subject (.new {})).1 = .ok () := Attempt.eq_ok_of_isOk (by decide +kernel)
  exact ⟨apart,built,(body_bindings_local _ _ _ _ {} (counting_encloses namedStep) apart).1⟩

/-- Not every loop does the same with its body in a scope of its own: here the condition reads the binding of the
    body from the second round on, and two is left in the cell instead of zero. -/
theorem body_bindings_leak :
    ¬∀ (cond : Expr) (body : Block) (program program' : Program) (options : Options),
      Program.Encloses cond body program program' → ∀ draft draft',
        Draft.build program.subject (.new options) = (.ok (),draft) →
        Draft.build program'.subject (.new options) = (.ok (),draft') → ∀ world w trace,
          draft.module.Returns world options.entryName w trace ↔ draft'.module.Returns world options.entryName w trace := by
  intro same
  have built : (Draft.build (counting shadowingStep).subject (.new {})).1 = .ok () :=
    Attempt.eq_ok_of_isOk (by decide +kernel)
  have built' : (Draft.build (counting shadowingStep.enclosed).subject (.new {})).1 = .ok () :=
    Attempt.eq_ok_of_isOk (by decide +kernel)
  have two : (Draft.build (counting shadowingStep).subject (.new {})).2.module.Returns (fun _ _ _ => 0) (lit "main") 2 [] :=
    Module.returns_iff_run?.mpr ⟨30,by decide +kernel⟩
  have zero : (Draft.build (counting shadowingStep.enclosed).subject (.new {})).2.module.Returns (fun _ _ _ => 0) (lit "main") 0 [] :=
    Module.returns_iff_run?.mpr ⟨40,by decide +kernel⟩
  have both := (same _ _ _ _ {} (counting_encloses shadowingStep) _ _ (Attempt.run_of_fst built)
    (Attempt.run_of_fst built') _ _ _).mp two
  have equal : (0 : Word) = 2 := (zero.unique both).1
  exact absurd equal (by decide)

end Lev
