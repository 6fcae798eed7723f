import Lev.Proofs.Building
import Lev.Proofs.Folding

/-!
Programs without cells, calls and loops. Every name of such a program stands for a constant, and every operation that
has a value is folded. Main statement: if the program has a value, then its module is built, and all that the entry
function does is return the value.
-/
namespace Lev

mutual

/-- Whether an expression has no mutable bindings, assignments, calls and loops. -/
def Expr.isImmutable : Expr → Bool
  | .literal _ => true
  | .var _ => true
  | .binary left _ right => left.isImmutable && right.isImmutable
  | .call _ _ => false
  | .scope body => body.isImmutable
  | .loop _ _ => false

def Stmt.isImmutable : Stmt → Bool
  | .discard value => value.isImmutable
  | .bindConst _ value => value.isImmutable
  | .bindMut _ _ => false
  | .assign _ _ => false

def Block.isImmutable : Block → Bool
  | .result value => value.isImmutable
  | .step first rest => first.isImmutable && rest.isImmutable

end

def Program.isImmutable : Program → Bool
  | .expr e => e.isImmutable
  | .block b => b.isImmutable

/-- Every name stands for a word, and the environment binds it to the constant of the word. -/
def Environment.Folds (env : Environment) (names : Names) : Prop :=
  ∀ name slot, names.get? name = some slot →
    ∃ w : Word, slot = .word w ∧ env.lookup? name = some ⟨.const w.toInt,.unboxed w.toInt⟩

theorem Environment.Folds.empty : Environment.Folds .empty [] := fun _ _ found => nomatch found
theorem Environment.Folds.bind {env : Environment} {names : Names} (folds : env.Folds names) (name : Text) (w : Word) :
    (env.bind name (.const w.toInt) (.unboxed w.toInt)).Folds (names.set name (.word w)) := by
  intro other slot found
  rw [Table.get?_set] at found
  by_cases same : other = name
  · rw [if_pos same] at found
    exact ⟨w,(Option.some.inj found).symm,by rw [Environment.lookup?,Environment.bind,Table.get?_set,if_pos same]⟩
  · rw [if_neg same] at found
    obtain ⟨v,word,bound⟩ := folds other slot found
    refine ⟨v,word,?_⟩
    rw [Environment.lookup?,Environment.bind,Table.get?_set,if_neg same]
    exact bound

/-! ### The value of what emits nothing -/

theorem Evaluation.bind_eq_some {α β : Type} {first : Evaluation α} {next : α → Evaluation β} {memory memory' : Memory} {b : β}
    (run : (first >>= next) memory = some (b,memory')) :
    ∃ a between, first memory = some (a,between) ∧ next a between = some (b,memory') := by
  obtain ⟨⟨a,between⟩,ran,rest⟩ := Option.bind_eq_some_iff.mp run
  exact ⟨a,between,ran,rest⟩
/-- An operation that has a value is folded to it. -/
theorem Operator.folded_of_apply {op : Operator} {a b w : Word} (defined : op.apply a b = some w) :
    ∃ n, op.folded? (.const a.toInt) (.const b.toInt) = some n ∧ Value.ofInt n = .const w.toInt := by
  cases folded : op.fold wordBits a.toInt b.toInt with
  | some n =>
    rw [Operator.apply_of_fold folded] at defined
    cases defined
    exact ⟨n,folded,congrArg Value.const (wrap_eq_toInt n)⟩
  | none =>
    obtain ⟨rfl,undefined⟩ := (Operator.fold_eq_none_iff ..).mp folded
    have nothing : Operator.div.apply a b = none := if_pos undefined
    rw [nothing] at defined
    cases defined

section
variable (world : World) (bound : Nat) (signatures : Table Nat)

mutual

/-- The value of an expression is the constant that it is lowered to. -/
theorem Expr.constant_of_eval (e : Expr) (immutable : e.isImmutable = true) {env : Environment} {names : Names}
    (folds : env.Folds names) {memory memory' : Memory} {w : Word} (run : e.eval world bound names memory = some (w,memory')) :
    e.constant signatures env = .ok (.const w.toInt) := by
  match e with
  | .literal n =>
    cases run
    exact congrArg (Except.ok ∘ Value.const) (wrap_eq_toInt n)
  | .var name =>
    simp only [Expr.eval,Evaluation.read] at run
    cases found : names.get? name with
    | none => simp [found] at run
    | some slot =>
      obtain ⟨v,rfl,lookup⟩ := folds name slot found
      simp only [found] at run
      cases run
      simp [Expr.constant,Environment.resolve,lookup,Binding.isBoxed,bind,Except.bind]
  | .binary left op right =>
    obtain ⟨immutableLeft,immutableRight⟩ := Bool.and_eq_true_iff.mp immutable
    simp only [Expr.eval] at run
    obtain ⟨a,_,ranLeft,run⟩ := Evaluation.bind_eq_some run
    obtain ⟨b,_,ranRight,run⟩ := Evaluation.bind_eq_some run
    obtain ⟨_,defined,same⟩ := Option.map_eq_some_iff.mp run
    cases same
    obtain ⟨n,folded,constant⟩ := Operator.folded_of_apply defined
    simp only [Expr.constant,left.constant_of_eval immutableLeft folds ranLeft,
      right.constant_of_eval immutableRight folds ranRight,bind,Except.bind,folded,constant]
  | .call _ _ => cases immutable
  | .scope body =>
    obtain ⟨_,constant⟩ := body.constant_of_eval immutable folds run
    simp only [Expr.constant,constant,bind,Except.bind]
  | .loop _ _ => cases immutable

/-- After a statement the names again stand for constants. -/
theorem Stmt.constant_of_eval (s : Stmt) (immutable : s.isImmutable = true) {env : Environment} {names names' : Names}
    (folds : env.Folds names) {memory memory' : Memory} (run : s.eval world bound names memory = some (names',memory')) :
    ∃ env' : Environment, s.constant signatures env = .ok env' ∧ env'.Folds names' := by
  match s with
  | .discard value =>
    obtain ⟨_,_,ran,run⟩ := Evaluation.bind_eq_some run
    cases run
    refine ⟨env,?_,folds⟩
    simp only [Stmt.constant,value.constant_of_eval immutable folds ran,bind,Except.bind]
  | .bindConst name value =>
    obtain ⟨w,_,ran,run⟩ := Evaluation.bind_eq_some run
    cases run
    refine ⟨_,?_,folds.bind name w⟩
    simp only [Stmt.constant,value.constant_of_eval immutable folds ran,bind,Except.bind,Value.known?,Constant.known?_word]
  | .bindMut _ _ => cases immutable
  | .assign _ _ => cases immutable

theorem Block.constant_of_eval (b : Block) (immutable : b.isImmutable = true) {env : Environment} {names : Names}
    (folds : env.Folds names) {memory memory' : Memory} {w : Word} (run : b.eval world bound names memory = some (w,memory')) :
    ∃ env', b.constant signatures env = .ok (.const w.toInt,env') := by
  match b with
  | .result value =>
    refine ⟨env,?_⟩
    simp only [Block.constant,value.constant_of_eval immutable folds run,bind,Except.bind]
  | .step first rest =>
    obtain ⟨immutableFirst,immutableRest⟩ := Bool.and_eq_true_iff.mp immutable
    simp only [Block.eval] at run
    obtain ⟨_,_,ran,run⟩ := Evaluation.bind_eq_some run
    obtain ⟨env₁,constant,folds₁⟩ := first.constant_of_eval immutableFirst folds ran
    obtain ⟨env₂,constantRest⟩ := rest.constant_of_eval immutableRest folds₁ run
    refine ⟨env₂,?_⟩
    simp only [Block.constant,constant,constantRest,bind,Except.bind]

end

end

theorem Program.constant_of_evaluates {program : Program} (immutable : program.isImmutable = true) {world : World} {w : Word}
    {trace : List Event} (evaluates : program.Evaluates world w trace) (signatures : Table Nat) :
    program.subject.constantProgram signatures .empty = .ok (.const w.toInt) := by
  obtain ⟨bound,_,run⟩ := evaluates
  cases program with
  | expr e => exact e.constant_of_eval world bound signatures immutable .empty run
  | block b =>
    obtain ⟨_,constant⟩ := b.constant_of_eval world bound signatures immutable .empty run
    simp only [Program.subject,Program.node,Subject.constantProgram,constant,bind,Except.bind]
/-- Lowering the program gives its value and changes nothing in the function. -/
theorem Program.lower_of_evaluates {program : Program} (immutable : program.isImmutable = true) {world : World} {w : Word}
    {trace : List Event} (evaluates : program.Evaluates world w trace) (signatures : Table Nat) (f : Frame) :
    program.subject.lowerProgram signatures .empty f = (.ok (.const w.toInt),f) := by
  have foretold := program.constant_foretells signatures .empty
  rw [Program.constant_of_evaluates immutable evaluates] at foretold
  obtain ⟨_,run,rfl⟩ := foretold f
  exact run

/-! ### The module -/

mutual

theorem Expr.calls_of_isImmutable (e : Expr) (immutable : e.isImmutable = true) : e.calls = [] := by
  match e with
  | .literal _ | .var _ => rfl
  | .binary left _ right =>
    obtain ⟨immutableLeft,immutableRight⟩ := Bool.and_eq_true_iff.mp immutable
    simp [Expr.calls,left.calls_of_isImmutable immutableLeft,right.calls_of_isImmutable immutableRight]
  | .call _ _ => cases immutable
  | .scope body => exact body.calls_of_isImmutable immutable
  | .loop _ _ => cases immutable

theorem Stmt.calls_of_isImmutable (s : Stmt) (immutable : s.isImmutable = true) : s.calls = [] := by
  match s with
  | .discard value => exact value.calls_of_isImmutable immutable
  | .bindConst _ value => exact value.calls_of_isImmutable immutable
  | .bindMut _ _ => cases immutable
  | .assign _ _ => cases immutable

theorem Block.calls_of_isImmutable (b : Block) (immutable : b.isImmutable = true) : b.calls = [] := by
  match b with
  | .result value => exact value.calls_of_isImmutable immutable
  | .step first rest =>
    obtain ⟨immutableFirst,immutableRest⟩ := Bool.and_eq_true_iff.mp immutable
    simp [Block.calls,first.calls_of_isImmutable immutableFirst,rest.calls_of_isImmutable immutableRest]

end

theorem Program.calls_of_isImmutable {program : Program} (immutable : program.isImmutable = true) : program.node.calls = [] := by
  cases program with
  | expr e => exact e.calls_of_isImmutable immutable
  | block b => exact b.calls_of_isImmutable immutable
/-- Without calls, only names that do not resolve and the name of the entry function can be wrong. -/
theorem Draft.findings_of_resolved {program : Program} {options : Options} (uncalling : program.node.calls = [])
    (carried : Identifier.error? options.entryName = none) (resolved : program.node.violations [] = []) :
    findings options program.node = [] := by
  have checked := (program.node.check_eq_nil_iff []).mpr resolved
  simp [findings,uncalling,checked,Signatures.ofCalls,Table.names,carried]

/-- The entry function that returns a constant and does nothing else. -/
theorem Draft.blocks_of_constant (options : Options) (draft : Draft) (n : Int) :
    ((start options draft).finished (.const n) (lit "start")).function.blocks =
      [⟨lit "entry",[.br (lit "start")]⟩,⟨lit "start",[.ret (.const n)]⟩] := rfl

/-- Every program without cells, calls and loops that has a value is built to a module of one function, which has no cells
    and no merge points and does nothing but return the value. -/
theorem immutable_built_to_value (program : Program) (options : Options) (world : World) (w : Word) (trace : List Event)
    (immutable : program.isImmutable = true) (carried : Identifier.error? options.entryName = none)
    (evaluates : program.Evaluates world w trace) :
    ∃ draft fn arena block, Draft.build program.subject (.new options) = (.ok (),draft) ∧
      draft.entryFunction? = some fn ∧ draft.module.functions = [fn] ∧
      fn.blocks = [⟨lit "entry",[.br (lit "start")]⟩,⟨lit "start",[.ret (.const w.toInt)]⟩] ∧
      draft.filling = some ⟨arena,block⟩ ∧ arena.cells = [] ∧ draft.points = [] := by
  have uncalling := Program.calls_of_isImmutable immutable
  have resolved := (program.lower_resolves [] Scope.matches_empty .blank).ok (Program.lower_of_evaluates immutable evaluates [] .blank)
  obtain ⟨before,others,⟨holds,fresh,declared⟩,_,run⟩ := Draft.clean_course (Draft.findings_of_resolved uncalling carried resolved)
  have lowered := Program.lower_of_evaluates immutable evaluates before.signatures (Draft.start options before)
  obtain ⟨sound,_⟩ := Frame.initial_sound (Function.declare_blocks options.entryName 0) before.signatures before.points before.log
    (rfl : Draft.start options before = _)
  have gives := (program.lower_sound before.signatures sound (Frame.binds_empty _ _)).ok lowered
  obtain ⟨draft,outcome,taken,_,points,filling⟩ := holds.filled_run lowered gives
  have alone : others = [] := by
    have same := holds.functions.symm.trans declared
    simpa [Draft.declared,Draft.callees,uncalling,Signatures.ofCalls] using same
  refine ⟨draft,_,_,_,run.trans outcome,taken.entryFunction?,?_,Draft.blocks_of_constant options before _,filling,rfl,?_⟩
  · show draft.functions = _
    rw [taken.functions,alone]
    rfl
  · rw [points]
    exact fresh

/-- A program with a literal that no word holds, a shadowed name and a quotient below zero:
    `let a = 4294967298; let b = { let a = a * 3; a - 10 }; b * b; { let c = b / 3; c + a }`. -/
def foldable : Program :=
  .block (.step (.bindConst (lit "a") (.literal 4294967298))
    (.step (.bindConst (lit "b") (.scope (.step (.bindConst (lit "a") (.binary (.var (lit "a")) .mul (.literal 3)))
      (.result (.binary (.var (lit "a")) .sub (.literal 10))))))
    (.step (.discard (.binary (.var (lit "b")) .mul (.var (lit "b"))))
    (.result (.scope (.step (.bindConst (lit "c") (.binary (.var (lit "b")) .div (.literal 3)))
      (.result (.binary (.var (lit "c")) .add (.var (lit "a"))))))))))
/-- The value of the program is one, so the entry function returns one. -/
theorem immutable_built_to_value_foldable :
    foldable.isImmutable = true ∧ Identifier.error? (lit "main") = none ∧ foldable.Evaluates (fun _ _ _ => 0) 1 [] ∧
      ∃ draft fn, Draft.build foldable.subject (.new {}) = (.ok (),draft) ∧ draft.entryFunction? = some fn ∧
        fn.blocks = [⟨lit "entry",[.br (lit "start")]⟩,⟨lit "start",[.ret (.const 1)]⟩] := by
  have immutable : foldable.isImmutable = true := by decide
  have carried : Identifier.error? (lit "main") = none := Option.isNone_iff_eq_none.mp (by decide +kernel)
  have evaluates : foldable.Evaluates (fun _ _ _ => 0) 1 [] := ⟨0,[],by decide +kernel⟩
  obtain ⟨draft,fn,_,_,built,entry,_,blocks,_⟩ := immutable_built_to_value foldable {} _ 1 [] immutable carried evaluates
  exact ⟨immutable,carried,evaluates,draft,fn,built,entry,blocks⟩

end Lev
