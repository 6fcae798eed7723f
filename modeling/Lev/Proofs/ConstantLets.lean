import Lev.Proofs.BackEdges
import Lev.Proofs.Mutability

/-!
Immutable bindings to constants. Where a binding is made of literals and of names that are bound so themselves, its value
is known, unless a loop gets in the way: inside of a loop, a name that the condition reads stands for a phi, whatever it
is bound to around the loop, and a condition is lowered once more where its names do. Main statement: a program in
which all immutable bindings are of this sort fails for one of them only if a loop veils a name that the binding reads, and
no program with such a loop is built.
-/
namespace Lev
open Attempt (Meets)

/-! ### Bindings that are made of constants -/

mutual

/-- Whether an expression is made of literals, names that are bound immutably, sums, differences, products, and scopes of
    nothing but immutable bindings. -/
def Expr.isConstant : Expr → Scope → Bool
  | .literal _, _ => true
  | .var name, scope => scope.get? name = some false
  | .binary left op right, scope => op ≠ .div && left.isConstant scope && right.isConstant scope
  | .call _ _, _ => false
  | .scope body, scope => body.isConstant scope
  | .loop _ _, _ => false

def Stmt.isConstant : Stmt → Scope → Bool
  | .discard _, _ => false
  | .bindConst _ value, scope => value.isConstant scope
  | .bindMut _ _, _ => false
  | .assign _ _, _ => false

def Block.isConstant : Block → Scope → Bool
  | .result value, scope => value.isConstant scope
  | .step first rest, scope => first.isConstant scope && rest.isConstant (first.extend scope)

end

mutual

/-- Whether all immutable bindings in an expression, at any depth, are made of constants. -/
def Expr.hasConstantLets : Expr → Scope → Bool
  | .literal _, _ => true
  | .var _, _ => true
  | .binary left _ right, scope => left.hasConstantLets scope && right.hasConstantLets scope
  | .call _ args, scope => args.hasConstantLets scope
  | .scope body, scope => body.hasConstantLets scope
  | .loop cond body, scope => cond.hasConstantLets scope && body.hasConstantLets scope

def Args.hasConstantLets : Args → Scope → Bool
  | .nil, _ => true
  | .cons first rest, scope => first.hasConstantLets scope && rest.hasConstantLets scope

def Stmt.hasConstantLets : Stmt → Scope → Bool
  | .discard value, scope => value.hasConstantLets scope
  | .bindConst _ value, scope => value.isConstant scope && value.hasConstantLets scope
  | .bindMut _ value, scope => value.hasConstantLets scope
  | .assign _ value, scope => value.hasConstantLets scope

def Block.hasConstantLets : Block → Scope → Bool
  | .result value, scope => value.hasConstantLets scope
  | .step first rest, scope => first.hasConstantLets scope && rest.hasConstantLets (first.extend scope)

end

def Program.hasConstantLets : Program → Bool
  | .expr e => e.hasConstantLets []
  | .block b => b.hasConstantLets []

/-! ### What bindings read -/

mutual

/-- The names that an expression reads and does not bind itself. -/
def Expr.freeReads : Expr → List Text
  | .literal _ => []
  | .var name => [name]
  | .binary left _ right => left.freeReads ++ right.freeReads
  | .call _ args => args.freeReads
  | .scope body => body.freeReads
  | .loop cond body => cond.freeReads ++ body.freeReads

def Args.freeReads : Args → List Text
  | .nil => []
  | .cons first rest => first.freeReads ++ rest.freeReads

def Stmt.freeReads : Stmt → List Text
  | .discard value => value.freeReads
  | .bindConst _ value => value.freeReads
  | .bindMut _ value => value.freeReads
  | .assign _ value => value.freeReads

def Block.freeReads : Block → List Text
  | .result value => value.freeReads
  | .step first rest => first.freeReads ++ rest.freeReads.filter fun name => first.binder? ≠ some name

end

mutual

/-- The names that the immutable bindings in an expression read and the expression does not bind, each after the name that
    is bound. -/
def Expr.letReads : Expr → List (Text × Text)
  | .literal _ => []
  | .var _ => []
  | .binary left _ right => left.letReads ++ right.letReads
  | .call _ args => args.letReads
  | .scope body => body.letReads
  | .loop cond body => cond.letReads ++ body.letReads

def Args.letReads : Args → List (Text × Text)
  | .nil => []
  | .cons first rest => first.letReads ++ rest.letReads

def Stmt.letReads : Stmt → List (Text × Text)
  | .discard value => value.letReads
  | .bindConst name value => value.freeReads.map (name,·) ++ value.letReads
  | .bindMut _ value => value.letReads
  | .assign _ value => value.letReads

def Block.letReads : Block → List (Text × Text)
  | .result value => value.letReads
  | .step first rest => first.letReads ++ rest.letReads.filter fun entry => first.binder? ≠ some entry.2

end

/-- An immutable binding in the loop reads a name that stands for a phi there: the binding is in the body and the condition
    reads the name, or it is in the condition, and the last binding that the body makes of the name, if any, is mutable. -/
def Veils (loop : Expr × Block) (bound read : Text) : Prop :=
  read ∈ loop.1.reads ∧ (bound,read) ∈ loop.2.letReads ∨
    (bound,read) ∈ loop.1.letReads ∧ ∀ value, loop.2.lastBinding? read ≠ some (.bindConst read value)

mutual

theorem Expr.reads_of_freeReads (e : Expr) {name : Text} (read : name ∈ e.freeReads) : name ∈ e.reads := by
  match e with
  | .literal _ => cases read
  | .var _ => exact read
  | .binary left _ right =>
    simp only [Expr.freeReads,Expr.reads,List.mem_append] at read ⊢
    exact read.imp left.reads_of_freeReads right.reads_of_freeReads
  | .call _ args => exact args.reads_of_freeReads read
  | .scope body => exact body.reads_of_freeReads read
  | .loop cond body =>
    simp only [Expr.freeReads,Expr.reads,List.mem_append] at read ⊢
    exact read.imp cond.reads_of_freeReads body.reads_of_freeReads

theorem Args.reads_of_freeReads (args : Args) {name : Text} (read : name ∈ args.freeReads) : name ∈ args.reads := by
  match args with
  | .nil => cases read
  | .cons first rest =>
    simp only [Args.freeReads,Args.reads,List.mem_append] at read ⊢
    exact read.imp first.reads_of_freeReads rest.reads_of_freeReads

theorem Stmt.reads_of_freeReads (s : Stmt) {name : Text} (read : name ∈ s.freeReads) : name ∈ s.reads := by
  match s with
  | .discard value | .bindConst _ value | .bindMut _ value | .assign _ value => exact value.reads_of_freeReads read

theorem Block.reads_of_freeReads (b : Block) {name : Text} (read : name ∈ b.freeReads) : name ∈ b.reads := by
  match b with
  | .result value => exact value.reads_of_freeReads read
  | .step first rest =>
    simp only [Block.freeReads,Block.reads,List.mem_append,List.mem_filter] at read ⊢
    exact read.imp first.reads_of_freeReads fun late => rest.reads_of_freeReads late.1

end

mutual

/-- What a binding in an expression reads, the expression reads. -/
theorem Expr.reads_of_letReads (e : Expr) {bound name : Text} (read : (bound,name) ∈ e.letReads) : name ∈ e.reads := by
  match e with
  | .literal _ | .var _ => cases read
  | .binary left _ right =>
    simp only [Expr.letReads,Expr.reads,List.mem_append] at read ⊢
    exact read.imp left.reads_of_letReads right.reads_of_letReads
  | .call _ args => exact args.reads_of_letReads read
  | .scope body => exact body.reads_of_letReads read
  | .loop cond body =>
    simp only [Expr.letReads,Expr.reads,List.mem_append] at read ⊢
    exact read.imp cond.reads_of_letReads body.reads_of_letReads

theorem Args.reads_of_letReads (args : Args) {bound name : Text} (read : (bound,name) ∈ args.letReads) : name ∈ args.reads := by
  match args with
  | .nil => cases read
  | .cons first rest =>
    simp only [Args.letReads,Args.reads,List.mem_append] at read ⊢
    exact read.imp first.reads_of_letReads rest.reads_of_letReads

theorem Stmt.reads_of_letReads (s : Stmt) {bound name : Text} (read : (bound,name) ∈ s.letReads) : name ∈ s.reads := by
  match s with
  | .discard value | .bindMut _ value | .assign _ value => exact value.reads_of_letReads read
  | .bindConst _ value =>
    rcases List.mem_append.mp read with own | inner
    · obtain ⟨_,free,same⟩ := List.mem_map.mp own
      cases same
      exact value.reads_of_freeReads free
    · exact value.reads_of_letReads inner

theorem Block.reads_of_letReads (b : Block) {bound name : Text} (read : (bound,name) ∈ b.letReads) : name ∈ b.reads := by
  match b with
  | .result value => exact value.reads_of_letReads read
  | .step first rest =>
    simp only [Block.letReads,Block.reads,List.mem_append,List.mem_filter] at read ⊢
    exact read.imp first.reads_of_letReads fun late => rest.reads_of_letReads late.1

end

/-! ### Bindings made of constants read immutable names -/

section
variable {scope : Scope}

theorem Stmt.get?_of_extend {s : Stmt} {name : Text} {isMutable : Bool} (found : (s.extend scope).get? name = some isMutable)
    (other : s.binder? ≠ some name) : scope.get? name = some isMutable := by
  rwa [Stmt.get?_extend,if_neg other] at found

end

mutual

theorem Expr.freeReads_immutable (e : Expr) {scope : Scope} (constant : e.isConstant scope = true) :
    ∀ name ∈ e.freeReads, scope.get? name = some false := by
  intro name read
  match e with
  | .literal _ => cases read
  | .var _ =>
    cases List.mem_singleton.mp read
    simpa [Expr.isConstant] using constant
  | .binary left _ right =>
    simp only [Expr.isConstant,Bool.and_eq_true] at constant
    rcases List.mem_append.mp read with early | late
    · exact left.freeReads_immutable constant.1.2 name early
    · exact right.freeReads_immutable constant.2 name late
  | .call _ _ => cases constant
  | .scope body => exact body.freeReads_immutable constant name read
  | .loop _ _ => cases constant

theorem Stmt.freeReads_immutable (s : Stmt) {scope : Scope} (constant : s.isConstant scope = true) :
    ∀ name ∈ s.freeReads, scope.get? name = some false := by
  intro name read
  match s with
  | .discard _ | .bindMut _ _ | .assign _ _ => cases constant
  | .bindConst _ value => exact value.freeReads_immutable constant name read

theorem Block.freeReads_immutable (b : Block) {scope : Scope} (constant : b.isConstant scope = true) :
    ∀ name ∈ b.freeReads, scope.get? name = some false := by
  intro name read
  match b with
  | .result value => exact value.freeReads_immutable constant name read
  | .step first rest =>
    simp only [Block.isConstant,Bool.and_eq_true] at constant
    rcases List.mem_append.mp read with early | late
    · exact first.freeReads_immutable constant.1 name early
    · obtain ⟨inside,other⟩ := List.mem_filter.mp late
      exact Stmt.get?_of_extend (rest.freeReads_immutable constant.2 name inside) (by simpa using other)

end

mutual

theorem Expr.letReads_immutable (e : Expr) {scope : Scope} (constant : e.hasConstantLets scope = true) :
    ∀ entry ∈ e.letReads, scope.get? entry.2 = some false := by
  intro entry read
  match e with
  | .literal _ | .var _ => cases read
  | .binary left _ right =>
    simp only [Expr.hasConstantLets,Bool.and_eq_true] at constant
    rcases List.mem_append.mp read with early | late
    · exact left.letReads_immutable constant.1 entry early
    · exact right.letReads_immutable constant.2 entry late
  | .call _ args => exact args.letReads_immutable constant entry read
  | .scope body => exact body.letReads_immutable constant entry read
  | .loop cond body =>
    simp only [Expr.hasConstantLets,Bool.and_eq_true] at constant
    rcases List.mem_append.mp read with early | late
    · exact cond.letReads_immutable constant.1 entry early
    · exact body.letReads_immutable constant.2 entry late

theorem Args.letReads_immutable (args : Args) {scope : Scope} (constant : args.hasConstantLets scope = true) :
    ∀ entry ∈ args.letReads, scope.get? entry.2 = some false := by
  intro entry read
  match args with
  | .nil => cases read
  | .cons first rest =>
    simp only [Args.hasConstantLets,Bool.and_eq_true] at constant
    rcases List.mem_append.mp read with early | late
    · exact first.letReads_immutable constant.1 entry early
    · exact rest.letReads_immutable constant.2 entry late

theorem Stmt.letReads_immutable (s : Stmt) {scope : Scope} (constant : s.hasConstantLets scope = true) :
    ∀ entry ∈ s.letReads, scope.get? entry.2 = some false := by
  intro entry read
  match s with
  | .discard value | .bindMut _ value | .assign _ value => exact value.letReads_immutable constant entry read
  | .bindConst _ value =>
    simp only [Stmt.hasConstantLets,Bool.and_eq_true] at constant
    rcases List.mem_append.mp read with own | inner
    · obtain ⟨name,free,rfl⟩ := List.mem_map.mp own
      exact value.freeReads_immutable constant.1 name free
    · exact value.letReads_immutable constant.2 entry inner

theorem Block.letReads_immutable (b : Block) {scope : Scope} (constant : b.hasConstantLets scope = true) :
    ∀ entry ∈ b.letReads, scope.get? entry.2 = some false := by
  intro entry read
  match b with
  | .result value => exact value.letReads_immutable constant entry read
  | .step first rest =>
    simp only [Block.hasConstantLets,Bool.and_eq_true] at constant
    rcases List.mem_append.mp read with early | late
    · exact first.letReads_immutable constant.1 entry early
    · obtain ⟨inside,other⟩ := List.mem_filter.mp late
      exact Stmt.get?_of_extend (rest.letReads_immutable constant.2 entry inside) (by simpa using other)

end

/-! ### Names that stand for constants -/

/-- The name stands for a constant. -/
def Environment.Constant (env : Environment) (name : Text) : Prop :=
  ∃ n c, env.lookup? name = some ⟨.const n,.unboxed c⟩

theorem Environment.Constant.congr {env env' : Environment} {name : Text} (same : env'.lookup? name = env.lookup? name) :
    env'.Constant name ↔ env.Constant name := by
  rw [Environment.Constant,Environment.Constant,same]
theorem Environment.constant_bind (env : Environment) (name : Text) (n c : Int) :
    (env.bind name (.const n) (.unboxed c)).Constant name :=
  ⟨n,c,(Environment.lookup?_bind ..).trans (if_pos rfl)⟩

section
variable {signatures : Table Nat}

/-- A statement changes only what the name that it binds stands for. -/
theorem Stmt.constant_lower {s : Stmt} {env env' : Environment} {f f' : Frame} (run : s.lower signatures env f = (.ok env',f'))
    {name : Text} (other : s.binder? ≠ some name) : env'.Constant name ↔ env.Constant name :=
  Environment.Constant.congr (s.lookup?_lower run other)

/-- Every operation but a division has a known value where its operands have. -/
theorem Build.arith_known {op : Operator} (exact : op ≠ .div) {a b value : Value} {f f' : Frame}
    (run : Build.arith op a b f = (.ok value,f')) : value.known?.isSome ↔ a.known?.isSome ∧ b.known?.isSome := by
  cases a with
  | reg _ _ =>
    cases run
    simp [Value.known?]
  | const m =>
    cases b with
    | reg _ _ =>
      cases run
      simp [Value.known?]
    | const n =>
      cases op with
      | div => exact absurd rfl exact
      | add | sub | mul =>
        cases run
        simp [Value.ofInt,Value.known?]

mutual

/-- The value of an expression made of constants is known if the names that it reads stand for constants, and only then. -/
theorem Expr.lower_known (e : Expr) {scope : Scope} (constant : e.isConstant scope = true) {env : Environment} {f f' : Frame}
    {value : Value} (run : e.lower signatures env f = (.ok value,f')) :
    value.known?.isSome ↔ ∀ name ∈ e.freeReads, env.Constant name := by
  match e with
  | .literal n =>
    cases run
    simp [Value.ofInt,Value.known?,Expr.freeReads]
  | .var name =>
    simp only [Expr.freeReads,List.mem_singleton,forall_eq]
    simp only [Expr.lower,Build.readVariable,Environment.resolve] at run
    cases found : env.lookup? name with
    | none =>
      rw [found] at run
      cases run
    | some binding =>
      rw [found] at run
      obtain ⟨held,levity⟩ := binding
      cases levity with
      | boxed =>
        cases run
        simp [Environment.Constant,found,Value.known?]
      | unboxed c =>
        cases run
        cases held with
        | const n => simp [Environment.Constant,found,Value.known?]
        | reg _ _ => simp [Environment.Constant,found,Value.known?]
  | .binary left op right =>
    simp only [Expr.isConstant,Bool.and_eq_true] at constant
    simp only [Expr.lower] at run
    obtain ⟨a,_,ranLeft,run⟩ := Attempt.bind_eq_ok.mp run
    obtain ⟨b,_,ranRight,run⟩ := Attempt.bind_eq_ok.mp run
    have knownLeft := left.lower_known constant.1.2 ranLeft
    have knownRight := right.lower_known constant.2 ranRight
    rw [Build.arith_known (of_decide_eq_true constant.1.1) run,knownLeft,knownRight,Expr.freeReads,List.forall_mem_append]
  | .call _ _ => cases constant
  | .scope body =>
    simp only [Expr.lower] at run
    obtain ⟨result,_,ran,run⟩ := Attempt.bind_eq_ok.mp run
    cases run
    exact body.lower_known constant ran
  | .loop _ _ => cases constant

theorem Block.lower_known (b : Block) {scope : Scope} (constant : b.isConstant scope = true) {env : Environment} {f f' : Frame}
    {result : Value × Environment} (run : b.lower signatures env f = (.ok result,f')) :
    result.1.known?.isSome ↔ ∀ name ∈ b.freeReads, env.Constant name := by
  match b with
  | .result value =>
    simp only [Block.lower] at run
    obtain ⟨_,_,ran,run⟩ := Attempt.bind_eq_ok.mp run
    cases run
    exact value.lower_known constant ran
  | .step (.bindConst name value) rest =>
    simp only [Block.isConstant,Stmt.isConstant,Bool.and_eq_true] at constant
    simp only [Block.lower] at run
    obtain ⟨env₁,f₁,ranFirst,ranRest⟩ := Attempt.bind_eq_ok.mp run
    have same (other : Text) (apart : some name ≠ some other) : env₁.Constant other ↔ env.Constant other :=
      Stmt.constant_lower ranFirst apart
    obtain ⟨n,ranValue,rfl⟩ := Stmt.lower_bindConst ranFirst
    have inside := (value.lower_known constant.1 ranValue).mp rfl
    rw [rest.lower_known constant.2 ranRest]
    constructor
    · intro all other read
      rcases List.mem_append.mp read with early | late
      · exact inside other early
      · obtain ⟨member,apart⟩ := List.mem_filter.mp late
        exact (same other (of_decide_eq_true apart)).mp (all other member)
    · intro all other read
      by_cases here : some name = some other
      · cases here
        exact env.constant_bind name n n
      · refine (same other here).mpr (all other (List.mem_append_right _ ?_))
        exact List.mem_filter.mpr ⟨read,decide_eq_true here⟩
  | .step (.discard _) _ | .step (.bindMut _ _) _ | .step (.assign _ _) _ => cases constant

end

/-- Inside of a loop, the names that stand for constants are those that do around it and that the condition does not read. -/
theorem MergePoint.Opens.constant_iff {root : Text} {pending : List Text} {above above₀ : Text → List Text} {f₀ f : Frame}
    {skip : Value} {header exit : Text} {env : Environment} {reads : List Text} {points : List MergePoint}
    (opens : MergePoint.Opens signatures root pending above above₀ f₀ skip header exit env (Text.sortDistinct reads) points f)
    (name : Text) :
    (MergePoint.bindAll env points).Constant name ↔ env.Constant name ∧ name ∉ reads := by
  have distinct : (points.map MergePoint.name).Nodup := opens.names ▸ (Text.sortDistinct_nodup reads).filter _
  have listed : name ∈ points.map MergePoint.name ↔ name ∈ reads ∧ (env.lookup? name).isSome := by
    rw [opens.names,List.mem_filter,Text.mem_sortDistinct_iff]
  by_cases merged : name ∈ points.map MergePoint.name
  · obtain ⟨point,member,rfl⟩ := List.mem_map.mp merged
    constructor
    · rintro ⟨n,c,found⟩
      rw [MergePoint.lookup?_bindAll_of_mem env distinct member] at found
      cases found
    · rintro ⟨_,unread⟩
      exact absurd (listed.mp merged).1 unread
  · rw [Environment.Constant.congr (MergePoint.lookup?_bindAll_of_not_mem env merged)]
    refine ⟨fun constant => ⟨constant,fun read => ?_⟩,fun constant => constant.1⟩
    obtain ⟨n,c,found⟩ := constant
    exact merged (listed.mpr ⟨read,by rw [found]; rfl⟩)

/-! ### Lowering -/

/-- None of the loops veils a name, and the names that the bindings read stand for constants. -/
structure Settled (env : Environment) (lets : List (Text × Text)) (loops : List (Expr × Block)) : Prop where
  clear : ∀ loop ∈ loops, ∀ bound read, ¬Veils loop bound read
  constant : ∀ entry ∈ lets, env.Constant entry.2

/-- If the fault is an immutable binding whose value is not known, the binding reads a name that does not stand for a
    constant, or one of the loops veils a name that it reads. -/
def Traces (env : Environment) (lets : List (Text × Text)) (loops : List (Expr × Block)) (fault : Fault) : Prop :=
  ∀ name, fault = .program (.nonConstantLet name) →
    ∃ bound read, name = .text bound ∧ ((bound,read) ∈ lets ∧ ¬env.Constant read ∨ ∃ loop ∈ loops, Veils loop bound read)

section
variable {env : Environment} {lets lets' : List (Text × Text)} {loops loops' : List (Expr × Block)} {fault : Fault}

theorem Settled.nil (env : Environment) : Settled env [] [] := ⟨by simp,by simp⟩
theorem Settled.append (first : Settled env lets loops) (rest : Settled env lets' loops') :
    Settled env (lets ++ lets') (loops ++ loops') :=
  ⟨List.forall_mem_append.mpr ⟨first.clear,rest.clear⟩,List.forall_mem_append.mpr ⟨first.constant,rest.constant⟩⟩
theorem Traces.mono (traces : Traces env lets loops fault) (more : lets ⊆ lets') (larger : loops ⊆ loops') :
    Traces env lets' loops' fault := by
  intro name inconstant
  obtain ⟨bound,read,same,⟨member,other⟩ | ⟨loop,inside,veils⟩⟩ := traces name inconstant
  · exact ⟨bound,read,same,.inl ⟨more member,other⟩⟩
  · exact ⟨bound,read,same,.inr ⟨loop,larger inside,veils⟩⟩
theorem Traces.append_left (traces : Traces env lets loops fault) (more : List (Text × Text)) (others : List (Expr × Block)) :
    Traces env (lets ++ more) (loops ++ others) fault :=
  traces.mono (List.subset_append_left _ _) (List.subset_append_left _ _)
theorem Traces.append_right (traces : Traces env lets loops fault) (before : List (Text × Text)) (others : List (Expr × Block)) :
    Traces env (before ++ lets) (others ++ loops) fault :=
  traces.mono (List.subset_append_right _ _) (List.subset_append_right _ _)
theorem Traces.of_ne (other : ∀ name, fault ≠ .program (.nonConstantLet name)) : Traces env lets loops fault :=
  fun name inconstant => absurd inconstant (other name)
theorem Fault.Misnamed.traces (misnamed : fault.Misnamed) : Traces env lets loops fault := by
  obtain ⟨_,error,found,rfl⟩ := misnamed
  obtain ⟨_,rfl⟩ := Identifier.error?_eq_some found
  exact .of_ne (fun _ => by simp)
theorem callable_traces {callee : Text} {count : Nat} (failed : callable signatures callee count = .error fault) :
    Traces env lets loops fault := by
  unfold callable at failed
  split at failed
  · cases failed
    exact .of_ne (fun _ => by simp)
  · split at failed
    · cases failed
    · cases failed
      exact .of_ne (fun _ => by simp)
theorem Environment.assignable_traces {name : Text} (failed : env.assignable name = .error fault) : Traces env lets loops fault := by
  unfold Environment.assignable Environment.resolve at failed
  cases found : env.lookup? name with
  | none =>
    rw [found] at failed
    cases failed
    exact .of_ne (fun _ => by simp)
  | some binding =>
    rw [found] at failed
    simp only [Bind.bind,Except.bind] at failed
    split at failed
    · cases failed
    · cases failed
      exact .of_ne (fun _ => by simp)

end

/-- After a block, the names stand for constants that it binds immutably in the end, and those that it does not bind as before. -/
theorem Block.constant_lower {b : Block} {env after : Environment} {f ended : Frame} {value : Value}
    (sound : Moment.Sound signatures ⟨.block b,env,f⟩) (run : b.lower signatures env f = (.ok (value,after),ended)) (name : Text) :
    after.Constant name ↔
      (∃ bound, b.lastBinding? name = some (.bindConst name bound)) ∨ b.lastBinding? name = none ∧ env.Constant name := by
  cases Block.lower_leaves sound run name with
  | kept none found => simp [none,Environment.Constant.congr found]
  | constant last _ _ _ found => simp [last,Environment.Constant,found]
  | cell last _ _ _ found => simp [last,Environment.Constant,found]

section
variable {first : Stmt} {rest : Block} {env env' : Environment} {f f' : Frame} {fault : Fault}

/-- A name that a statement binds immutably stands for a constant. -/
theorem Stmt.constant_of_extend (ran : first.lower signatures env f = (.ok env',f')) {scope : Scope} {name : Text}
    (binder : first.binder? = some name) (immutable : (first.extend scope).get? name = some false) : env'.Constant name := by
  cases first with
  | discard _ | assign _ _ => cases binder
  | bindConst key value =>
    cases binder
    obtain ⟨n,_,rfl⟩ := Stmt.lower_bindConst ran
    exact env.constant_bind name n n
  | bindMut key value =>
    cases binder
    simp [Stmt.extend,Table.get?_set] at immutable
theorem Settled.step (settled : Settled env first.letReads first.loops) (ran : first.lower signatures env f = (.ok env',f'))
    (settledRest : Settled env' rest.letReads rest.loops) :
    Settled env (Block.step first rest).letReads (Block.step first rest).loops := by
  refine ⟨List.forall_mem_append.mpr ⟨settled.clear,settledRest.clear⟩,List.forall_mem_append.mpr ⟨settled.constant,?_⟩⟩
  intro entry member
  obtain ⟨inside,other⟩ := List.mem_filter.mp member
  exact (Stmt.constant_lower ran (of_decide_eq_true other)).mp (settledRest.constant entry inside)
theorem Traces.step (traces : Traces env' rest.letReads rest.loops fault) (ran : first.lower signatures env f = (.ok env',f'))
    {scope : Scope} (immutable : ∀ entry ∈ rest.letReads, (first.extend scope).get? entry.2 = some false) :
    Traces env (Block.step first rest).letReads (Block.step first rest).loops fault := by
  intro name inconstant
  obtain ⟨bound,read,same,⟨member,other⟩ | ⟨loop,inside,veils⟩⟩ := traces name inconstant
  · by_cases binder : first.binder? = some read
    · exact absurd (Stmt.constant_of_extend ran binder (immutable _ member)) other
    · refine ⟨bound,read,same,.inl ⟨List.mem_append_right _ (List.mem_filter.mpr ⟨member,decide_eq_true binder⟩),?_⟩⟩
      rwa [Stmt.constant_lower ran binder] at other
  · exact ⟨bound,read,same,.inr ⟨loop,List.mem_append_right _ inside,veils⟩⟩

end

section
variable {cond : Expr} {body : Block} {env inner after : Environment} {fault : Fault}

/-- What is not constant in the body of a loop is not so around it, or the loop veils it. -/
theorem Traces.of_body (opened : ∀ name, inner.Constant name ↔ env.Constant name ∧ name ∉ cond.reads)
    (traces : Traces inner body.letReads body.loops fault) :
    Traces env (Expr.loop cond body).letReads (Expr.loop cond body).loops fault := by
  intro name inconstant
  obtain ⟨bound,read,same,⟨member,other⟩ | ⟨loop,inside,veils⟩⟩ := traces name inconstant
  · refine ⟨bound,read,same,?_⟩
    by_cases merged : read ∈ cond.reads
    · exact .inr ⟨(cond,body),List.mem_cons_self,.inl ⟨merged,member⟩⟩
    · exact .inl ⟨List.mem_append_right _ member,fun constant => other ((opened read).mpr ⟨constant,merged⟩)⟩
  · exact ⟨bound,read,same,.inr ⟨loop,List.mem_cons_of_mem _ (List.mem_append_right _ inside),veils⟩⟩
/-- What is not constant at the second visit to a condition has been veiled. -/
theorem Traces.of_again (left : ∀ name bound, body.lastBinding? name = some (.bindConst name bound) → after.Constant name)
    (traces : Traces after cond.letReads cond.loops fault) :
    Traces env (Expr.loop cond body).letReads (Expr.loop cond body).loops fault := by
  intro name inconstant
  obtain ⟨bound,read,same,⟨member,other⟩ | ⟨loop,inside,veils⟩⟩ := traces name inconstant
  · exact ⟨bound,read,same,.inr ⟨(cond,body),List.mem_cons_self,.inr ⟨member,fun value last => other (left read value last)⟩⟩⟩
  · exact ⟨bound,read,same,.inr ⟨loop,List.mem_cons_of_mem _ (List.mem_append_left _ inside),veils⟩⟩
/-- A loop whose parts are all lowered veils nothing. -/
theorem Settled.loop (settled : Settled env cond.letReads cond.loops) (settledBody : Settled inner body.letReads body.loops)
    (settledAgain : Settled after cond.letReads cond.loops)
    (opened : ∀ name, inner.Constant name ↔ env.Constant name ∧ name ∉ cond.reads)
    (left : ∀ name, after.Constant name →
      (∃ bound, body.lastBinding? name = some (.bindConst name bound)) ∨ body.lastBinding? name = none ∧ inner.Constant name) :
    Settled env (Expr.loop cond body).letReads (Expr.loop cond body).loops where
  clear := by
    refine List.forall_mem_cons.mpr ⟨?_,List.forall_mem_append.mpr ⟨settled.clear,settledBody.clear⟩⟩
    rintro bound read (⟨merged,member⟩ | ⟨member,unbound⟩)
    · exact ((opened read).mp (settledBody.constant _ member)).2 merged
    · rcases left read (settledAgain.constant _ member) with ⟨value,last⟩ | ⟨_,constant⟩
      · exact unbound value last
      · exact ((opened read).mp constant).2 (cond.reads_of_letReads member)
  constant :=
    List.forall_mem_append.mpr ⟨settled.constant,fun entry member => ((opened entry.2).mp (settledBody.constant entry member)).1⟩

end

mutual

theorem Expr.lower_veils (e : Expr) {scope : Scope} (constant : e.hasConstantLets scope = true) {root : Text} {pending : List Text}
    {above : Text → List Text} {f : Frame} (sound : f.Sound signatures root pending above) {env : Environment}
    (binds : f.Binds above env) :
    Meets (e.lower signatures env) f (fun _ _ => Settled env e.letReads e.loops)
      (fun fault _ => Traces env e.letReads e.loops fault) := by
  match e with
  | .literal n => exact .of_run rfl (.nil env)
  | .var name =>
    simp only [Expr.lower,Build.readVariable,Environment.resolve]
    cases env.lookup? name with
    | none => exact .of_error rfl (.of_ne (fun _ => by simp))
    | some binding =>
      refine .whatever rfl (fun b after => ?_)
      split
      · exact .of_run rfl (.nil env)
      · exact .of_run rfl (.nil env)
  | .binary left op right =>
    simp only [Expr.hasConstantLets,Bool.and_eq_true] at constant
    simp only [Expr.lower]
    refine .bind ((left.lower_veils constant.1 sound binds).and (left.lower_sound signatures sound binds)) ?_
      (fun _ _ failed => failed.1.append_left _ _)
    rintro a f₁ ⟨settled,above₁,sound₁,advance₁,_⟩
    refine .bind (right.lower_veils constant.2 sound₁ (advance₁.binds binds)) (fun b f₂ settled' => ?_)
      (fun _ _ failed => failed.append_right _ _)
    unfold Build.arith
    split
    · exact .of_run rfl (settled.append settled')
    · exact .of_run rfl (settled.append settled')
  | .call callee args =>
    simp only [Expr.lower]
    cases result : callable signatures callee args.length with
    | error fault => exact .of_error rfl (callable_traces result)
    | ok _ =>
      refine .run_then rfl ?_
      refine .andThen (args.lower_veils constant sound binds) (fun values f₁ settled => ?_)
      refine .bind (Build.identifier_meets callee f₁) (fun name after _ => ?_) (fun _ _ failed => failed.1.traces)
      exact .of_run rfl settled
  | .scope body =>
    simp only [Expr.lower]
    exact .andThen (body.lower_veils constant sound binds) (fun result after settled => .of_run rfl settled)
  | .loop cond body =>
    simp only [Expr.hasConstantLets,Bool.and_eq_true] at constant
    simp only [Expr.lower]
    refine .bind ((cond.lower_veils constant.1 sound binds).and (cond.lower_sound signatures sound binds)) ?_
      (fun _ _ failed => failed.1.mono (List.subset_append_left _ _) ?_)
    · rintro first f₁ ⟨settled,above₁,sound₁,advance₁,known₁,type₁⟩
      refine .run_then (Build.isZero_run first f₁) ?_
      obtain ⟨sound₂,advance₂,known₂⟩ := sound₁.compared known₁ type₁
      have bindsBefore := (advance₁.trans advance₂).binds binds
      obtain ⟨above₃,sound₃,looping₃,code₃⟩ := sound₂.branched known₂ rfl
      refine .congr (Build.enter_run sound₂.ready _ _) ?_
      refine .bind (MergePoint.openFor_opens sound₂.root_label bindsBefore cond.reads
        ⟨sound₃,looping₃,rfl,code₃,rfl,by simp,by simp⟩) ?_ (fun _ _ failed => failed.1.traces)
      intro points f₄ opens
      have bindsBody := opens.binds bindsBefore
      -- The body is lowered where the names of the condition stand for phis, and the condition once more where the body leaves them.
      refine .bind (((body.lower_veils constant.2 opens.sound bindsBody).and (body.lower_sound signatures opens.sound bindsBody)).and
        (Attempt.meets_run _ _)) ?_ (fun _ _ failed => failed.1.1.of_body opens.constant_iff)
      rintro ⟨_,after⟩ f₅ ⟨⟨settledBody,above₅,sound₅,advance₅,binds₅,_⟩,ranBody⟩
      have left := Block.constant_lower ⟨root,_,_,opens.sound,bindsBody⟩ ranBody
      refine .bind ((cond.lower_veils constant.1 sound₅ binds₅).and (cond.lower_sound signatures sound₅ binds₅)) ?_
        (fun _ _ failed => failed.1.of_again (fun name bound last => (left name).mpr (.inl ⟨bound,last⟩)))
      rintro again f₆ ⟨settledAgain,above₆,sound₆,_,known₆,type₆⟩
      refine .run_then (Build.isZero_run again f₆) ?_
      have missing : ∀ point ∈ points, point.latch = none := by
        intro point member
        obtain ⟨binding,stands⟩ := opens.bindings point member
        exact stands.latch
      obtain ⟨log,done⟩ := Build.leave_run (sound₆.compared known₆ type₆).1.ready after missing f₆.comparison
        (f₁.compared first).header (f₁.compared first).exit
      exact .of_run done (settled.loop settledBody settledAgain opens.constant_iff (fun name => (left name).mp))
    · exact List.Subset.trans (List.subset_append_left _ _) (List.subset_cons_self _ _)

theorem Args.lower_veils (args : Args) {scope : Scope} (constant : args.hasConstantLets scope = true) {root : Text}
    {pending : List Text} {above : Text → List Text} {f : Frame} (sound : f.Sound signatures root pending above)
    {env : Environment} (binds : f.Binds above env) :
    Meets (args.lower signatures env) f (fun _ _ => Settled env args.letReads args.loops)
      (fun fault _ => Traces env args.letReads args.loops fault) := by
  match args with
  | .nil => exact .of_run rfl (.nil env)
  | .cons first rest =>
    simp only [Args.hasConstantLets,Bool.and_eq_true] at constant
    simp only [Args.lower]
    refine .bind ((first.lower_veils constant.1 sound binds).and (first.lower_sound signatures sound binds)) ?_
      (fun _ _ failed => failed.1.append_left _ _)
    rintro value f₁ ⟨settled,above₁,sound₁,advance₁,_⟩
    refine .bind (rest.lower_veils constant.2 sound₁ (advance₁.binds binds)) (fun values f₂ settled' => ?_)
      (fun _ _ failed => failed.append_right _ _)
    exact .of_run rfl (settled.append settled')

theorem Stmt.lower_veils (s : Stmt) {scope : Scope} (constant : s.hasConstantLets scope = true) {root : Text}
    {pending : List Text} {above : Text → List Text} {f : Frame} (sound : f.Sound signatures root pending above)
    {env : Environment} (binds : f.Binds above env) :
    Meets (s.lower signatures env) f (fun _ _ => Settled env s.letReads s.loops)
      (fun fault _ => Traces env s.letReads s.loops fault) := by
  match s with
  | .discard value =>
    simp only [Stmt.lower]
    exact .andThen (value.lower_veils constant sound binds) (fun _ after settled => .of_run rfl settled)
  | .bindConst name value =>
    simp only [Stmt.hasConstantLets,Bool.and_eq_true] at constant
    simp only [Stmt.lower]
    refine .bind ((value.lower_veils constant.2 sound binds).and (Attempt.meets_run _ _)) ?_
      (fun _ _ failed => failed.1.mono (List.subset_append_right _ _) (List.Subset.refl _))
    rintro bound f₁ ⟨settled,ran⟩
    have known := value.lower_known constant.1 ran
    split
    · rename_i unknown
      refine .of_error rfl ?_
      rintro _ same
      cases same
      have reads : ¬∀ read ∈ value.freeReads, env.Constant read := by
        rw [← known,unknown]
        simp
      simp only [not_forall] at reads
      obtain ⟨read,member,other⟩ := reads
      exact ⟨name,read,rfl,.inl ⟨List.mem_append_left _ (List.mem_map.mpr ⟨read,member,rfl⟩),other⟩⟩
    · rename_i n found
      refine .of_run rfl ⟨settled.clear,List.forall_mem_append.mpr ⟨?_,settled.constant⟩⟩
      intro entry member
      obtain ⟨read,free,rfl⟩ := List.mem_map.mp member
      exact known.mp (by rw [found]; rfl) read free
  | .bindMut name value =>
    simp only [Stmt.lower]
    refine .bind (Build.identifier_meets name f) ?_ (fun _ _ failed => failed.1.traces)
    rintro base _ ⟨rfl,rfl⟩
    refine .run_then (Build.allocate_run _ _) ?_
    obtain ⟨sound₁,advance₁,_⟩ := sound.allocated base
    exact .andThen (value.lower_veils constant sound₁ (advance₁.binds binds)) (fun _ after settled => .of_run rfl settled)
  | .assign name value =>
    simp only [Stmt.lower]
    cases result : env.assignable name with
    | error fault => exact .of_error rfl (Environment.assignable_traces result)
    | ok address =>
      refine .run_then rfl ?_
      exact .andThen (value.lower_veils constant sound binds) (fun _ after settled => .of_run rfl settled)

theorem Block.lower_veils (b : Block) {scope : Scope} (constant : b.hasConstantLets scope = true) {root : Text}
    {pending : List Text} {above : Text → List Text} {f : Frame} (sound : f.Sound signatures root pending above)
    {env : Environment} (binds : f.Binds above env) :
    Meets (b.lower signatures env) f (fun _ _ => Settled env b.letReads b.loops)
      (fun fault _ => Traces env b.letReads b.loops fault) := by
  match b with
  | .result value =>
    simp only [Block.lower]
    exact .andThen (value.lower_veils constant sound binds) (fun _ after settled => .of_run rfl settled)
  | .step first rest =>
    simp only [Block.hasConstantLets,Bool.and_eq_true] at constant
    simp only [Block.lower]
    refine .bind (((first.lower_veils constant.1 sound binds).and (first.lower_sound signatures sound binds)).and
      (Attempt.meets_run _ _)) ?_ (fun _ _ failed => failed.1.1.append_left _ _)
    rintro env₁ f₁ ⟨⟨settled,above₁,sound₁,_,binds₁⟩,ran⟩
    refine (rest.lower_veils constant.2 sound₁ binds₁).mono (fun _ _ settled' => settled.step ran settled') ?_
    exact fun _ _ failed => failed.step ran (rest.letReads_immutable constant.2)

end

end

/-! ### Programs -/

/-- A loop of the program veils a name that a binding reads. -/
def Program.Veils (program : Program) (bound read : Text) : Prop := ∃ loop ∈ program.loops, Lev.Veils loop bound read

/-- Where no name is in scope, no binding made of constants reads one that is bound around it. -/
theorem Traces.veils {env : Environment} {lets : List (Text × Text)} {loops : List (Expr × Block)} {name : Json}
    (traces : Traces env lets loops (.program (.nonConstantLet name)))
    (immutable : ∀ entry ∈ lets, Table.get? entry.2 ([] : Scope) = some false) :
    ∃ bound read, name = .text bound ∧ ∃ loop ∈ loops, Veils loop bound read := by
  obtain ⟨bound,read,same,⟨member,_⟩ | veils⟩ := traces name rfl
  · cases immutable _ member
  · exact ⟨bound,read,same,veils⟩
theorem Program.lower_veils {program : Program} (constant : program.hasConstantLets = true) {signatures : Table Nat} {root : Text}
    {pending : List Text} {above : Text → List Text} {f : Frame} (sound : f.Sound signatures root pending above) :
    Meets (program.subject.lowerProgram signatures .empty) f (fun _ _ => ∀ bound read, ¬program.Veils bound read)
      (fun fault _ => ∀ name, fault = .program (.nonConstantLet name) →
        ∃ bound read, name = .text bound ∧ program.Veils bound read) := by
  cases program with
  | expr e =>
    refine (e.lower_veils constant sound (Frame.binds_empty _ _)).mono ?_ ?_
    · rintro _ _ settled bound read ⟨loop,inside,veils⟩
      exact settled.clear loop inside bound read veils
    · rintro _ _ traces name rfl
      exact traces.veils (e.letReads_immutable constant)
  | block b =>
    refine .bind (b.lower_veils constant sound (Frame.binds_empty _ _)) (fun _ _ settled => .of_run rfl ?_) ?_
    · rintro bound read ⟨loop,inside,veils⟩
      exact settled.clear loop inside bound read veils
    · rintro _ _ traces name rfl
      exact traces.veils (b.letReads_immutable constant)
theorem Draft.inconstant_not_mem_findings {options : Options} {n : Node} {name : Json} :
    .nonConstantLet name ∉ findings options n := by
  simp only [findings,List.mem_append,List.mem_map,List.mem_filterMap]
  rintro ((⟨conflict,_,same⟩ | ⟨callee,_,failed⟩) | ⟨violation,_,same⟩)
  · cases same
  · obtain ⟨reason,same⟩ := Identifier.error?_eq_some failed
    cases same
  · cases violation with
    | undeclared _ | immutable _ => cases same

/-- For every program in which all immutable bindings are made of constants, and all options: if the build fails for an
    immutable binding, a loop of the program veils a name that the binding reads. If a loop veils a name that such a binding
    reads, the program is not built. -/
theorem constant_lets_fail_only_veiled (program : Program) (options : Options) (constant : program.hasConstantLets = true) :
    (∀ errors name, (Draft.build program.subject (.new options)).1 = .error (.program (.build errors)) →
      .nonConstantLet name ∈ errors → ∃ bound read, name = .text bound ∧ program.Veils bound read) ∧
    ((Draft.build program.subject (.new options)).1 = .ok () → ∀ bound read, ¬program.Veils bound read) := by
  by_cases clean : Draft.findings options program.node = []
  · obtain ⟨draft,others,holds,_,run⟩ := Draft.build_of_clean clean
    obtain ⟨sound,_⟩ := Frame.initial_sound (Function.declare_blocks options.entryName 0) draft.signatures draft.points draft.log
      (rfl : Draft.start options draft = _)
    have meets := Program.lower_veils constant sound
    rw [run]
    rcases holds.reported_run with ⟨_,_,_,lowered,_,outcome,_⟩ | ⟨error,_,_,lowered,_,_,outcome,_⟩
    · rw [outcome]
      exact ⟨fun _ _ failed => (nomatch failed),fun _ => meets.ok lowered⟩
    · rw [outcome]
      refine ⟨fun errors name failed found => ?_,fun built => (nomatch built)⟩
      cases failed
      exact meets.error lowered name (by rw [List.mem_singleton.mp found])
  · rw [Draft.build_of_findings clean]
    refine ⟨fun errors name failed found => ?_,fun built => (nomatch built)⟩
    cases failed
    exact absurd found Draft.inconstant_not_mem_findings

/-- A loop whose condition reads an immutable name, and whose body binds another name to a sum with it:
    `let a = 1; let mut x = 3; while x - a { let b = a + 1; x = x - b; 0 }; x`. -/
def veiledLet : Program :=
  .block (.step (.bindConst (lit "a") (.literal 1))
    (.step (.bindMut (lit "x") (.literal 3))
    (.step (.discard (.loop (.binary (.var (lit "x")) .sub (.var (lit "a")))
      (.step (.bindConst (lit "b") (.binary (.var (lit "a")) .add (.literal 1)))
      (.step (.assign (lit "x") (.binary (.var (lit "x")) .sub (.var (lit "b"))))
      (.result (.literal 0))))))
    (.result (.var (lit "x"))))))

/-- The name, if the outcome is that one immutable binding has no known value. -/
def inconstant? : Except Fault Unit → Option Text
  | .error (.program (.build [.nonConstantLet (.text name)])) => some name
  | _ => none

theorem eq_of_inconstant? {outcome : Except Fault Unit} {name : Text} (found : inconstant? outcome = some name) :
    outcome = .error (.program (.build [.nonConstantLet (.text name)])) := by
  unfold inconstant? at found
  split at found
  · cases found
    rfl
  · cases found
/-- The analyses find nothing in the program, its immutable bindings are made of constants, and its build fails for one. -/
theorem veiledLet_fails :
    Draft.discover {} veiledLet.subject = .ok ([(lit "main",0)],[]) ∧ veiledLet.subject.check [] = .ok [] ∧
      veiledLet.hasConstantLets = true ∧
      (Draft.build veiledLet.subject (.new {})).1 = .error (.program (.build [.nonConstantLet (.text (lit "b"))])) := by
  have carried : Identifier.error? (lit "main") = none := Option.isNone_iff_eq_none.mp (by decide +kernel)
  have violations : veiledLet.node.check [] = [] := by decide +kernel
  refine ⟨?_,congrArg Except.ok violations,by decide +kernel,eq_of_inconstant? (by decide +kernel)⟩
  show Except.ok ([(lit "main",0)],[].map Conflict.error ++ [lit "main"].filterMap Identifier.error?) = _
  simp [carried]
theorem constant_lets_fail_only_veiled_sum :
    veiledLet.hasConstantLets = true ∧
      (Draft.build veiledLet.subject (.new {})).1 = .error (.program (.build [.nonConstantLet (.text (lit "b"))])) ∧
      ∃ read, veiledLet.Veils (lit "b") read := by
  obtain ⟨_,_,constant,failed⟩ := veiledLet_fails
  obtain ⟨bound,read,same,veils⟩ :=
    (constant_lets_fail_only_veiled veiledLet {} constant).1 _ _ failed List.mem_cons_self
  cases same
  exact ⟨constant,failed,read,veils⟩
/-- It is not so that immutable bindings made of constants are always accepted. -/
theorem constant_let_rejected :
    ¬∀ (program : Program) (options : Options) table, Draft.discover options program.subject = .ok (table,[]) →
      program.subject.check [] = .ok [] → program.hasConstantLets = true → ∀ errors name,
        (Draft.build program.subject (.new options)).1 = .error (.program (.build errors)) →
          .nonConstantLet name ∉ errors := by
  intro all
  obtain ⟨discovered,checked,constant,failed⟩ := veiledLet_fails
  exact all veiledLet {} _ discovered checked constant _ _ failed List.mem_cons_self

end Lev
