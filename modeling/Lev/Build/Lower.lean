import Lev.Analysis.Reads
import Lev.Arithmetic
import Lev.Build.MergePoint

/-!
Lowering of syntax into the function that is being filled. An expression gives a value and leaves the
environment as it is; a statement gives the environment after it; a block gives both. Operations on
constants are folded. A loop is lowered to

* the condition and a branch past the loop if it is zero,
* a header with one phi for each variable that the condition reads,
* the body, the condition once more, and a branch back or past the loop.
-/
namespace Lev

/-- An integer constant of the program. -/
def Value.ofInt (n : Int) : Value := .const (wrap wordBits n)

/-- The base of the names of an operator's results. -/
def Operator.base : Operator → Text
  | .add => lit "add"
  | .sub => lit "sub"
  | .mul => lit "mul"
  | .div => lit "div"

/-- The result of an operation if both operands are known and the target defines it. -/
def Operator.folded? (op : Operator) (left right : Value) : Option Int :=
  match left.known?, right.known? with
  | some a, some b => op.fold wordBits a b
  | _, _ => none

/-- What a name is bound to. -/
def Environment.resolve (env : Environment) (name : Text) : Except Fault Binding :=
  match env.lookup? name with
  | none => .error (.program (.undeclaredVariable (.text name)))
  | some binding => .ok binding

/-- The cell that an assignment stores to. -/
def Environment.assignable (env : Environment) (name : Text) : Except Fault Value := do
  let binding ← env.resolve name
  if binding.isBoxed then .ok binding.value
  else .error (.program (.immutableAssignment (.text name)))

/-- Requires a function of the given name that takes that many arguments. -/
def callable (signatures : Table Nat) (callee : Text) (count : Nat) : Except Fault Unit :=
  match signatures.get? callee with
  | none => .error (.program (.undeclaredFunction (.text callee)))
  | some arity =>
    if arity = count then .ok ()
    else .error (.program (.arityConflict (.text callee) (some arity) (some count)))

namespace Build

/-- The value of a variable. -/
def readVariable (env : Environment) (name : Text) : Build Value := do
  let binding ← Attempt.ofExcept (env.resolve name)
  if binding.isBoxed then emitNamed name fun result => .load result binding.value
  else pure binding.value

/-- The value of an operation. -/
def arith (op : Operator) (left right : Value) : Build Value :=
  match op.folded? left right with
  | some n => pure (.ofInt n)
  | none => emitNamed op.base fun result => .arith result op left right

/-- Compares a value with zero. -/
def isZero (value : Value) : Build Value := do
  let result ← register (lit "iszero")
  emit (.isZero result value)
  pure (.reg result .i1)

end Build

mutual

/-- Lowers an expression. -/
def Expr.lower (signatures : Table Nat) : Expr → Environment → Build Value
  | .literal n, _ => pure (.ofInt n)
  | .var name, env => Build.readVariable env name
  | .binary left op right, env => do
    let a ← left.lower signatures env
    let b ← right.lower signatures env
    Build.arith op a b
  | .call callee args, env => do
    Attempt.ofExcept (callable signatures callee args.length)
    let values ← args.lower signatures env
    let name ← Build.identifier callee
    Build.emitNamed (lit "call_" ++ name) fun result => .call result callee values
  | .scope body, env => do
    let (value, _) ← body.lower signatures env
    pure value
  | .loop cond body, env => do
    let first ← cond.lower signatures env
    let skip ← Build.isZero first
    let header ← Build.addBlock (lit "loop")
    let exit ← Build.addBlock (lit "afterloop")
    let preheader ← Build.currentBlock
    Build.terminate (.condBr skip exit header)
    Build.moveTo header
    let points ← MergePoint.openFor cond.reads env preheader
    let (_, after) ← body.lower signatures (MergePoint.bindAll env points)
    let again ← cond.lower signatures after
    let leave ← Build.isZero again
    let latch ← Build.currentBlock
    let closed ← MergePoint.closeAll after latch points
    Build.terminate (.condBr leave exit header)
    Build.moveTo exit
    Attempt.modify fun frame => { frame with points := frame.points ++ closed }
    pure (.ofInt 0)

/-- Lowers arguments from left to right. -/
def Args.lower (signatures : Table Nat) : Args → Environment → Build (List Value)
  | .nil, _ => pure []
  | .cons first rest, env => do
    let value ← first.lower signatures env
    let values ← rest.lower signatures env
    pure (value :: values)

/-- Lowers a statement. A mutable binding has its cell before its value is computed. -/
def Stmt.lower (signatures : Table Nat) : Stmt → Environment → Build Environment
  | .discard value, env => do
    let _ ← value.lower signatures env
    pure env
  | .bindConst name value, env => do
    let value ← value.lower signatures env
    match value.known? with
    | none => Attempt.reject (.nonConstantLet (.text name))
    | some n => pure (env.bind name value (.unboxed n))
  | .bindMut name value, env => do
    let cell ← Build.allocate (← Build.identifier name)
    let value ← value.lower signatures env
    Build.emitUnnamed (.store value cell.pointer)
    pure (env.bind name cell.pointer .boxed)
  | .assign name value, env => do
    let address ← Attempt.ofExcept (env.assignable name)
    let value ← value.lower signatures env
    Build.emitUnnamed (.store value address)
    pure env

/-- Lowers a block: each statement sees the names bound before it. -/
def Block.lower (signatures : Table Nat) : Block → Environment → Build (Value × Environment)
  | .result value, env => do
    let value ← value.lower signatures env
    pure (value, env)
  | .step first rest, env => do
    let env ← first.lower signatures env
    rest.lower signatures env

end

namespace Subject

/-- Lowers what should be an expression. The operands of an operation are lowered before its operator
    is looked at. -/
def lowerExpr (signatures : Table Nat) (subject : Subject) (env : Environment) : Build Value :=
  match subject with
  | .node (.expr e) => e.lower signatures env
  | .oddBinary left symbol right => do
    let _ ← left.lower signatures env
    let _ ← right.lower signatures env
    Attempt.fail (.unknownOperator symbol)
  | _ => Attempt.fail (.misplaced .expr subject)

/-- Lowers what should be a statement. -/
def lowerStmt (signatures : Table Nat) (subject : Subject) (env : Environment) : Build Environment :=
  match subject with
  | .node (.stmt s) => s.lower signatures env
  | _ => Attempt.fail (.misplaced .stmt subject)

/-- Lowers what should be a block. -/
def lowerBlock (signatures : Table Nat) (subject : Subject) (env : Environment) :
    Build (Value × Environment) :=
  match subject with
  | .node (.block b) => b.lower signatures env
  | _ => Attempt.fail (.misplaced .block subject)

/-- Lowers what should be a program. -/
def lowerProgram (signatures : Table Nat) (subject : Subject) (env : Environment) : Build Value :=
  match subject with
  | .node (.block b) => do
    let (value, _) ← b.lower signatures env
    pure value
  | .node (.stmt _) => Attempt.fail (.misplaced .program subject)
  | .foreign _ => Attempt.fail (.misplaced .program subject)
  | _ => subject.lowerExpr signatures env

end Subject

end Lev
