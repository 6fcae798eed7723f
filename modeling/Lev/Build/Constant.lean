import Lev.Build.Lower

/-!
Lowering where there is no function to fill. Only what folds to constants can be lowered then; the
first thing that would have to be emitted is a fault.
-/
namespace Lev

mutual

/-- The value of an expression that emits nothing. -/
def Expr.constant (signatures : Table Nat) : Expr → Environment → Except Fault Value
  | .literal n, _ => .ok (.ofInt n)
  | .var name, env => do
    let binding ← env.resolve name
    if binding.isBoxed then .error (.noFunction .load) else .ok binding.value
  | .binary left op right, env => do
    let a ← left.constant signatures env
    let b ← right.constant signatures env
    match op.folded? a b with
    | some n => .ok (.ofInt n)
    | none => .error (.noFunction (.arith op))
  | .call callee args, env => do
    callable signatures callee args.length
    args.constant signatures env
    .error (.noFunction .call)
  | .scope body, env => do
    let (value, _) ← body.constant signatures env
    .ok value
  | .loop _ _, _ => .error (.noFunction .loop)

/-- Requires that arguments emit nothing. -/
def Args.constant (signatures : Table Nat) : Args → Environment → Except Fault Unit
  | .nil, _ => .ok ()
  | .cons first rest, env => do
    let _ ← first.constant signatures env
    rest.constant signatures env

/-- The environment after a statement that emits nothing. -/
def Stmt.constant (signatures : Table Nat) : Stmt → Environment → Except Fault Environment
  | .discard value, env => do
    let _ ← value.constant signatures env
    .ok env
  | .bindConst name value, env => do
    let value ← value.constant signatures env
    match value.known? with
    | none => .error (.program (.nonConstantLet (.text name)))
    | some n => .ok (env.bind name value (.unboxed n))
  | .bindMut _ _, _ => .error (.noFunction .cell)
  | .assign name value, env => do
    let _ ← env.assignable name
    let _ ← value.constant signatures env
    .error (.noFunction .store)

/-- The value of a block that emits nothing, and the environment after its statements. -/
def Block.constant (signatures : Table Nat) : Block → Environment → Except Fault (Value × Environment)
  | .result value, env => do
    let value ← value.constant signatures env
    .ok (value, env)
  | .step first rest, env => do
    let env ← first.constant signatures env
    rest.constant signatures env

end

namespace Subject

def constantExpr (signatures : Table Nat) (subject : Subject) (env : Environment) : Except Fault Value :=
  match subject with
  | .node (.expr e) => e.constant signatures env
  | .oddBinary left symbol right => do
    let _ ← left.constant signatures env
    let _ ← right.constant signatures env
    .error (.unknownOperator symbol)
  | _ => .error (.misplaced .expr subject)

def constantStmt (signatures : Table Nat) (subject : Subject) (env : Environment) :
    Except Fault Environment :=
  match subject with
  | .node (.stmt s) => s.constant signatures env
  | _ => .error (.misplaced .stmt subject)

def constantBlock (signatures : Table Nat) (subject : Subject) (env : Environment) :
    Except Fault (Value × Environment) :=
  match subject with
  | .node (.block b) => b.constant signatures env
  | _ => .error (.misplaced .block subject)

def constantProgram (signatures : Table Nat) (subject : Subject) (env : Environment) : Except Fault Value :=
  match subject with
  | .node (.block b) => do
    let (value, _) ← b.constant signatures env
    .ok value
  | .node (.stmt _) => .error (.misplaced .program subject)
  | .foreign _ => .error (.misplaced .program subject)
  | _ => subject.constantExpr signatures env

end Subject

end Lev
