import Lev.Error

/-!
The binding check. Every read needs a visible binding and every assignment a mutable one. A binding is
visible after its own statement to the end of its block; the bodies of scopes and loops see what
surrounds them and keep their bindings to themselves.
-/
namespace Lev

/-- The visible names, and whether each can be assigned. -/
abbrev Scope := Table Bool

/-- A use of a name that its scope does not allow. -/
inductive Violation where
  | undeclared (name : Text)
  | immutable (name : Text)
  deriving DecidableEq

def Violation.error : Violation → ProgramError
  | .undeclared name => .undeclaredVariable (.text name)
  | .immutable name => .immutableAssignment (.text name)

/-- The scope after a statement. -/
def Stmt.extend (scope : Scope) : Stmt → Scope
  | .discard _ => scope
  | .bindConst name _ => scope.set name false
  | .bindMut name _ => scope.set name true
  | .assign _ _ => scope

/-- What is wrong with reading a name. -/
def Scope.readViolations (scope : Scope) (name : Text) : List Violation :=
  if scope.contains name then [] else [.undeclared name]

/-- What is wrong with assigning to a name. -/
def Scope.assignViolations (scope : Scope) (name : Text) : List Violation :=
  match scope.get? name with
  | none => [.undeclared name]
  | some true => []
  | some false => [.immutable name]

mutual

/-- The violations of an expression in source order, with repetitions. -/
def Expr.violations : Expr → Scope → List Violation
  | .literal _, _ => []
  | .var name, scope => scope.readViolations name
  | .binary left _ right, scope => left.violations scope ++ right.violations scope
  | .call _ args, scope => args.violations scope
  | .scope body, scope => body.violations scope
  | .loop cond body, scope => cond.violations scope ++ body.violations scope

def Args.violations : Args → Scope → List Violation
  | .nil, _ => []
  | .cons first rest, scope => first.violations scope ++ rest.violations scope

def Stmt.violations : Stmt → Scope → List Violation
  | .discard value, scope => value.violations scope
  | .bindConst _ value, scope => value.violations scope
  | .bindMut _ value, scope => value.violations scope
  | .assign name value, scope => scope.assignViolations name ++ value.violations scope

def Block.violations : Block → Scope → List Violation
  | .result value, scope => value.violations scope
  | .step first rest, scope => first.violations scope ++ rest.violations (first.extend scope)

end

def Node.violations : Node → Scope → List Violation
  | .expr e, scope => e.violations scope
  | .stmt s, scope => s.violations scope
  | .block b, scope => b.violations scope

/-- Each violation once, in the order of first occurrence. -/
def Node.check (n : Node) (scope : Scope) : List Violation := (n.violations scope).eraseDups

def Subject.check (subject : Subject) (scope : Scope) : Except Fault (List Violation) :=
  match subject with
  | .node n => .ok (n.check scope)
  | .oddBinary left _ right => .ok (left.violations scope ++ right.violations scope).eraseDups
  | .foreign value => .error (.misplaced .node (.foreign value))

end Lev
