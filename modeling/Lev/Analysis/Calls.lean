import Lev.Error

/-!
The functions that syntax calls. Every call site gives a name and a number of arguments; the first
site of a name fixes its arity, and a name called with another number of arguments is in conflict.
-/
namespace Lev

/-- A called name with the number of arguments at one call. -/
structure CallSite where
  name : Text
  arity : Int
  deriving DecidableEq

def CallSite.shown (site : CallSite) : Text := site.name ++ lit "/" ++ Text.ofInt site.arity

mutual

/-- The call sites of an expression in source order; a call comes before the calls in its arguments. -/
def Expr.calls : Expr → List CallSite
  | .literal _ => []
  | .var _ => []
  | .binary left _ right => left.calls ++ right.calls
  | .call callee args => ⟨callee, args.length⟩ :: args.calls
  | .scope body => body.calls
  | .loop cond body => cond.calls ++ body.calls

def Args.calls : Args → List CallSite
  | .nil => []
  | .cons first rest => first.calls ++ rest.calls

def Stmt.calls : Stmt → List CallSite
  | .discard value => value.calls
  | .bindConst _ value => value.calls
  | .bindMut _ value => value.calls
  | .assign _ value => value.calls

def Block.calls : Block → List CallSite
  | .result value => value.calls
  | .step first rest => first.calls ++ rest.calls

end

def Node.calls : Node → List CallSite
  | .expr e => e.calls
  | .stmt s => s.calls
  | .block b => b.calls

def Subject.calls : Subject → Except Fault (List CallSite)
  | .node n => .ok n.calls
  | .oddBinary left _ right => .ok (left.calls ++ right.calls)
  | .foreign value => .error (.misplaced .node (.foreign value))

/-- A name whose call sites disagree: the arity in the table and the first one that differs. -/
structure Conflict where
  name : Text
  expected : Int
  found : Int
  deriving DecidableEq

def Conflict.error (conflict : Conflict) : ProgramError :=
  .arityConflict (.text conflict.name) (some conflict.expected) (some conflict.found)

/-- The arities found so far and the names in conflict, both in the order they were met. -/
structure Signatures where
  table : Table Int
  conflicts : List Conflict

namespace Signatures

/-- Enters one call site. -/
def enter (found : Signatures) (site : CallSite) : Signatures :=
  match found.table.get? site.name with
  | none => { found with table := found.table.set site.name site.arity }
  | some expected =>
    if expected = site.arity ∨ found.conflicts.any (·.name = site.name) then found
    else { found with conflicts := found.conflicts ++ [⟨site.name, expected, site.arity⟩] }

/-- The signatures of call sites, given those already known. -/
def ofCalls (known : Table Int) (sites : List CallSite) : Signatures :=
  sites.foldl enter ⟨known, []⟩

/-- The distinct callees, or the first conflict among them. -/
def callees (sites : List CallSite) : Except ProgramError (List CallSite) :=
  let found := ofCalls [] sites
  match found.conflicts with
  | [] => .ok (found.table.map fun (name, arity) => ⟨name, arity⟩)
  | conflict :: _ => .error conflict.error

end Signatures

end Lev
