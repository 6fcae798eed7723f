import Lev.Error

/-!
The variables that syntax reads. The name of a binding or of an assignment is not read, and neither is
the name of a called function.
-/
namespace Lev

mutual

/-- The names an expression reads, in source order and with repetitions. -/
def Expr.reads : Expr → List Text
  | .literal _ => []
  | .var name => [name]
  | .binary left _ right => left.reads ++ right.reads
  | .call _ args => args.reads
  | .scope body => body.reads
  | .loop cond body => cond.reads ++ body.reads

def Args.reads : Args → List Text
  | .nil => []
  | .cons first rest => first.reads ++ rest.reads

def Stmt.reads : Stmt → List Text
  | .discard value => value.reads
  | .bindConst _ value => value.reads
  | .bindMut _ value => value.reads
  | .assign _ value => value.reads

def Block.reads : Block → List Text
  | .result value => value.reads
  | .step first rest => first.reads ++ rest.reads

end

def Node.reads : Node → List Text
  | .expr e => e.reads
  | .stmt s => s.reads
  | .block b => b.reads

def Subject.reads : Subject → Except Fault (List Text)
  | .node n => .ok n.reads
  | .oddBinary left _ right => .ok (left.reads ++ right.reads)
  | .foreign value => .error (.misplaced .node (.foreign value))

end Lev
