import Lev.Doc

/-!
The syntax of Lev: integer arithmetic, immutable and mutable bindings, blocks, loops and calls. A
block is a sequence of statements that ends in the expression whose value is the block's value.
-/
namespace Lev

/-- The arithmetic operators. -/
inductive Operator where
  | add
  | sub
  | mul
  | div
  deriving DecidableEq

mutual

/-- An expression. -/
inductive Expr where
  | literal (value : Int)
  | var (name : Text)
  | binary (left : Expr) (op : Operator) (right : Expr)
  | call (callee : Text) (args : Args)
  | scope (body : Block)
  | loop (cond : Expr) (body : Block)

/-- The arguments of a call. -/
inductive Args where
  | nil
  | cons (first : Expr) (rest : Args)

/-- A statement: an expression evaluated for its effect, an immutable binding, a mutable binding, or
    an assignment to a mutable binding. -/
inductive Stmt where
  | discard (value : Expr)
  | bindConst (name : Text) (value : Expr)
  | bindMut (name : Text) (value : Expr)
  | assign (name : Text) (value : Expr)

/-- The rest of a block: its value, or a statement before more of it. -/
inductive Block where
  | result (value : Expr)
  | step (first : Stmt) (rest : Block)

end

/-- Any piece of syntax. -/
inductive Node where
  | expr (e : Expr)
  | stmt (s : Stmt)
  | block (b : Block)

/-- A whole program is a block or an expression. -/
inductive Program where
  | expr (e : Expr)
  | block (b : Block)

/-- What the compiler can be handed: a piece of syntax, an operation whose operator is a mere text,
    or a value that is no syntax at all. -/
inductive Subject where
  | node (n : Node)
  | oddBinary (left : Expr) (symbol : Text) (right : Expr)
  | foreign (value : Json)

namespace Operator

/-- The symbol of an operator. -/
def symbol : Operator → Text
  | .add => lit "+"
  | .sub => lit "-"
  | .mul => lit "*"
  | .div => lit "/"

/-- The name of an operator in shown syntax. -/
def title : Operator → Text
  | .add => lit "ADD"
  | .sub => lit "SUB"
  | .mul => lit "MUL"
  | .div => lit "DIV"

/-- The operator of a symbol. -/
def ofSymbol? (symbol : Text) : Option Operator :=
  if symbol = lit "+" then some .add
  else if symbol = lit "-" then some .sub
  else if symbol = lit "*" then some .mul
  else if symbol = lit "/" then some .div
  else none

end Operator

namespace Args

/-- The arguments in order. -/
def toList : Args → List Expr
  | .nil => []
  | .cons first rest => first :: toList rest

def ofList : List Expr → Args
  | [] => .nil
  | first :: rest => .cons first (ofList rest)

/-- The number of arguments. -/
def length : Args → Nat
  | .nil => 0
  | .cons _ rest => length rest + 1

end Args

namespace Block

/-- The statements of a block in order. -/
def stmts : Block → List Stmt
  | .result _ => []
  | .step first rest => first :: stmts rest

/-- The expression that gives the value of a block. -/
def value : Block → Expr
  | .result value => value
  | .step _ rest => value rest

def ofList (stmts : List Stmt) (value : Expr) : Block := stmts.foldr .step (.result value)

end Block

/-- The program as a piece of syntax. -/
def Program.node : Program → Node
  | .expr e => .expr e
  | .block b => .block b

/-- The program as something handed to the compiler. -/
def Program.subject (program : Program) : Subject := .node program.node

/-! ## Shown syntax -/

/-- An operator as shown syntax names it. -/
def Operator.doc (op : Operator) : Doc :=
  .atom (lit "<Operator." ++ op.title ++ lit ": " ++ op.symbol.quoted ++ lit ">")

/-- A block as shown syntax gives it. -/
def Block.record (stmts : List Doc) (value : Doc) : Doc :=
  .record (lit "Block") [(lit "stmts", .list stmts), (lit "end", value)]

mutual

def Expr.doc : Expr → Doc
  | .literal value => .record (lit "Literal") [(lit "value", .atom (Text.ofInt value))]
  | .var name => .record (lit "Var") [(lit "name", .text name)]
  | .binary left op right =>
    .record (lit "Infix") [(lit "left", left.doc), (lit "op", op.doc), (lit "right", right.doc)]
  | .call callee args =>
    .record (lit "Call") [(lit "name", .text callee), (lit "args", .list args.docs)]
  | .scope body => .record (lit "Scope") [(lit "block", Block.record body.stmtDocs body.valueDoc)]
  | .loop cond body =>
    .record (lit "While") [(lit "cond", cond.doc), (lit "block", Block.record body.stmtDocs body.valueDoc)]

def Args.docs : Args → List Doc
  | .nil => []
  | .cons first rest => first.doc :: rest.docs

def Stmt.doc : Stmt → Doc
  | .discard value => .record (lit "TermSemicolon") [(lit "expr", value.doc)]
  | .bindConst name value => .record (lit "Let") [(lit "name", .text name), (lit "rhs", value.doc)]
  | .bindMut name value => .record (lit "LetMut") [(lit "name", .text name), (lit "rhs", value.doc)]
  | .assign name value => .record (lit "Mutate") [(lit "name", .text name), (lit "rhs", value.doc)]

def Block.stmtDocs : Block → List Doc
  | .result _ => []
  | .step first rest => first.doc :: rest.stmtDocs

def Block.valueDoc : Block → Doc
  | .result value => value.doc
  | .step _ rest => rest.valueDoc

end

def Block.doc (b : Block) : Doc := Block.record b.stmtDocs b.valueDoc

def Node.doc : Node → Doc
  | .expr e => e.doc
  | .stmt s => s.doc
  | .block b => b.doc

def Subject.doc : Subject → Doc
  | .node n => n.doc
  | .oddBinary left symbol right =>
    .record (lit "Infix") [(lit "left", left.doc), (lit "op", .text symbol), (lit "right", right.doc)]
  | .foreign value => value.doc

end Lev
