import Lev.Syntax.Basic
import Lev.Text.Utf8

/-!
Why lowering fails. A `ProgramError` is about an identifier of the program; several of them that were
found independently are reported together. A `Fault` is any failure of a step, those of misuse and what
the tools of the target complain of included.
-/
namespace Lev

/-- What is wrong with a program. The name at fault is given as the value it came as. -/
inductive ProgramError where
  | undeclaredVariable (name : Json)
  | immutableAssignment (name : Json)
  | undeclaredFunction (name : Json)
  | arityConflict (name : Json) (expected found : Option Int)
  | nonConstantLet (name : Json)
  | badIdentifier (name : Json) (reason : Text)
  | build (errors : List ProgramError)
  | other (name : Json) (message : Text)

/-- A value inside a sentence: a text stands for itself. -/
def Json.plain : Json → Text
  | .text t => t
  | value => value.shown

mutual

def ProgramError.message : ProgramError → Text
  | .undeclaredVariable name =>
    lit "Undeclared identifier '" ++ name.plain ++ lit "': variable has not been declared in this scope"
  | .immutableAssignment name =>
    lit "Cannot assign to '" ++ name.plain ++ lit "': it was bound with 'let' and is immutable. " ++
      lit "Declare it with 'let mut' to allow mutation."
  | .undeclaredFunction name =>
    lit "Undeclared function '" ++ name.plain ++ lit "': no signature was declared for it"
  | .arityConflict name expected found =>
    let detail :=
      match expected, found with
      | some expected, some found =>
        lit " (" ++ Text.ofInt expected ++ lit " and " ++ Text.ofInt found ++ lit " arguments)"
      | _, _ => []
    lit "Function '" ++ name.plain ++ lit "' is called with different numbers of arguments" ++ detail
  | .nonConstantLet name =>
    lit "Immutable binding '" ++ name.plain ++ lit "' needs a compile-time constant; " ++
      lit "use 'let mut' for values computed at run time"
  | .badIdentifier name reason =>
    lit "Identifier " ++ name.shown ++ lit " cannot be used as an LLVM name: " ++ reason
  | .build errors => Text.join (lit "\n") (ProgramError.messages errors)
  | .other _ message => message

def ProgramError.messages : List ProgramError → List Text
  | [] => []
  | error :: rest => error.message :: ProgramError.messages rest

end

/-- The name at fault; several failures together have none. -/
def ProgramError.name : ProgramError → Json
  | .undeclaredVariable name => name
  | .immutableAssignment name => name
  | .undeclaredFunction name => name
  | .arityConflict name _ _ => name
  | .nonConstantLet name => name
  | .badIdentifier name _ => name
  | .build _ => .null
  | .other name _ => name

/-- The places that a piece of syntax can be handed to. -/
inductive Role where
  | node
  | expr
  | stmt
  | block
  | program
  deriving DecidableEq

/-- What can only be emitted into a function. -/
inductive Emission where
  | entry
  | cell
  | load
  | store
  | arith (op : Operator)
  | call
  | loop
  deriving DecidableEq

def Emission.title : Emission → Text
  | .entry => lit "append_basic_block"
  | .cell => lit "allocate"
  | .load => lit "load"
  | .store => lit "store"
  | .arith .add => lit "add"
  | .arith .sub => lit "sub"
  | .arith .mul => lit "mul"
  | .arith .div => lit "sdiv"
  | .call => lit "call"
  | .loop => lit "function"

/-- Why a step fails. -/
inductive Fault where
  | program (error : ProgramError)
  | misplaced (role : Role) (subject : Subject)
  | unknownOperator (symbol : Text)
  | negativeShift
  | noCell
  | alreadyBuilt
  | alreadyClosed (name block : Text)
  | terminated
  | noFunction (emission : Emission)
  | listName
  | unencodable (extent : Utf8.Unencodable)
  | rejectedModule (name complaint : Text)
  | noTarget (triple complaint : Text)
  | noMachine (complaint : Text)
  | noCode (complaint : Text)

/-- What a subject is called where it has no statements. -/
def Subject.title : Subject → Text
  | .node n =>
    match n.doc with
    | .record name _ => name
    | _ => []
  | .oddBinary _ _ _ => lit "Infix"
  | .foreign value =>
    match value with
    | .null => lit "NoneType"
    | .bool _ => lit "bool"
    | .int _ => lit "int"
    | .float _ => lit "float"
    | .text _ => lit "str"
    | .list _ => lit "list"
    | .object _ => lit "dict"

def Fault.message : Fault → Text
  | .program error => error.message
  | .misplaced role subject =>
    match role with
    | .node => lit "Not a Lev AST node: " ++ subject.doc.flat
    | .expr => lit "Not a Lev expression: " ++ subject.doc.flat
    | .stmt => lit "Not a Lev statement: " ++ subject.doc.flat
    | .block => lit "'" ++ subject.title ++ lit "' object has no attribute 'stmts'"
    | .program => lit "A program must be a Block or an expression, got " ++ subject.doc.flat
  | .unknownOperator symbol => lit "Unknown operator " ++ symbol.quoted
  | .negativeShift => lit "negative shift count"
  | .noCell => lit "list index out of range"
  | .alreadyBuilt => lit "Lowerer has already built a module; create a new Lowerer"
  | .alreadyClosed name block =>
    lit "Merge point for '" ++ name ++ lit "' already has its latch edge from block '" ++ block ++ lit "'"
  | .terminated => []
  | .noFunction emission => lit "'NoneType' object has no attribute '" ++ emission.title ++ lit "'"
  | .listName => lit "unhashable type: 'list'"
  | .unencodable extent => extent.message
  | .rejectedModule name complaint => lit "LLVM rejected module '" ++ name ++ lit "': " ++ complaint
  | .noTarget triple complaint => lit "Unknown target triple " ++ triple.quoted ++ lit ": " ++ complaint
  | .noMachine complaint => complaint
  | .noCode complaint => complaint

end Lev
