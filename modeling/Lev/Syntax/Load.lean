import Lev.Json.Reader
import Lev.Syntax.Basic

/-!
Loading syntax from JSON. A node is an object whose `kind` names it and whose other members hold its
parts; members that a node does not have are ignored, a call may leave out its arguments, and a block
is recognised by its members alone. The first fault met is reported, with the value at fault if it can
be printed. How deep loading can follow a value is up to the machine that it runs on.
-/
namespace Lev

/-- How a JSON value fails to be syntax. -/
inductive FormatError where
  | notBlock (value : Json)
  | notStmt (value : Json)
  | notExpr (value : Json)
  | notNode (value : Json)
  | missing (kind member : Text)
  | notText (kind : Text) (value : Json)
  | notList (kind member : Text)
  | notInteger (value : Json)
  | unknownOperator (value : Json)
  | unknownStmt (kind : Json)
  | unknownExpr (kind : Json)
  | notProgram
  | malformed (error : Json.ReadError)

/-- Why syntax is not loaded: the value is no syntax; the value at fault cannot be printed; its kind is
    a list or an object where a word is looked up; an integer of the document is too long to be read; or
    the machine has no room for the calls that loading takes. -/
inductive LoadError where
  | format (error : FormatError)
  | unprintable
  | listKind
  | objectKind
  | unreadable (error : Json.ReadError)
  | exhausted (complaint : Text)

/-- The value that the message of an error shows. -/
def FormatError.value? : FormatError → Option Json
  | .notBlock value => some value
  | .notStmt value => some value
  | .notExpr value => some value
  | .notNode value => some value
  | .notText _ value => some value
  | .notInteger value => some value
  | .unknownOperator value => some value
  | .unknownStmt kind => some kind
  | .unknownExpr kind => some kind
  | .missing _ _ => none
  | .notList _ _ => none
  | .notProgram => none
  | .malformed _ => none

def FormatError.message : FormatError → Text
  | .notBlock value => lit "Expected a Block object, got " ++ value.shown
  | .notStmt value => lit "Expected a statement object, got " ++ value.shown
  | .notExpr value => lit "Expected an expression object, got " ++ value.shown
  | .notNode value => lit "Expected a node object, got " ++ value.shown
  | .missing kind member => kind ++ lit " node is missing field '" ++ member ++ lit "'"
  | .notText kind value => kind ++ lit " node field 'name' must be a string, got " ++ value.shown
  | .notList kind member => kind ++ lit " node field '" ++ member ++ lit "' must be a list"
  | .notInteger value => lit "Literal value must be an integer, got " ++ value.shown
  | .unknownOperator value => lit "Unknown operator " ++ value.shown
  | .unknownStmt kind => lit "Unknown statement kind " ++ kind.shown
  | .unknownExpr kind => lit "Unknown expression kind " ++ kind.shown
  | .notProgram => lit "A program must be a Block or an expression, not a statement"
  | .malformed error => lit "Invalid JSON: " ++ error.message

def LoadError.message : LoadError → Text
  | .format error => error.message
  | .unprintable =>
    lit "Exceeds the limit (4300 digits) for integer string conversion; " ++
      lit "use sys.set_int_max_str_digits() to increase the limit"
  | .listKind => lit "unhashable type: 'list'"
  | .objectKind => lit "unhashable type: 'dict'"
  | .unreadable error => error.message
  | .exhausted complaint => complaint

/-- Loading gives syntax or the first fault. -/
abbrev Load := Except LoadError

namespace Load

/-- Fails because the value is no syntax. -/
def refuse {α : Type} (error : FormatError) : Load α :=
  if error.value?.all Json.isPrintable then .error (.format error) else .error .unprintable

/-- The members of an object. -/
abbrev Members := List (Text × Json)

/-- The kind of a node; null if it has none. -/
def kind (members : Members) : Json := (Table.get? (lit "kind") members).getD .null

/-- Whether a value is the given word. -/
def isWord (value : Json) (word : String) : Bool :=
  match value with
  | .text t => t = lit word
  | _ => false

/-- A member that a node must have. -/
def required (kind member : Text) (members : Members) : Load Json :=
  match Table.get? member members with
  | some value => .ok value
  | none => refuse (.missing kind member)

/-- The name that a node holds. -/
def name (kind : Text) (members : Members) : Load Text := do
  match ← required kind (lit "name") members with
  | .text t => .ok t
  | value => refuse (.notText kind value)

/-- The value of a literal. -/
def integer (members : Members) : Load Int := do
  match ← required (lit "Literal") (lit "value") members with
  | .int n => .ok n
  | value => refuse (.notInteger value)

/-- The operator that a value names. -/
def operator? : Json → Option Operator
  | .text t => Operator.ofSymbol? t
  | _ => none

/-- The operator of an operation. -/
def operator (members : Members) : Load Operator := do
  let value ← required (lit "Infix") (lit "op") members
  match operator? value with
  | some op => .ok op
  | none => refuse (.unknownOperator value)

/-- The arguments of a call, if it has any, must be a list. -/
def argsAreList (members : Members) : Load Unit :=
  match Table.get? (lit "args") members with
  | none => .ok ()
  | some (.list _) => .ok ()
  | some _ => refuse (.notList (lit "Call") (lit "args"))

/-- The statements of a block must be a list. -/
def stmtsAreList (members : Members) : Load Unit := do
  match ← required (lit "Block") (lit "stmts") members with
  | .list _ => .ok ()
  | _ => refuse (.notList (lit "Block") (lit "stmts"))

/-- The kinds of statement that give a name a value. -/
inductive Binder where
  | bindConst
  | bindMut
  | assign

def Binder.tag : Binder → Text
  | .bindConst => lit "Let"
  | .bindMut => lit "LetMut"
  | .assign => lit "Mutate"

def Binder.stmt (binder : Binder) (name : Text) (value : Expr) : Stmt :=
  match binder with
  | .bindConst => .bindConst name value
  | .bindMut => .bindMut name value
  | .assign => .assign name value

/-- Looks a kind up among the statements that give a name a value; lists and objects cannot be
    looked up. -/
def binder? : Json → Load (Option Binder)
  | .text t =>
    .ok (if t = lit "Let" then some .bindConst
      else if t = lit "LetMut" then some .bindMut
      else if t = lit "Mutate" then some .assign
      else none)
  | .list _ => .error .listKind
  | .object _ => .error .objectKind
  | _ => .ok none

mutual

/-- The expression that a value encodes. -/
def expr : Json → Load Expr
  | .object members =>
    let tag := kind members
    if isWord tag "Literal" then do
      .ok (.literal (← integer members))
    else if isWord tag "Var" then do
      .ok (.var (← name (lit "Var") members))
    else if isWord tag "Infix" then do
      let op ← operator members
      let left ← exprAt (lit "Infix") (lit "left") members
      let right ← exprAt (lit "Infix") (lit "right") members
      .ok (.binary left op right)
    else if isWord tag "Call" then do
      argsAreList members
      let callee ← name (lit "Call") members
      .ok (.call callee (← argsAt members))
    else if isWord tag "Scope" then do
      .ok (.scope (← blockAt (lit "Scope") members))
    else if isWord tag "While" then do
      let cond ← exprAt (lit "While") (lit "cond") members
      .ok (.loop cond (← blockAt (lit "While") members))
    else refuse (.unknownExpr tag)
  | value => refuse (.notExpr value)

/-- The statement that a value encodes. -/
def stmt : Json → Load Stmt
  | .object members =>
    let tag := kind members
    if isWord tag "TermSemicolon" then do
      .ok (.discard (← exprAt (lit "TermSemicolon") (lit "expr") members))
    else do
      match ← binder? tag with
      | none => refuse (.unknownStmt tag)
      | some binder =>
        let name ← name binder.tag members
        .ok (binder.stmt name (← exprAt binder.tag (lit "rhs") members))
  | value => refuse (.notStmt value)

/-- The block that a value encodes. -/
def block : Json → Load Block
  | .object members => do
    stmtsAreList members
    let stmts ← stmtsAt members
    .ok (.ofList stmts (← exprAt (lit "Block") (lit "end") members))
  | value => refuse (.notBlock value)

/-- The expression in a member. -/
def exprAt (kind member : Text) : List (Text × Json) → Load Expr
  | [] => refuse (.missing kind member)
  | (key, value) :: rest => if key = member then expr value else exprAt kind member rest

/-- The block in a member. -/
def blockAt (kind : Text) : List (Text × Json) → Load Block
  | [] => refuse (.missing kind (lit "block"))
  | (key, value) :: rest => if key = lit "block" then block value else blockAt kind rest

/-- The arguments in a member; without it there are none. -/
def argsAt : List (Text × Json) → Load Args
  | [] => .ok .nil
  | (key, value) :: rest =>
    if key = lit "args" then
      match value with
      | .list items => argItems items
      | _ => refuse (.notList (lit "Call") (lit "args"))
    else argsAt rest

/-- The statements in a member. -/
def stmtsAt : List (Text × Json) → Load (List Stmt)
  | [] => refuse (.missing (lit "Block") (lit "stmts"))
  | (key, value) :: rest =>
    if key = lit "stmts" then
      match value with
      | .list items => stmtItems items
      | _ => refuse (.notList (lit "Block") (lit "stmts"))
    else stmtsAt rest

def argItems : List Json → Load Args
  | [] => .ok .nil
  | item :: rest => do
    let first ← expr item
    .ok (.cons first (← argItems rest))

def stmtItems : List Json → Load (List Stmt)
  | [] => .ok []
  | item :: rest => do
    let first ← stmt item
    .ok (first :: (← stmtItems rest))

end

/-- Any piece of syntax, told apart by its kind. A value of no kind that has statements is a block. -/
def node : Json → Load Node
  | .object members => do
    let tag := kind members
    let bare := match tag with
      | .null => Table.contains members (lit "stmts")
      | _ => false
    if isWord tag "Block" || bare then
      .ok (.block (← block (.object members)))
    else if isWord tag "TermSemicolon" then
      .ok (.stmt (← stmt (.object members)))
    else
      match ← binder? tag with
      | some _ => .ok (.stmt (← stmt (.object members)))
      | none => .ok (.expr (← expr (.object members)))
  | value => refuse (.notNode value)

/-- The JSON value of a text, outside of any program. -/
def json (t : Text) : Load Json := (Json.read t).mapError .unreadable

/-- The program that a text holds. -/
def program (t : Text) : Load Program := do
  let value ←
    match Json.read t with
    | .ok value => .ok value
    | .error (.oversizedInteger digits) => .error (.unreadable (.oversizedInteger digits))
    | .error error => refuse (.malformed error)
  match ← node value with
  | .expr e => .ok (.expr e)
  | .block b => .ok (.block b)
  | .stmt _ => refuse .notProgram

/-! ## The room for loading -/

/-- What a value is loaded as. -/
inductive Place where
  | node
  | expr
  | stmt
  | block
  deriving DecidableEq

/-- Loads a value at a place. -/
def as (place : Place) (value : Json) : Load Node :=
  match place with
  | .node => node value
  | .expr => (expr value).map .expr
  | .stmt => (stmt value).map .stmt
  | .block => (block value).map .block

/-- The stack of a machine: what it complains of where a value at a place, or a text, nests too deep for
    the calls that loading it takes. How deep that is differs from machine to machine. -/
structure Stack where
  value? : Place → Json → Option Text
  text? : Text → Option Text

/-- A stack that holds all calls. -/
def Stack.unbounded : Stack := ⟨fun _ _ => none, fun _ => none⟩

/-- What loading a value at a place comes to on a machine. -/
def asOn (stack : Stack) (place : Place) (value : Json) : Load Node :=
  match stack.value? place value with
  | some complaint => .error (.exhausted complaint)
  | none => as place value

/-- What loading a program from a text comes to on a machine. -/
def programOn (stack : Stack) (t : Text) : Load Program :=
  match stack.text? t with
  | some complaint => .error (.exhausted complaint)
  | none => program t

end Load

end Lev
