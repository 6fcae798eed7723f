import Lev.IR.Basic

/-!
The text of modules. Names are enclosed in quotes, within which a backslash is written `\5c` and a
quote `\22`; a label at the head of a block needs no quotes if it is a plain word.
-/
namespace Lev

def Ty.text : Ty → Text
  | .i1 => lit "i1"
  | .i32 => lit "i32"
  | .pointer => lit "i32*"

/-- A name inside quotes. -/
def escapeName (name : Text) : Text :=
  name.flatMap fun c => if c.is '\\' then lit "\\5c" else if c.is '"' then lit "\\22" else [c]

/-- A reference to something local to a function. -/
def localRef (name : Text) : Text := lit "%\"" ++ escapeName name ++ lit "\""

/-- A reference to a function. -/
def globalRef (name : Text) : Text := lit "@\"" ++ escapeName name ++ lit "\""

/-- A value where its type is known. -/
def Value.ref : Value → Text
  | .const n => Text.ofInt n
  | .reg name _ => localRef name

/-- A value with its type. -/
def Value.text (value : Value) : Text := value.type.text ++ lit " " ++ value.ref

def Operator.mnemonic : Operator → Text
  | .add => lit "add"
  | .sub => lit "sub"
  | .mul => lit "mul"
  | .div => lit "sdiv"

namespace Instr

/-- An edge of a phi. -/
def edgeText (edge : Value × Text) : Text :=
  lit "[" ++ edge.1.ref ++ lit ", " ++ localRef edge.2 ++ lit "]"

def text : Instr → Text
  | .alloca result => localRef result ++ lit " = alloca i32"
  | .store value address => lit "store " ++ value.text ++ lit ", " ++ address.text
  | .load result address => localRef result ++ lit " = load i32, " ++ address.text
  | .arith result op left right =>
    localRef result ++ lit " = " ++ op.mnemonic ++ lit " " ++ left.text ++ lit ", " ++ right.ref
  | .call result callee args =>
    localRef result ++ lit " = call i32 " ++ globalRef callee ++ lit "(" ++
      Text.join (lit ", ") (args.map Value.text) ++ lit ")"
  | .isZero result value => localRef result ++ lit " = icmp eq " ++ value.text ++ lit ", 0"
  | .phi result type incoming =>
    localRef result ++ lit " = phi  " ++ type.text ++ lit " " ++
      Text.join (lit ", ") (incoming.map edgeText)
  | .br target => lit "br label " ++ localRef target
  | .condBr cond yes no =>
    lit "br " ++ cond.text ++ lit ", label " ++ localRef yes ++ lit ", label " ++ localRef no
  | .ret value => lit "ret " ++ value.text

end Instr

/-- Whether a code point can stand in a plain word: an ASCII letter, `-`, `$`, `.` or `_`. -/
def CodePoint.isPlain : CodePoint → Bool
  | .char c => c.isAlpha || c = '-' || c = '$' || c = '.' || c = '_'
  | .surrogate _ => false

/-- Whether a code point can stand in a plain word after its first: digits too. -/
def CodePoint.isPlainOrDigit : CodePoint → Bool
  | .char c => (CodePoint.char c).isPlain || c.isDigit
  | .surrogate _ => false

/-- Whether a label is a plain word. A line feed at its end does not count. -/
def isPlainLabel (label : Text) : Bool :=
  match if label.getLast? = some (.char '\n') then label.dropLast else label with
  | [] => false
  | first :: rest => first.isPlain && rest.all CodePoint.isPlainOrDigit

/-- A label at the head of its block. -/
def labelText (label : Text) : Text :=
  if isPlainLabel label then label else lit "\"" ++ escapeName label ++ lit "\""

def BasicBlock.text (block : BasicBlock) : Text :=
  labelText block.label ++ lit ":\n" ++ block.instrs.flatMap fun instr => lit "  " ++ instr.text ++ lit "\n"

namespace Function

/-- The type, name and parameters of a function. -/
def head (fn : Function) : Text :=
  lit "i32 " ++ globalRef fn.name ++ lit "(" ++
    Text.join (lit ", ") (fn.params.map fun param => (Value.reg param .i32).text) ++ lit ")"

def text (fn : Function) : Text :=
  if fn.isDeclaration then lit "declare " ++ fn.head ++ lit "\n"
  else
    lit "define " ++ fn.head ++ lit "\n\x7b\n" ++ fn.blocks.flatMap BasicBlock.text ++ lit "\x7d\n"

end Function

def Module.text (module : Module) : Text :=
  let header :=
    [lit "; ModuleID = \"" ++ module.name ++ lit "\"",
     lit "target triple = \"" ++ module.triple ++ lit "\"",
     lit "target datalayout = \"\"",
     []]
  Text.join (lit "\n") (header ++ module.functions.map Function.text)

end Lev
