import Lev.IR.NameScope
import Lev.Syntax.Basic

/-!
The target: modules of functions whose blocks hold instructions on 32-bit integers and on pointers to
cells that hold one.
-/
namespace Lev

/-- The types of the target. -/
inductive Ty where
  | i1
  | i32
  | pointer
  deriving DecidableEq

/-- A constant, or the result of the instruction of a name. -/
inductive Value where
  | const (n : Int)
  | reg (name : Text) (type : Ty)
  deriving DecidableEq

/-- An instruction. Those that yield a value carry its name. -/
inductive Instr where
  | alloca (result : Text)
  | store (value address : Value)
  | load (result : Text) (address : Value)
  | arith (result : Text) (op : Operator) (left right : Value)
  | call (result callee : Text) (args : List Value)
  | isZero (result : Text) (value : Value)
  | phi (result : Text) (type : Ty) (incoming : List (Value × Text))
  | br (target : Text)
  | condBr (cond : Value) (yes no : Text)
  | ret (value : Value)
  deriving DecidableEq

/-- A block of instructions. -/
structure BasicBlock where
  label : Text
  instrs : List Instr

/-- A function: a declaration while it has no blocks. -/
structure Function where
  name : Text
  params : List Text
  names : NameScope
  blocks : List BasicBlock

/-- A module. -/
structure Module where
  name : Text
  triple : Text
  functions : List Function

/-- A place between the instructions of a block. -/
structure Cursor where
  block : Text
  offset : Nat
  deriving DecidableEq

def Value.type : Value → Ty
  | .const _ => .i32
  | .reg _ type => type

/-- The types that a constant can be given: integers of a width, and floating-point numbers. -/
inductive ConstantType where
  | integer (bits : Nat)
  | double

/-- A constant as it is made: its type and what it was given to hold. An undefined one holds nothing. -/
structure Constant where
  type : ConstantType
  held : Option Json

namespace Constant

/-- The constant of a type that holds a value; where none is given it holds zero. -/
def make (type : ConstantType) : Json → Constant
  | .null => ⟨type, some (.int 0)⟩
  | value => ⟨type, some value⟩

/-- A constant of the width of Lev integers. -/
def word (n : Int) : Constant := make (.integer 32) (.int n)

/-- The integer a constant is known to hold: its type is one of integers, and so is its value. -/
def known? (constant : Constant) : Option Int :=
  match constant.type, constant.held with
  | .integer _, some (.int n) => some n
  | .integer _, some (.bool b) => some (if b then 1 else 0)
  | _, _ => none

end Constant

/-- The integer a value is known to hold. -/
def Value.known? : Value → Option Int
  | .const n => (Constant.word n).known?
  | .reg _ _ => none

namespace Instr

/-- Whether the instruction ends its block. -/
def isTerminator : Instr → Bool
  | .br _ => true
  | .condBr _ _ _ => true
  | .ret _ => true
  | _ => false

/-- The name of the value that the instruction yields. -/
def result? : Instr → Option Text
  | .alloca result => some result
  | .load result _ => some result
  | .arith result _ _ _ => some result
  | .call result _ _ => some result
  | .isZero result _ => some result
  | .phi result _ _ => some result
  | _ => none

/-- The instruction with one more edge, if it is the phi of a name. -/
def addIncoming (phi : Text) (edge : Value × Text) : Instr → Instr
  | .phi result type incoming =>
    .phi result type (if result = phi then incoming ++ [edge] else incoming)
  | instr => instr

end Instr

namespace BasicBlock

/-- Whether the block has its end. -/
def isTerminated (block : BasicBlock) : Bool := block.instrs.any Instr.isTerminator

/-- Whether the only terminator of the block is its last instruction. -/
def isClosed (block : BasicBlock) : Bool :=
  match block.instrs.reverse with
  | [] => false
  | last :: rest => last.isTerminator && rest.all fun instr => !instr.isTerminator

end BasicBlock

namespace Function

/-- Hands out a name of the function. -/
def register (fn : Function) (base : Text) : Text × Function :=
  let (name, names) := fn.names.register base
  (name, { fn with names })

/-- Names for `count` parameters. -/
def registerParams : (count : Nat) → NameScope → List Text × NameScope
  | 0, names => ([], names)
  | count + 1, names =>
    let (name, names) := names.register []
    let (rest, names) := registerParams count names
    (name :: rest, names)

/-- A function without blocks. Its parameters and its result take names of their own. -/
def declare (name : Text) (arity : Nat) : Function :=
  let (params, names) := registerParams arity .empty
  let (_, names) := names.register []
  { name, params, names, blocks := [] }

/-- Whether the function is only declared. -/
def isDeclaration (fn : Function) : Bool := fn.blocks.isEmpty

/-- Adds an empty block and gives its label. -/
def addBlock (fn : Function) (base : Text) : Text × Function :=
  let (label, fn) := fn.register base
  (label, { fn with blocks := fn.blocks ++ [⟨label, []⟩] })

/-- Changes the instructions of one block. -/
def updateBlock (fn : Function) (label : Text) (change : List Instr → List Instr) : Function :=
  { fn with
    blocks := fn.blocks.map fun block =>
      if block.label = label then { block with instrs := change block.instrs } else block }

/-- Adds an instruction at the end of a block. -/
def append (fn : Function) (label : Text) (instr : Instr) : Function :=
  fn.updateBlock label (· ++ [instr])

/-- Adds an instruction at a cursor and moves the cursor past it. -/
def insert (fn : Function) (cursor : Cursor) (instr : Instr) : Function × Cursor :=
  (fn.updateBlock cursor.block fun instrs =>
      instrs.take cursor.offset ++ instr :: instrs.drop cursor.offset,
    { cursor with offset := cursor.offset + 1 })

/-- Whether the block of a label has its end. -/
def isTerminated (fn : Function) (label : Text) : Bool :=
  fn.blocks.any fun block => block.label = label && block.isTerminated

/-- Adds an edge to a phi. -/
def addIncoming (fn : Function) (phi : Text) (edge : Value × Text) : Function :=
  { fn with
    blocks := fn.blocks.map fun block =>
      { block with instrs := block.instrs.map (Instr.addIncoming phi edge) } }

/-- The edges of a phi. -/
def incoming (fn : Function) (phi : Text) : List (Value × Text) :=
  fn.blocks.flatMap fun block => block.instrs.flatMap fun
    | .phi result _ incoming => if result = phi then incoming else []
    | _ => []

end Function

/-- Whether every block of every function ends in its only terminator. -/
def Module.isClosed (module : Module) : Bool :=
  module.functions.all fun fn => fn.blocks.all BasicBlock.isClosed

end Lev
