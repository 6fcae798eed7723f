import Lev.Attempt
import Lev.Environment
import Lev.Identifier

/-!
The function that is being filled: its blocks and names, its cells, the block at whose end instructions
are added, the merge points of finished loops and the log. Every instruction takes a name when it is
made, also those that show none, and also if it then has no place.
-/
namespace Lev

/-- A loop header's phi for a variable, whose edge from the latch may still be missing. -/
structure MergePoint where
  name : Text
  phi : Text
  type : Ty
  levity : Levity
  preheader : Text
  latch : Option Text
  deriving DecidableEq

/-- The value of the phi. -/
def MergePoint.value (point : MergePoint) : Value := .reg point.phi point.type

/-- Whether the latch edge is missing. -/
def MergePoint.isOpen (point : MergePoint) : Bool := point.latch.isNone

/-- A function that is being filled. -/
structure Frame where
  function : Function
  arena : Arena
  block : Text
  points : List MergePoint
  log : List Text

/-- Filling a function. -/
abbrev Build := Attempt Frame

namespace Build

/-- Takes a name of the function. -/
def register (base : Text) : Build Text := Attempt.update fun frame =>
  let (name, function) := frame.function.register base
  (name, { frame with function })

/-- Adds an instruction at the end of the current block. -/
def emit (instr : Instr) : Build Unit := Attempt.modify fun frame =>
  { frame with function := frame.function.append frame.block instr }

/-- Adds an instruction that shows no name. -/
def emitUnnamed (instr : Instr) : Build Unit := do
  let _ ← register []
  emit instr

/-- Adds an instruction that yields an integer under a name. -/
def emitNamed (base : Text) (instr : Text → Instr) : Build Value := do
  let result ← register base
  emit (instr result)
  pure (.reg result .i32)

/-- Ends the current block, unless it has its end. -/
def terminate (instr : Instr) : Build Unit := do
  let _ ← register []
  if ← Attempt.read fun frame => frame.function.isTerminated frame.block then Attempt.fail .terminated
  else emit instr

/-- Adds an empty block. -/
def addBlock (base : Text) : Build Text := Attempt.update fun frame =>
  let (label, function) := frame.function.addBlock base
  (label, { frame with function })

/-- The block at whose end instructions are added. -/
def currentBlock : Build Text := Attempt.read Frame.block

/-- Goes on at the end of a block. -/
def moveTo (label : Text) : Build Unit := Attempt.modify fun frame => { frame with block := label }

/-- Allocates a cell. -/
def allocate (name : Text) : Build Cell := Attempt.update fun frame =>
  let (cell, arena, function) := frame.arena.allocate frame.function name
  (cell, { frame with arena, function })

/-- Ends the block that holds the cells with a branch. -/
def closeArena (target : Text) : Build Unit := do
  let _ ← register []
  if ← Attempt.read fun frame => frame.function.isTerminated frame.arena.cursor.block then
    Attempt.fail .terminated
  else
    Attempt.modify fun frame =>
      let (function, cursor) := frame.function.insert frame.arena.cursor (.br target)
      { frame with function, arena := { frame.arena with cursor } }

/-- Writes a line of the log. -/
def note (line : Text) : Build Unit := Attempt.modify fun frame => { frame with log := frame.log ++ [line] }

/-- Requires a name that the target can carry. -/
def identifier (name : Text) : Build Text :=
  match Identifier.error? name with
  | some error => Attempt.reject error
  | none => pure name

end Build

end Lev
