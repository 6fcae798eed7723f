import Lev.IR.Basic

/-!
What has been shown of a function. An instruction is shown once and for all: edges that a phi gets
after it was first shown stay out of sight.
-/
namespace Lev

/-- The number of edges that each phi had when it was first shown. -/
abbrev Shown := Table Nat

namespace Shown

/-- Notes that an instruction is shown. -/
def note (shown : Shown) : Instr → Shown
  | .phi result _ incoming =>
    if shown.contains result then shown else shown.set result incoming.length
  | _ => shown

/-- Notes that a function is shown. -/
def noteAll (shown : Shown) (fn : Function) : Shown :=
  (fn.blocks.flatMap BasicBlock.instrs).foldl note shown

/-- An instruction as it was first shown. -/
def restrict (shown : Shown) : Instr → Instr
  | .phi result type incoming =>
    match shown.get? result with
    | some count => .phi result type (incoming.take count)
    | none => .phi result type incoming
  | instr => instr

/-- A function with every instruction as it was first shown. -/
def view (shown : Shown) (fn : Function) : Function :=
  { fn with
    blocks := fn.blocks.map fun block => { block with instrs := block.instrs.map shown.restrict } }

end Shown

end Lev
