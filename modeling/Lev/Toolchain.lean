import Lev.Error
import Lev.IR.Printer

/-!
The tools that take a module over: they check it, find the target of a triple and produce object code.
What they say is up to the machine that they run on, so a toolchain is handed to all that calls on one.
-/
namespace Lev

/-- The tools of a machine. Each does its work or has a complaint. -/
structure Toolchain where
  /-- The triple of the machine. -/
  host : Text
  encodable : Utf8.unencodable? host = none
  /-- Parses a module and verifies it. -/
  accept : Module → Except Text Unit
  /-- Looks for the target of a triple. -/
  lookup : Text → Except Text Unit
  /-- Sets up a machine for a triple that has a target, and gives the triple of that machine. -/
  machine : Text → Except Text Text
  /-- Produces the object code of a module for a machine. -/
  emit : Text → Module → Except Text Unit

namespace Toolchain

/-- Hands a module over; one whose text has no encoding cannot be. -/
def verify (tools : Toolchain) (module : Module) : Except Fault Unit :=
  match Utf8.unencodable? module.text with
  | some extent => .error (.unencodable extent)
  | none => (tools.accept module).mapError (.rejectedModule module.name)

/-- The triple of the machine that object code for a triple is produced for. -/
def target (tools : Toolchain) (triple : Text) : Except Fault Text :=
  match Utf8.unencodable? triple with
  | some extent => .error (.unencodable extent)
  | none => do
    (tools.lookup triple).mapError (.noTarget triple)
    (tools.machine triple).mapError .noMachine

/-! ## A stand-in -/

/-- The names of the x86 architecture. -/
def x86Names : List Text :=
  [lit "i386", lit "i486", lit "i586", lit "i686", lit "i786", lit "i886", lit "i986",
   lit "amd64", lit "x86_64", lit "x86_64h"]

/-- The architecture of a triple: what stands before its first dash. -/
def architecture (triple : Text) : Text := triple.untilNul.takeWhile fun c => !c.is '-'

/-- Stands in for the tools of an x86 machine. It takes every module whose blocks are closed, and
    produces code for its own architecture. -/
def x86 : Toolchain where
  host := lit "x86_64-unknown-linux-gnu"
  encodable := rfl
  accept module :=
    if module.isClosed then .ok () else .error (lit "a block does not end in its only terminator")
  lookup triple :=
    if x86Names.contains (architecture triple) then .ok ()
    else .error (lit "No available targets are compatible with triple \"" ++ triple.untilNul ++ lit "\"")
  machine triple := .ok triple
  emit _ _ := .ok ()

end Toolchain

end Lev
