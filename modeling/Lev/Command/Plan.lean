import Lev.Command.Disk

/-!
Plans: what a command does to the world outside it, as a tree. A plan prints to one of two channels,
reads a file and goes on with what it held, or writes a file and goes on knowing whether that worked.
Running a plan on a disk gives all it does without doing it.
-/
namespace Lev

inductive Plan (α : Type) where
  | done (result : α)
  | print (text : Text) (next : Plan α)
  | warn (text : Text) (next : Plan α)
  | read (path : Text) (next : Except FileError (List UInt8) → Plan α)
  | write (path : Text) (content : Content) (next : Except FileError Unit → Plan α)

namespace Plan
variable {α β : Type}

/-- Goes on with the result of a plan. -/
def bind : Plan α → (α → Plan β) → Plan β
  | .done result, f => f result
  | .print text next, f => .print text (next.bind f)
  | .warn text next, f => .warn text (next.bind f)
  | .read path next, f => .read path fun found => (next found).bind f
  | .write path content next, f => .write path content fun outcome => (next outcome).bind f

instance : Monad Plan where
  pure := Plan.done
  bind := Plan.bind

/-- What a run leaves: the result, the texts on the two channels and the disk. -/
structure Trace (α : Type) where
  result : α
  out : Text
  err : Text
  disk : Disk

/-- Runs a plan on a disk. -/
def run : Plan α → Disk → Trace α
  | .done result, disk => ⟨result, [], [], disk⟩
  | .print text next, disk =>
    let trace := next.run disk
    { trace with out := text ++ trace.out }
  | .warn text next, disk =>
    let trace := next.run disk
    { trace with err := text ++ trace.err }
  | .read path next, disk => (next (disk.read path)).run disk
  | .write path content next, disk =>
    match disk.write path content with
    | .ok after => (next (.ok ())).run after
    | .error error => (next (.error error)).run disk

end Plan

end Lev
