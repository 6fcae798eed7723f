import Lev.Command.Compile

/-!
The command line: carries out the plan of the command on the files of this machine. The tools of the
target are not at hand here, so that a stand-in is given in their place.
-/
namespace Lev

/-- The bytes of a text. -/
def Text.toBytes (t : Text) : ByteArray := ⟨(Utf8.encode t).toArray⟩

/-- The cause that the operating system's number of a failure stands for. Some calls give the number
    negated. -/
def FileError.ofNumber (number : UInt32) : Option FileError :=
  let code := number.toNat
  match if code < 0x80000000 then code else 0x100000000 - code with
  | 2 => some .missing
  | 20 => some .notDirectory
  | 21 => some .isDirectory
  | 36 => some .nameTooLong
  | _ => none

/-- The cause of a failure that the operating system reports. -/
def FileError.ofSystem : IO.Error → Option FileError
  | .noFileOrDirectory _ number _ => ofNumber number
  | .inappropriateType _ number _ => ofNumber number
  | .invalidArgument _ number _ => ofNumber number
  | _ => none

/-- Tries to use a file; a failure of no known cause is not caught. -/
def attempt {α : Type} (action : IO α) : IO (Except FileError α) := do
  try
    return .ok (← action)
  catch error =>
    match FileError.ofSystem error with
    | some cause => return .error cause
    | none => throw error

/-- The characters of a text. -/
def Text.characters (t : Text) : String :=
  String.ofList (t.filterMap fun
    | .char c => some c
    | .surrogate _ => none)

/-- Carries out a plan. -/
def Plan.perform {α : Type} : Plan α → IO α
  | .done result => pure result
  | .print text next => do
    (← IO.getStdout).write text.toBytes
    next.perform
  | .warn text next => do
    (← IO.getStderr).write text.toBytes
    next.perform
  | .read path next => do
    let content ← attempt (IO.FS.readBinFile path.characters)
    (next (content.map ByteArray.toList)).perform
  | .write path content next => do
    let outcome ← attempt (IO.FS.writeBinFile path.characters ⟨content.raw.toArray⟩)
    (next outcome).perform

end Lev

def main (arguments : List String) : IO UInt32 := do
  let status ← (Lev.Command.plan .unbounded .x86 (arguments.map Lev.lit)).perform
  return status.toUInt32
