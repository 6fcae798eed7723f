import Lev.Command.Path
import Lev.Text.Utf8

/-!
A disk of directories and files, and what becomes of a path on it: every part of a path but the last
must name a directory.
-/
namespace Lev

/-- Why a file cannot be read or written. -/
inductive FileError where
  | missing
  | notDirectory
  | isDirectory
  | nameTooLong
  | nulInPath
  deriving DecidableEq

/-- The kinds of file that a compilation writes. -/
inductive FileKind where
  | object
  | bitcode
  | text
  deriving DecidableEq

/-- A file to be written: a module, in one of three forms. Encoding the forms other than text is the
    work of the target's own tools. -/
structure Artifact where
  kind : FileKind
  text : Text
  deriving DecidableEq

/-- What a file holds. -/
inductive Content where
  | bytes (bytes : List UInt8)
  | artifact (artifact : Artifact)
  deriving DecidableEq

/-- The bytes of a file; of a module that was written they are those of its text. -/
def Content.raw : Content → List UInt8
  | .bytes given => given
  | .artifact written => Utf8.encode written.text

/-- The names of the directories around a place and its own, innermost first. -/
abbrev Location := List Text

/-- Directories, files and the directory that paths start from. -/
structure Disk where
  working : Location
  directories : List Location
  files : List (Location × Content)

namespace Disk

/-- The longest name of a file or directory, in bytes. -/
def longestName : Nat := 255

/-- The longest path, in bytes. -/
def longestPath : Nat := 4095

def isDirectory (disk : Disk) (place : Location) : Bool := place.isEmpty || disk.directories.contains place

/-- What the file at a place holds. -/
def content? (disk : Disk) (place : Location) : Option Content := disk.files.lookup place

/-- Why a place is no directory. -/
def noDirectory (disk : Disk) (place : Location) : FileError :=
  if (disk.content? place).isSome then .notDirectory else .missing

/-- The place that a name leads to from a directory. -/
def enter (here : Location) (name : Text) : Location :=
  if name.isEmpty || name = lit "." then here
  else if name = lit ".." then here.tail
  else name :: here

/-- Follows the parts of a path; each is looked for in a directory. -/
def walk (disk : Disk) (here : Location) : List Text → Except FileError Location
  | [] => .ok here
  | name :: rest =>
    if !disk.isDirectory here then .error (disk.noDirectory here)
    else if longestName < (Utf8.encode name).length then .error .nameTooLong
    else walk disk (enter here name) rest

/-- The place that a path starts from, or why it is no path. -/
def start (disk : Disk) (path : Text) : Except FileError Location :=
  if path.contains (.char '\x00') then .error .nulInPath
  else if path.isEmpty then .error .missing
  else if longestPath < (Utf8.encode path).length then .error .nameTooLong
  else .ok (if Path.isAbsolute path then [] else disk.working)

/-- The bytes of the file that a path names. -/
def read (disk : Disk) (path : Text) : Except FileError (List UInt8) := do
  let place ← disk.walk (← disk.start path) (Path.parts path)
  if disk.isDirectory place then .error .isDirectory
  else
    match disk.content? place with
    | some content => .ok content.raw
    | none => .error .missing

/-- Where a path can be written to. A path with a slash at its end names a directory, be it there or
    not. -/
def writable (disk : Disk) (path : Text) : Except FileError Location := do
  let here ← disk.start path
  let trimmed := (path.reverse.dropWhile (·.is '/')).reverse
  if trimmed.length < path.length then
    let around ← disk.walk here (Path.parts trimmed).dropLast
    .error (if disk.isDirectory around then .isDirectory else disk.noDirectory around)
  else
    let place ← disk.walk here (Path.parts path)
    if disk.isDirectory place then .error .isDirectory else .ok place

/-- The files with one of them written, in its old place if it had one. -/
def put (place : Location) (content : Content) : List (Location × Content) → List (Location × Content)
  | [] => [(place, content)]
  | (other, old) :: rest =>
    if other = place then (place, content) :: rest else (other, old) :: put place content rest

/-- The disk after a write. -/
def write (disk : Disk) (path : Text) (content : Content) : Except FileError Disk := do
  let place ← disk.writable path
  .ok { disk with files := put place content disk.files }

end Disk

end Lev
