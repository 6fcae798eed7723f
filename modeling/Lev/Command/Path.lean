import Lev.Text.Basic

/-!
Paths: names of directories and at last of a file, with slashes between them. The extension of a file
name begins at its last dot, but dots at the head of the name begin none.
-/
namespace Lev.Path

/-- The name behind the last slash. -/
def fileName (path : Text) : Text := (path.reverse.takeWhile fun c => !c.is '/').reverse

/-- The path up to its last slash, the slash included. -/
def directory (path : Text) : Text := (path.reverse.dropWhile fun c => !c.is '/').reverse

/-- A file name without its extension. -/
def stem (name : Text) : Text :=
  let body := name.dropWhile (·.is '.')
  match body.reverse.dropWhile fun c => !c.is '.' with
  | [] => name
  | _ :: before => name.takeWhile (·.is '.') ++ before.reverse

/-- The path with another extension in the place of its own. -/
def withExtension (path extension : Text) : Text := directory path ++ stem (fileName path) ++ extension

/-- The parts of a path between its slashes. -/
def parts (path : Text) : List Text := path.splitOn (.char '/')

/-- Whether the path starts at the root of all directories. -/
def isAbsolute (path : Text) : Bool := path.startsWith (lit "/")

end Lev.Path
