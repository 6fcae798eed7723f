import Lev.Json.Basic
import Lev.Text.Quoted

/-!
Documents: the shown form of syntax trees and JSON values. `Doc.flat` shows a document on one line,
as messages quote it; `Doc.layout` breaks what does not fit into eighty columns over several lines,
each part under the place where it begins.
-/
namespace Lev

/-- What is shown: a word that is never broken, a quoted text, a list, a table of quoted names, or a
    named record of fields. -/
inductive Doc where
  | atom (shown : Text)
  | text (value : Text)
  | list (items : List Doc)
  | table (entries : List (Text × Doc))
  | record (name : Text) (fields : List (Text × Doc))

namespace Doc

mutual

/-- The document on one line. -/
def flat : Doc → Text
  | .atom shown => shown
  | .text value => value.quoted
  | .list items => lit "[" ++ Text.join (lit ", ") (flatItems items) ++ lit "]"
  | .table entries => lit "\x7b" ++ Text.join (lit ", ") (flatEntries entries) ++ lit "\x7d"
  | .record name fields => name ++ lit "(" ++ Text.join (lit ", ") (flatFields fields) ++ lit ")"

def flatItems : List Doc → List Text
  | [] => []
  | item :: rest => flat item :: flatItems rest

def flatEntries : List (Text × Doc) → List Text
  | [] => []
  | (name, value) :: rest => (name.quoted ++ lit ": " ++ flat value) :: flatEntries rest

def flatFields : List (Text × Doc) → List Text
  | [] => []
  | (name, value) :: rest => (name ++ lit "=" ++ flat value) :: flatFields rest

end

/-- Sets an entry into a list of entries that increases by name. -/
def insertEntry (name : Text) (value : Doc) : List (Text × Doc) → List (Text × Doc)
  | [] => [(name, value)]
  | (first, old) :: rest =>
    match Text.compare name first with
    | .gt => (first, old) :: insertEntry name value rest
    | _ => (name, value) :: (first, old) :: rest

mutual

/-- The document with the entries of every table in the order of their names. -/
def sorted : Doc → Doc
  | .atom shown => .atom shown
  | .text value => .text value
  | .list items => .list (sortedItems items)
  | .table entries => .table (sortedEntries entries)
  | .record name fields => .record name (sortedFields fields)

def sortedItems : List Doc → List Doc
  | [] => []
  | item :: rest => sorted item :: sortedItems rest

def sortedEntries : List (Text × Doc) → List (Text × Doc)
  | [] => []
  | (name, value) :: rest => insertEntry name (sorted value) (sortedEntries rest)

def sortedFields : List (Text × Doc) → List (Text × Doc)
  | [] => []
  | (name, value) :: rest => (name, sorted value) :: sortedFields rest

end

/-! ## Long texts -/

/-- The lines of a text, each with its line end. -/
def linesWithEnds : Text → List Text
  | [] => []
  | c :: rest =>
    match linesWithEnds rest with
    | [] => [[c]]
    | line :: more =>
      let joins := c.is '\r' && (line.head?.map (·.is '\n')).getD false
      if c.endsLine && !joins then [c] :: line :: more else (c :: line) :: more

/-- A text cut after every run of blanks. -/
def wordsWithBlanks : Text → List Text
  | [] => []
  | c :: rest =>
    match wordsWithBlanks rest with
    | [] => [[c]]
    | word :: more =>
      if c.isSpace && !(word.head?.map (·.isSpace)).getD false then [c] :: word :: more
      else (c :: word) :: more

/-- The columns of a line. -/
def width : Nat := 80

/-- Joins words while their quoted form fits; `reserve` columns stay free after the last one. -/
def fillWords (indent reserve : Nat) (current : Text) : List Text → List Text
  | [] => if current.isEmpty then [] else [current.quoted]
  | word :: rest =>
    let free := if rest.isEmpty then reserve else 0
    let candidate := current ++ word
    if candidate.quoted.length + indent + free ≤ width then fillWords indent reserve candidate rest
    else if current.isEmpty then fillWords indent reserve word rest
    else current.quoted :: fillWords indent reserve word rest

/-- The quoted pieces of the lines of a text. -/
def textPieces (indent allowance : Nat) : List Text → List Text
  | [] => []
  | line :: rest =>
    let free := if rest.isEmpty then allowance else 0
    let pieces :=
      if line.quoted.length + indent + free ≤ width then [line.quoted]
      else fillWords indent free [] (wordsWithBlanks line)
    pieces ++ textPieces indent allowance rest

/-- A text over several lines. A text that stands alone is put in parentheses if it is cut. -/
def brokenText (alone : Bool) (indent allowance : Nat) (value : Text) : Text :=
  let indent := if alone then indent + 1 else indent
  let allowance := if alone then allowance + 1 else allowance
  match textPieces indent allowance (linesWithEnds value) with
  | [] => value.quoted
  | [piece] => piece
  | pieces =>
    let body := Text.join (lit "\n" ++ Text.blanks indent) pieces
    if alone then lit "(" ++ body ++ lit ")" else body

/-! ## Layout -/

/-- Whether a document fits between its indentation and the columns reserved after it. -/
def fits (doc : Doc) (indent allowance : Nat) : Bool :=
  decide (doc.flat.length + indent + allowance ≤ width)

mutual

/-- The document from a column on, with `allowance` columns reserved after its last line. -/
def layoutAt : Doc → (alone : Bool) → (indent allowance : Nat) → Text
  | .atom shown, _, _, _ => shown
  | .text value, alone, indent, allowance =>
    if fits (.text value) indent allowance then value.quoted else brokenText alone indent allowance value
  | .list items, _, indent, allowance =>
    if fits (.list items) indent allowance then flat (.list items)
    else lit "[" ++ layoutItems items (indent + 1) (allowance + 1) ++ lit "]"
  | .table entries, _, indent, allowance =>
    if fits (.table entries) indent allowance then flat (.table entries)
    else lit "\x7b" ++ layoutEntries entries (indent + 1) (allowance + 1) ++ lit "\x7d"
  | .record name fields, _, indent, allowance =>
    if fits (.record name fields) indent allowance then flat (.record name fields)
    else name ++ lit "(" ++ layoutFields fields (indent + name.length + 1) allowance ++ lit ")"

def layoutItems : List Doc → (indent allowance : Nat) → Text
  | [], _, _ => []
  | item :: rest, indent, allowance =>
    if rest.isEmpty then layoutAt item false indent allowance
    else
      layoutAt item false indent 1 ++ lit ",\n" ++ Text.blanks indent ++ layoutItems rest indent allowance

def layoutEntries : List (Text × Doc) → (indent allowance : Nat) → Text
  | [], _, _ => []
  | (name, value) :: rest, indent, allowance =>
    let head := name.quoted ++ lit ": "
    if rest.isEmpty then head ++ layoutAt value false (indent + head.length) allowance
    else
      head ++ layoutAt value false (indent + head.length) 1 ++ lit ",\n" ++ Text.blanks indent ++
        layoutEntries rest indent allowance

def layoutFields : List (Text × Doc) → (indent allowance : Nat) → Text
  | [], _, _ => []
  | (name, value) :: rest, indent, allowance =>
    let head := name ++ lit "="
    if rest.isEmpty then head ++ layoutAt value false (indent + head.length) allowance
    else
      head ++ layoutAt value false (indent + head.length) 1 ++ lit ",\n" ++ Text.blanks indent ++
        layoutFields rest indent allowance

end

/-- The document in eighty columns. -/
def layout (doc : Doc) : Text := layoutAt doc.sorted true 0 0

end Doc

mutual

/-- The document of a JSON value. -/
def Json.doc : Json → Doc
  | .null => .atom (lit "None")
  | .bool value => .atom (if value then lit "True" else lit "False")
  | .int value => .atom (Text.ofInt value)
  | .float value => .atom value.text
  | .text value => .text value
  | .list items => .list (Json.itemDocs items)
  | .object members => .table (Json.memberDocs members)

def Json.itemDocs : List Json → List Doc
  | [] => []
  | item :: rest => item.doc :: Json.itemDocs rest

def Json.memberDocs : List (Text × Json) → List (Text × Doc)
  | [] => []
  | (name, value) :: rest => (name, value.doc) :: Json.memberDocs rest

end

/-- A JSON value as messages show it. -/
def Json.shown (value : Json) : Text := value.doc.flat

end Lev
