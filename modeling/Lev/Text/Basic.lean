/-!
Text as a sequence of Unicode code points. A document can name one half of a surrogate pair through
an escape, and such a half survives in names and messages, so text is wider than `String`.
-/
namespace Lev

/-- A Unicode code point: a character, or a surrogate that stands alone. -/
inductive CodePoint where
  | char (c : Char)
  | surrogate (offset : Fin 2048)
  deriving DecidableEq

namespace CodePoint

/-- The number of a code point. -/
def code : CodePoint → Nat
  | .char c => c.toNat
  | .surrogate offset => 0xD800 + offset.val

/-- The code point of a number; numbers past the last code point give the replacement character. -/
def ofCode (n : Nat) : CodePoint :=
  if surrogate : 0xD800 ≤ n ∧ n < 0xE000 then .surrogate ⟨n - 0xD800, by omega⟩
  else if n < 0x110000 then .char (Char.ofNat n)
  else .char (Char.ofNat 0xFFFD)

/-- Whether the code point is the given character. -/
def is (point : CodePoint) (c : Char) : Bool := point = .char c

/-- Whether the code point can be written in UTF-8: every character can, no surrogate can. -/
def isEncodable : CodePoint → Bool
  | .char _ => true
  | .surrogate _ => false

end CodePoint

/-- Text is a list of code points. -/
abbrev Text := List CodePoint

/-- The text of a literal. -/
def lit (s : String) : Text := s.toList.map .char

namespace Text

/-- Text repeated: `n` blanks. -/
def blanks (n : Nat) : Text := List.replicate n (.char ' ')

/-- A natural number in decimal. -/
def ofNat (n : Nat) : Text := (Nat.toDigits 10 n).map .char

/-- An integer in decimal, with a minus sign below zero. -/
def ofInt : Int → Text
  | .ofNat n => ofNat n
  | .negSucc n => .char '-' :: ofNat (n + 1)

/-- The digit of a number below sixteen, in lower case. -/
def hexDigit (n : Nat) : CodePoint := .char (Nat.digitChar n)

/-- The last `width` hexadecimal digits of a number. -/
def hex : (width : Nat) → Nat → Text
  | 0, _ => []
  | width + 1, n => hex width (n / 16) ++ [hexDigit (n % 16)]

/-- The parts with a separator between neighbours. -/
def join (separator : Text) : List Text → Text
  | [] => []
  | [part] => part
  | part :: rest => part ++ separator ++ join separator rest

/-- The pieces between the occurrences of a code point; there is one more than there are occurrences. -/
def splitOn (mark : CodePoint) : Text → List Text
  | [] => [[]]
  | c :: rest =>
    match splitOn mark rest with
    | [] => [[c]]
    | piece :: pieces => if c = mark then [] :: piece :: pieces else (c :: piece) :: pieces

/-- The lines of a text: its pieces between line feeds. -/
def lines (t : Text) : List Text := splitOn (.char '\n') t

/-- The order of texts by their code points. -/
def compare : Text → Text → Ordering
  | [], [] => .eq
  | [], _ :: _ => .lt
  | _ :: _, [] => .gt
  | a :: s, b :: t => (Ord.compare a.code b.code).then (compare s t)

/-- Whether one text begins with another. -/
def startsWith (t start : Text) : Bool := start.isPrefixOf t

/-- The part before the first occurrence of a code point and the part after it. -/
def cut? (mark : CodePoint) : Text → Option (Text × Text)
  | [] => none
  | c :: rest =>
    if c = mark then some ([], rest) else (cut? mark rest).map fun (before, after) => (c :: before, after)

/-- The text up to its first NUL, which is all that the target's tools see of it. -/
def untilNul (t : Text) : Text := t.takeWhile fun c => !c.is '\x00'

/-- Inserts a name into an increasing list of distinct names. -/
def insertSorted (name : Text) : List Text → List Text
  | [] => [name]
  | first :: rest =>
    match compare name first with
    | .lt => name :: first :: rest
    | .eq => first :: rest
    | .gt => first :: insertSorted name rest

/-- The distinct names of a list in increasing order. -/
def sortDistinct (names : List Text) : List Text := names.foldr insertSorted []

end Text

end Lev
