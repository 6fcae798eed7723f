import Lev.Json.Basic

/-!
Reading a JSON document. The reader accepts the grammar of JSON together with `NaN`, `Infinity` and
`-Infinity`, refuses integers of more than 4300 digits, and reports the first fault with its place.
A name given twice in an object keeps its first place and its last value.
-/
namespace Lev.Json

/-- What is wrong at a place of a document. -/
inductive Problem where
  | expectingValue
  | expectingName
  | expectingColon
  | expectingComma
  | unterminated
  | controlCharacter
  | badEscape
  | badUnicodeEscape
  | extraData
  | byteOrderMark
  deriving DecidableEq

/-- Why a document is not read. -/
inductive ReadError where
  | malformed (problem : Problem) (line column offset : Nat)
  | oversizedInteger (digits : Nat)
  deriving DecidableEq

def Problem.message : Problem → Text
  | .expectingValue => lit "Expecting value"
  | .expectingName => lit "Expecting property name enclosed in double quotes"
  | .expectingColon => lit "Expecting ':' delimiter"
  | .expectingComma => lit "Expecting ',' delimiter"
  | .unterminated => lit "Unterminated string starting at"
  | .controlCharacter => lit "Invalid control character at"
  | .badEscape => lit "Invalid \\escape"
  | .badUnicodeEscape => lit "Invalid \\uXXXX escape"
  | .extraData => lit "Extra data"
  | .byteOrderMark => lit "Unexpected UTF-8 BOM (decode using utf-8-sig)"

def ReadError.message : ReadError → Text
  | .malformed problem line column offset =>
    problem.message ++ lit ": line " ++ Text.ofNat line ++ lit " column " ++ Text.ofNat column ++
      lit " (char " ++ Text.ofNat offset ++ lit ")"
  | .oversizedInteger digits =>
    lit "Exceeds the limit (4300 digits) for integer string conversion: value has " ++ Text.ofNat digits ++
      lit " digits; use sys.set_int_max_str_digits() to increase the limit"

namespace Reader

/-- A fault with its offset, before the line is known. -/
inductive Stop where
  | at (problem : Problem) (offset : Nat)
  | oversizedInteger (digits : Nat)

/-- What was read, the offset after it and the text from there on. -/
structure Read (α : Type) where
  value : α
  offset : Nat
  rest : Text

/-- Whether a code point may stand between tokens. -/
def isBlank (c : CodePoint) : Bool := c.is ' ' || c.is '\t' || c.is '\n' || c.is '\r'

/-- Passes over blanks. -/
def skipBlanks (offset : Nat) : Text → Nat × Text
  | [] => (offset, [])
  | c :: rest => if isBlank c then skipBlanks (offset + 1) rest else (offset, c :: rest)

/-- The value of a decimal digit. -/
def digit? : CodePoint → Option Nat
  | .char c => if c.isDigit then some (c.toNat - '0'.toNat) else none
  | .surrogate _ => none

/-- The value of a hexadecimal digit. -/
def hexDigit? : CodePoint → Option Nat
  | .char c =>
    if c.isDigit then some (c.toNat - '0'.toNat)
    else if 'a' ≤ c ∧ c ≤ 'f' then some (c.toNat - 'a'.toNat + 10)
    else if 'A' ≤ c ∧ c ≤ 'F' then some (c.toNat - 'A'.toNat + 10)
    else none
  | .surrogate _ => none

/-! ## Strings -/

/-- The number of four hexadecimal digits after which the text goes on. -/
def fourDigits? : Text → Option (Nat × Text)
  | a :: b :: c :: d :: next :: rest => do
    let a ← hexDigit? a
    let b ← hexDigit? b
    let c ← hexDigit? c
    let d ← hexDigit? d
    some (((a * 16 + b) * 16 + c) * 16 + d, next :: rest)
  | _ => none

/-- What an escape of one letter stands for. -/
def escaped? (c : CodePoint) : Option CodePoint :=
  if c.is '"' || c.is '\\' || c.is '/' then some c
  else if c.is 'b' then some (CodePoint.ofCode 8)
  else if c.is 'f' then some (CodePoint.ofCode 12)
  else if c.is 'n' then some (.char '\n')
  else if c.is 'r' then some (.char '\r')
  else if c.is 't' then some (.char '\t')
  else none

def isHighSurrogate (n : Nat) : Bool := decide (0xD800 ≤ n ∧ n < 0xDC00)

def isLowSurrogate (n : Nat) : Bool := decide (0xDC00 ≤ n ∧ n < 0xE000)

/-- The second half of a surrogate pair, if an escape with at least one code point after it follows
    a first half. -/
def pairedEscape? (first offset : Nat) : Text → Except Stop (Option (Nat × Text))
  | a :: b :: rest =>
    if isHighSurrogate first && a.is '\\' && b.is 'u' && decide (4 < rest.length) then
      match fourDigits? rest with
      | none => .error (.at .badUnicodeEscape (offset + 1))
      | some (second, after) => .ok (if isLowSurrogate second then some (second, after) else none)
    else .ok none
  | _ => .ok none

/-- The contents of a string up to its closing quote. `start` is the offset of the opening one. -/
def string (start : Nat) : (fuel offset : Nat) → Text → Except Stop (Read Text)
  | 0, _, _ => .error (.at .unterminated start)
  | _ + 1, _, [] => .error (.at .unterminated start)
  | fuel + 1, offset, c :: rest =>
    if c.is '"' then .ok ⟨[], offset + 1, rest⟩
    else if c.is '\\' then
      match rest with
      | [] => .error (.at .unterminated start)
      | e :: rest =>
        if e.is 'u' then
          match fourDigits? rest with
          | none => .error (.at .badUnicodeEscape (offset + 1))
          | some (first, rest) => do
            match ← pairedEscape? first (offset + 6) rest with
            | some (second, after) =>
              let joined := 0x10000 + (first - 0xD800) * 0x400 + (second - 0xDC00)
              let more ← string start fuel (offset + 12) after
              .ok { more with value := CodePoint.ofCode joined :: more.value }
            | none =>
              let more ← string start fuel (offset + 6) rest
              .ok { more with value := CodePoint.ofCode first :: more.value }
        else
          match escaped? e with
          | none => .error (.at .badEscape offset)
          | some point => do
            let more ← string start fuel (offset + 2) rest
            .ok { more with value := point :: more.value }
    else if c.code < 0x20 then .error (.at .controlCharacter offset)
    else do
      let more ← string start fuel (offset + 1) rest
      .ok { more with value := c :: more.value }

/-! ## Numbers -/

/-- The leading decimal digits and what follows them. -/
def digits (t : Text) : List Nat × Text :=
  (t.takeWhile (fun c => (digit? c).isSome) |>.filterMap digit?, t.dropWhile fun c => (digit? c).isSome)

/-- The number that decimal digits spell. -/
def spelled (ds : List Nat) : Nat := ds.foldl (fun n d => n * 10 + d) 0

/-- The digits before the point: a zero alone, or digits that begin with another one. -/
def whole? (t : Text) : Option (List Nat × Text) :=
  match t with
  | [] => none
  | c :: rest =>
    match digit? c with
    | none => none
    | some 0 => some ([0], rest)
    | some _ => some (digits t)

/-- The point and the digits after it, if there is at least one. -/
def fraction? (t : Text) : Option (List Nat × Text) :=
  match t with
  | [] => none
  | c :: rest =>
    if c.is '.' then
      match digits rest with
      | ([], _) => none
      | found => some found
    else none

/-- The exponent, if it has at least one digit. -/
def exponent? (t : Text) : Option (Int × Text) :=
  match t with
  | [] => none
  | c :: rest =>
    if c.is 'e' || c.is 'E' then
      let (negative, rest) :=
        match rest with
        | s :: after => if s.is '-' then (true, after) else if s.is '+' then (false, after) else (false, rest)
        | [] => (false, [])
      match digits rest with
      | ([], _) => none
      | (ds, after) =>
        let size := Int.ofNat (spelled ds)
        some (if negative then -size else size, after)
    else none

/-- A number at the start of the text, and what follows it. -/
def number? (t : Text) : Option (Except Stop Json × Text) :=
  let (negative, unsigned) :=
    match t with
    | c :: rest => if c.is '-' then (true, rest) else (false, t)
    | [] => (false, t)
  match whole? unsigned with
  | none => none
  | some (whole, rest) =>
    let part := fraction? rest
    let rest := (part.map (·.2)).getD rest
    let power := exponent? rest
    let rest := (power.map (·.2)).getD rest
    if part.isSome || power.isSome then
      let places := (part.map (·.1)).getD []
      let shift := (power.map (·.1)).getD 0 - Int.ofNat places.length
      some (.ok (.float (Binary64.ofDecimal negative (spelled (whole ++ places)) shift)), rest)
    else if digitLimit < whole.length then some (.error (.oversizedInteger whole.length), rest)
    else
      let size := Int.ofNat (spelled whole)
      some (.ok (.int (if negative then -size else size)), rest)

/-! ## Values -/

/-- The values that are spelled by a word. -/
def words : List (Text × Json) :=
  [(lit "null", .null), (lit "true", .bool true), (lit "false", .bool false),
   (lit "NaN", .float .nan), (lit "Infinity", .float (.infinite false)),
   (lit "-Infinity", .float (.infinite true))]

/-- A word or a number. -/
def scalar (offset : Nat) (t : Text) : Except Stop (Read Json) :=
  match words.find? fun (word, _) => t.startsWith word with
  | some (word, value) => .ok ⟨value, offset + word.length, t.drop word.length⟩
  | none =>
    match number? t with
    | none => .error (.at .expectingValue offset)
    | some (value, rest) => do .ok ⟨← value, offset + (t.length - rest.length), rest⟩

mutual

/-- The value that begins at an offset. -/
def value : (fuel offset : Nat) → Text → Except Stop (Read Json)
  | 0, offset, _ => .error (.at .expectingValue offset)
  | _ + 1, offset, [] => .error (.at .expectingValue offset)
  | fuel + 1, offset, c :: rest =>
    if c.is '"' then do
      let read ← string offset (rest.length + 1) (offset + 1) rest
      .ok { read with value := .text read.value }
    else if c.is '{' then
      let (offset, rest) := skipBlanks (offset + 1) rest
      match rest with
      | [] => .error (.at .expectingName offset)
      | d :: after =>
        if d.is '}' then .ok ⟨.object [], offset + 1, after⟩ else do
          let read ← members fuel offset (d :: after) []
          .ok { read with value := .object read.value }
    else if c.is '[' then
      let (offset, rest) := skipBlanks (offset + 1) rest
      match rest with
      | [] => .error (.at .expectingValue offset)
      | d :: after =>
        if d.is ']' then .ok ⟨.list [], offset + 1, after⟩ else do
          let read ← items fuel offset (d :: after)
          .ok { read with value := .list read.value }
    else scalar offset (c :: rest)

/-- The items of a list from one of them on. -/
def items : (fuel offset : Nat) → Text → Except Stop (Read (List Json))
  | 0, offset, _ => .error (.at .expectingValue offset)
  | fuel + 1, offset, t => do
    let first ← value fuel offset t
    let (offset, rest) := skipBlanks first.offset first.rest
    match rest with
    | [] => .error (.at .expectingComma offset)
    | c :: rest =>
      if c.is ']' then .ok ⟨[first.value], offset + 1, rest⟩
      else if c.is ',' then do
        let (offset, rest) := skipBlanks (offset + 1) rest
        let more ← items fuel offset rest
        .ok { more with value := first.value :: more.value }
      else .error (.at .expectingComma offset)

/-- The members of an object from one of them on, set after those already read. -/
def members : (fuel offset : Nat) → Text → Table Json → Except Stop (Read (Table Json))
  | 0, offset, _, _ => .error (.at .expectingName offset)
  | _ + 1, offset, [], _ => .error (.at .expectingName offset)
  | fuel + 1, offset, c :: rest, before =>
    if c.is '"' then do
      let name ← string offset (rest.length + 1) (offset + 1) rest
      let (offset, rest) := skipBlanks name.offset name.rest
      match rest with
      | [] => .error (.at .expectingColon offset)
      | c :: rest =>
        if c.is ':' then do
          let (offset, rest) := skipBlanks (offset + 1) rest
          let member ← value fuel offset rest
          let table := before.set name.value member.value
          let (offset, rest) := skipBlanks member.offset member.rest
          match rest with
          | [] => .error (.at .expectingComma offset)
          | c :: rest =>
            if c.is '}' then .ok ⟨table, offset + 1, rest⟩
            else if c.is ',' then
              let (offset, rest) := skipBlanks (offset + 1) rest
              members fuel offset rest table
            else .error (.at .expectingComma offset)
        else .error (.at .expectingColon offset)
    else .error (.at .expectingName offset)

end

/-- A whole document: one value between blanks. -/
def document (t : Text) : Except Stop Json := do
  if t.head? = some (CodePoint.ofCode 0xFEFF) then .error (.at .byteOrderMark 0) else
    let (offset, rest) := skipBlanks 0 t
    let read ← value (2 * t.length + 2) offset rest
    let (offset, rest) := skipBlanks read.offset read.rest
    if rest.isEmpty then .ok read.value else .error (.at .extraData offset)

/-- A fault with the line and the column of its offset; only line feeds end lines. -/
def Stop.located (t : Text) : Stop → ReadError
  | .oversizedInteger digits => .oversizedInteger digits
  | .at problem offset =>
    let before := (t.take offset).splitOn (.char '\n')
    .malformed problem before.length ((before.getLast?.getD []).length + 1) offset

end Reader

/-- The JSON value of a document. -/
def read (t : Text) : Except ReadError Json :=
  (Reader.document t).mapError (Reader.Stop.located t)

end Lev.Json
