import Lev.Text.Basic

/-!
Text as bytes: UTF-8 decoding with the extent and cause of the first fault, the line ends of files,
and the texts that have no bytes because a surrogate stands alone in them.
-/
namespace Lev.Utf8

/-- Why bytes are not UTF-8. -/
inductive Cause where
  | badStart
  | badContinuation
  | endOfData
  deriving DecidableEq

/-- The bytes from `start` up to `stop` that begin with `byte` are no character. -/
structure Fault where
  start : Nat
  stop : Nat
  byte : Nat
  cause : Cause
  deriving DecidableEq

def Cause.message : Cause → Text
  | .badStart => lit "invalid start byte"
  | .badContinuation => lit "invalid continuation byte"
  | .endOfData => lit "unexpected end of data"

def Fault.message (fault : Fault) : Text :=
  let extent :=
    if fault.stop = fault.start + 1 then
      lit "byte 0x" ++ Text.hex 2 fault.byte ++ lit " in position " ++ Text.ofNat fault.start
    else
      lit "bytes in position " ++ Text.ofNat fault.start ++ lit "-" ++ Text.ofNat (fault.stop - 1)
  lit "'utf-8' codec can't decode " ++ extent ++ lit ": " ++ fault.cause.message

/-- A character of which some bytes are still owed: where it starts, its first byte, the value read so
    far, how many bytes are owed and the range of the next one. -/
structure Pending where
  start : Nat
  byte : Nat
  value : Nat
  owed : Nat
  low : Nat
  high : Nat

/-- What the first byte of a longer character asks of the bytes after it. -/
def lead? (start byte : Nat) : Option Pending :=
  let pending (value owed low high : Nat) : Option Pending := some { start, byte, value, owed, low, high }
  if byte < 0xC2 then none
  else if byte < 0xE0 then pending (byte - 0xC0) 1 0x80 0xBF
  else if byte = 0xE0 then pending 0 2 0xA0 0xBF
  else if byte = 0xED then pending 0xD 2 0x80 0x9F
  else if byte < 0xF0 then pending (byte - 0xE0) 2 0x80 0xBF
  else if byte = 0xF0 then pending 0 3 0x90 0xBF
  else if byte < 0xF4 then pending (byte - 0xF0) 3 0x80 0xBF
  else if byte = 0xF4 then pending 4 3 0x80 0x8F
  else none

/-- Decodes the bytes from a position on, inside a character or between two. -/
def decodeFrom : Option Pending → Nat → List UInt8 → Except Fault Text
  | none, _, [] => .ok []
  | some p, position, [] => .error ⟨p.start, position, p.byte, .endOfData⟩
  | none, position, b :: rest =>
    let byte := b.toNat
    if byte < 0x80 then (decodeFrom none (position + 1) rest).map (CodePoint.ofCode byte :: ·)
    else
      match lead? position byte with
      | none => .error ⟨position, position + 1, byte, .badStart⟩
      | some p => decodeFrom (some p) (position + 1) rest
  | some p, position, b :: rest =>
    let byte := b.toNat
    if p.low ≤ byte ∧ byte ≤ p.high then
      let value := p.value * 64 + (byte - 0x80)
      if p.owed ≤ 1 then (decodeFrom none (position + 1) rest).map (CodePoint.ofCode value :: ·)
      else decodeFrom (some { p with value, owed := p.owed - 1, low := 0x80, high := 0xBF }) (position + 1) rest
    else .error ⟨p.start, position, p.byte, .badContinuation⟩

/-- The text of a byte sequence. -/
def decode (bytes : List UInt8) : Except Fault Text := decodeFrom none 0 bytes

/-- The bytes of a code point. -/
def encodePoint (point : CodePoint) : List UInt8 :=
  let n := point.code
  if n < 0x80 then [.ofNat n]
  else if n < 0x800 then [.ofNat (0xC0 + n / 64), .ofNat (0x80 + n % 64)]
  else if n < 0x10000 then
    [.ofNat (0xE0 + n / 4096), .ofNat (0x80 + n / 64 % 64), .ofNat (0x80 + n % 64)]
  else
    [.ofNat (0xF0 + n / 262144), .ofNat (0x80 + n / 4096 % 64), .ofNat (0x80 + n / 64 % 64),
     .ofNat (0x80 + n % 64)]

/-- The bytes of a text. -/
def encode (t : Text) : List UInt8 := t.flatMap encodePoint

/-- Every line end, CR LF and CR alone too, becomes a line feed. -/
def unifyLineEnds : Text → Text
  | [] => []
  | [c] => [if c.is '\r' then .char '\n' else c]
  | c :: d :: rest =>
    if c.is '\r' then
      if d.is '\n' then unifyLineEnds (d :: rest) else .char '\n' :: unifyLineEnds (d :: rest)
    else c :: unifyLineEnds (d :: rest)

/-- The surrogates from `start` up to `stop`, the first of them `point`, have no bytes. -/
structure Unencodable where
  start : Nat
  stop : Nat
  point : CodePoint
  deriving DecidableEq

/-- The first run of surrogates of a text. -/
def unencodableFrom? (position : Nat) : Text → Option Unencodable
  | [] => none
  | .char _ :: rest => unencodableFrom? (position + 1) rest
  | .surrogate offset :: rest =>
    let more := (rest.takeWhile fun c => !c.isEncodable).length
    some ⟨position, position + 1 + more, .surrogate offset⟩

def unencodable? (t : Text) : Option Unencodable := unencodableFrom? 0 t

def Unencodable.message (u : Unencodable) : Text :=
  let extent :=
    if u.stop = u.start + 1 then
      lit "character '\\u" ++ Text.hex 4 u.point.code ++ lit "' in position " ++ Text.ofNat u.start
    else
      lit "characters in position " ++ Text.ofNat u.start ++ lit "-" ++ Text.ofNat (u.stop - 1)
  lit "'utf-8' codec can't encode " ++ extent ++ lit ": surrogates not allowed"

/-- A surrogate written out as an escape, so that every text can be shown. -/
def escapeSurrogates (t : Text) : Text :=
  t.flatMap fun
    | .char c => [.char c]
    | .surrogate offset => lit "\\u" ++ Text.hex 4 (CodePoint.surrogate offset).code

end Lev.Utf8
