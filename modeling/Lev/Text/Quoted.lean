import Lev.Text.Printable

/-!
The quoted form of a text, as messages and syntax trees show it. A text is quoted with `'`, unless it
holds that mark and not the other one; the backslash, the mark in use and every code point that does
not show as itself are escaped.
-/
namespace Lev.Text

/-- The mark that encloses a text. -/
def quoteMark (t : Text) : CodePoint :=
  if t.contains (.char '\'') && !t.contains (.char '"') then .char '"' else .char '\''

/-- A code point as it stands between quote marks. -/
def quotedPoint (mark point : CodePoint) : Text :=
  if point = mark ∨ point = .char '\\' then [.char '\\', point]
  else if point = .char '\t' then lit "\\t"
  else if point = .char '\n' then lit "\\n"
  else if point = .char '\r' then lit "\\r"
  else if point.isPrintable then [point]
  else
    let n := point.code
    if n < 0x100 then lit "\\x" ++ hex 2 n
    else if n < 0x10000 then lit "\\u" ++ hex 4 n
    else lit "\\U" ++ hex 8 n

/-- The text between quote marks. -/
def quoted (t : Text) : Text :=
  let mark := quoteMark t
  mark :: (t.flatMap (quotedPoint mark) ++ [mark])

end Lev.Text
