import Lev.Text.Basic

/-!
Double-precision numbers as exact values: reading a decimal rounds it to the nearest double, and
writing a double takes the fewest decimal digits that read back as it.
-/
namespace Lev

/-- A double: `mantissa * 2 ^ exponent` with a sign, an infinity, or no number. A finite mantissa has
    at most 53 bits, and fewer than 53 only at the least exponent. -/
inductive Binary64 where
  | nan
  | infinite (negative : Bool)
  | finite (negative : Bool) (mantissa : Nat) (exponent : Int)
  deriving DecidableEq

namespace Binary64

/-- The least exponent of a finite double. -/
def leastExponent : Int := -1074

/-- The greatest exponent of a finite double. -/
def greatestExponent : Int := 971

/-- A positive fraction times a power of two, as a fraction. -/
def scaleTwo (numerator denominator : Nat) (power : Int) : Nat × Nat :=
  if 0 ≤ power then (numerator * Nat.pow 2 power.toNat, denominator)
  else (numerator, denominator * Nat.pow 2 (-power).toNat)

/-- A positive fraction times a power of ten, as a fraction. -/
def scaleTen (numerator denominator : Nat) (power : Int) : Nat × Nat :=
  if 0 ≤ power then (numerator * Nat.pow 10 power.toNat, denominator)
  else (numerator, denominator * Nat.pow 10 (-power).toNat)

/-- The nearest integer to a fraction, a half going to the even neighbour. -/
def roundDiv (numerator denominator : Nat) : Nat :=
  let quotient := numerator / denominator
  let rest := numerator % denominator
  if 2 * rest < denominator ∨ (2 * rest = denominator ∧ quotient % 2 = 0) then quotient else quotient + 1

/-- The double nearest to a positive fraction. -/
def ofFraction (negative : Bool) (numerator denominator : Nat) : Binary64 :=
  let guess : Int := Int.ofNat numerator.log2 - Int.ofNat denominator.log2 - 53
  let (n, d) := scaleTwo numerator denominator (-guess)
  let exponent := max leastExponent (if Nat.pow 2 53 ≤ n / d then guess + 1 else guess)
  let (n, d) := scaleTwo numerator denominator (-exponent)
  let mantissa := roundDiv n d
  let (mantissa, exponent) := if mantissa = Nat.pow 2 53 then (Nat.pow 2 52, exponent + 1) else (mantissa, exponent)
  if greatestExponent < exponent then .infinite negative else .finite negative mantissa exponent

/-- The double nearest to `digits * 10 ^ power`. -/
def ofDecimal (negative : Bool) (digits : Nat) (power : Int) : Binary64 :=
  let magnitude := power + Int.ofNat (Nat.toDigits 10 digits).length
  if digits = 0 ∨ magnitude < -400 then .finite negative 0 leastExponent
  else if 400 < magnitude then .infinite negative
  else
    let (n, d) := scaleTen digits 1 power
    ofFraction negative n d

/-- The least power of ten above a fraction below one, counted from `power` downwards. -/
def pointBelow (numerator denominator : Nat) : (fuel : Nat) → Int → Int
  | 0, power => power
  | fuel + 1, power =>
    if denominator ≤ numerator * 10 then power else pointBelow (numerator * 10) denominator fuel (power - 1)

/-- The power `p` with `10 ^ (p - 1) ≤ n / d < 10 ^ p`. -/
def decimalPoint (numerator denominator : Nat) : Int :=
  if denominator ≤ numerator then Int.ofNat (Nat.toDigits 10 (numerator / denominator)).length
  else pointBelow numerator denominator 400 0

/-- Digits and the power of ten of the last of them. -/
structure Decimal where
  digits : Nat
  power : Int

/-- The decimal of `count` digits nearest to a fraction among those that read back as `number`. -/
def decimalWith? (number : Binary64) (numerator denominator : Nat) (point : Int) (count : Nat) :
    Option Decimal :=
  let power := point - Int.ofNat count
  let (n, d) := scaleTen numerator denominator (-power)
  let floor := n / d
  let reads (digits : Nat) : Bool := ofDecimal false digits power = number
  match reads floor, reads (floor + 1) with
  | false, false => none
  | true, false => some ⟨floor, power⟩
  | false, true => some ⟨floor + 1, power⟩
  | true, true => some ⟨roundDiv n d, power⟩

/-- The fewest digits, from `count` up, that read back as the number. -/
def shortestFrom (number : Binary64) (numerator denominator : Nat) (point : Int) :
    (fuel count : Nat) → Decimal
  | 0, count => (decimalWith? number numerator denominator point count).getD ⟨0, 0⟩
  | fuel + 1, count =>
    match decimalWith? number numerator denominator point count with
    | some decimal => decimal
    | none => shortestFrom number numerator denominator point fuel (count + 1)

/-- The digits of a decimal without the zeros at their end. -/
def significant (digits : Nat) : List Char :=
  ((Nat.toDigits 10 digits).reverse.dropWhile (· = '0')).reverse

/-- A positive finite double in decimal: positional while its leading digit stands between the fourth
    place after the point and the sixteenth before it, and with an exponent otherwise. -/
def positiveText (mantissa : Nat) (exponent : Int) : Text :=
  let (n, d) := scaleTwo mantissa 1 exponent
  let point := decimalPoint n d
  let decimal := shortestFrom (.finite false mantissa exponent) n d point 16 1
  let point := decimal.power + Int.ofNat (Nat.toDigits 10 decimal.digits).length
  let digits : Text := (significant decimal.digits).map .char
  let zeros (count : Int) : Text := List.replicate count.toNat (.char '0')
  if -4 < point ∧ point ≤ 16 then
    if point ≤ 0 then lit "0." ++ zeros (-point) ++ digits
    else
      let whole := digits.take point.toNat ++ zeros (point - Int.ofNat digits.length)
      let part := digits.drop point.toNat
      whole ++ lit "." ++ (if part.isEmpty then lit "0" else part)
  else
    let shift := point - 1
    let size := Text.ofNat shift.natAbs
    let head := digits.take 1 ++ (if digits.length ≤ 1 then [] else lit "." ++ digits.drop 1)
    head ++ lit "e" ++ (if shift < 0 then lit "-" else lit "+") ++
      (if size.length < 2 then lit "0" else []) ++ size

/-- A double in decimal. -/
def text : Binary64 → Text
  | .nan => lit "nan"
  | .infinite negative => if negative then lit "-inf" else lit "inf"
  | .finite negative mantissa exponent =>
    (if negative then lit "-" else []) ++ (if mantissa = 0 then lit "0.0" else positiveText mantissa exponent)

end Binary64

end Lev
