import WireScript.Number.Binary64
import WireScript.Text.Basic

/-!
# Shortest decimal text of a number

A number is written with the fewest significant digits that read back as it, and with the digits
nearest to it among those.  Positions from `10 ^ -4` up to below `10 ^ 16` are written without an
exponent and always with a point; all others have an exponent of at least two digits.
-/

namespace WireScript.Binary64

/-- Significant digits and the power of ten of the last of them. -/
structure Decimal where
  digits : Nat
  exponent : Int
  deriving DecidableEq, Inhabited

/-- How many digits a positive ratio has in front of the point; negative if zeros follow it. -/
def leadingPosition (numerator denominator : Nat) : Int :=
  if denominator ≤ numerator then (Nat.toDigits 10 (numerator / denominator)).length
  else
    let inverse := (denominator + numerator - 1) / numerator
    1 - ((Nat.toDigits 10 (inverse - 1)).length : Int)

/-- The two decimals with the given power of ten that enclose a ratio, the nearer one first.  Of
two that are equally near, the even one comes first. -/
def neighbours (numerator denominator : Nat) (exponent : Int) : List Decimal :=
  let numerator := numerator * Nat.pow 10 (-exponent).toNat
  let denominator := denominator * Nat.pow 10 exponent.toNat
  let below := numerator / denominator
  let nearest := roundedQuotient numerator denominator
  let other := if nearest = below then below + 1 else below
  [⟨nearest, exponent⟩, ⟨other, exponent⟩]

/-- The decimal with the fewest digits, counting up from `count`, that reads back as the positive
number with the given units; the exact one if `fuel` counts do not suffice. -/
def shortestFrom (units count : Nat) : Nat → Decimal
  | 0 => ⟨roundedQuotient (units * Nat.pow 10 1074) unitsPerOne, -1074⟩
  | fuel + 1 =>
    let exponent := leadingPosition units unitsPerOne - count
    match (neighbours units unitsPerOne exponent).find?
        fun d => ofDecimal false d.digits d.exponent == finite false units with
    | some d => d
    | none => shortestFrom units (count + 1) fuel

/-- A decimal without zeros at the end of its digits. -/
def Decimal.withoutTrailingZeros (d : Decimal) : Text × Int :=
  let digits := Text.ofNat d.digits
  let kept := digits.dropTrailing (·.is '0')
  (kept, d.exponent + (digits.length - kept.length : Nat))

/-- An exponent with its sign and at least two digits. -/
def exponentText (n : Int) : Text :=
  let digits := Text.ofNat n.natAbs
  (if n < 0 then "e-" else "e+") ++ Text.copies (2 - digits.length) '0' ++ digits

/-- Digits written with a point after the first `position` of them, or with an exponent. -/
def layOut (digits : Text) (position : Int) : Text :=
  if position < -3 || 16 < position then
    let fraction : Text := if digits.length ≤ 1 then [] else "." ++ digits.drop 1
    digits.take 1 ++ fraction ++ exponentText (position - 1)
  else if position ≤ 0 then
    "0." ++ Text.copies (-position).toNat '0' ++ digits
  else
    let whole := digits.take position.toNat
    let fraction := digits.drop position.toNat
    whole ++ Text.copies (position.toNat - digits.length) '0' ++ "." ++
      (if fraction.isEmpty then ("0" : Text) else fraction)

/-- The text of a number. -/
def render : Binary64 → Text
  | nan => "nan"
  | infinity negative => if negative then "-inf" else "inf"
  | finite negative units =>
    let sign : Text := if negative then "-" else ""
    if units = 0 then sign ++ "0.0"
    else
      let (digits, exponent) := (shortestFrom units 1 17).withoutTrailingZeros
      sign ++ layOut digits (exponent + digits.length)

end WireScript.Binary64
