import WireScript.Number.Binary64
import WireScript.Number.Limit
import WireScript.Text.Blank
import WireScript.Text.Digit

/-!
# Reading numbers

Numbers in settings may be written in any script, between white space, with a sign, and with single
underscores between digits.  An integer has digits only, and not too many; a floating point number
may also have a point, an exponent, or be spelled out as an infinity or as no number at all.
-/

namespace WireScript.Number

/-- A text with the white space and the decimal digits of other scripts replaced by their ASCII
forms.  What is ASCII already stays as it is, even if it is white space in Unicode only. -/
def toAscii (t : Text) : Text :=
  t.map fun p =>
    if p.toNat < 0x80 then p
    else match p.decimalDigit? with
      | some d => .scalar (Nat.digitChar d)
      | none => if p.isBlank then .scalar ' ' else p

/-- A number's text in ASCII without the white space around it. -/
def prepared (t : Text) : Text :=
  (toAscii t).trim CodePoint.isAsciiBlank

/-- Takes the underscores out of a text, if each of them stands between two digits. -/
def withoutUnderscores (previousIsDigit : Bool) : Text → Option Text
  | [] => some []
  | p :: t =>
    if p.is '_' then
      if previousIsDigit && t.head?.any CodePoint.isDigit then withoutUnderscores false t
      else none
    else (withoutUnderscores p.isDigit t).map (p :: ·)

/-- Splits a sign off a text; without one the number is not negative. -/
def splitSign (t : Text) : Bool × Text :=
  match t with
  | p :: rest => if p.is '-' then (true, rest) else if p.is '+' then (false, rest) else (false, t)
  | [] => (false, t)

/-- The value of a text of ASCII digits. -/
def ofAsciiDigits (t : Text) : Nat :=
  ofDigits 10 (t.map CodePoint.digitValue)

/-- Reads an integer.  Zeros in front count as digits, and underscores do not. -/
def integer? (t : Text) : Option Int := do
  let (negative, digits) := splitSign (prepared t)
  let digits ← withoutUnderscores false digits
  if digits.isEmpty || !digits.all CodePoint.isDigit || digitLimit < digits.length then none
  else
    let n : Int := ofAsciiDigits digits
    return if negative then -n else n

/-- The parts of a decimal number: the digits before and after the point, and the exponent. -/
structure Parts where
  whole : Text
  fraction : Text
  exponent : Int

/-- Splits a number without a sign into its parts. -/
def parts? (t : Text) : Option Parts := do
  let whole := t.takeWhile CodePoint.isDigit
  let rest := t.dropWhile CodePoint.isDigit
  let (fraction, rest) := match rest with
    | p :: after =>
      if p.is '.' then (after.takeWhile CodePoint.isDigit, after.dropWhile CodePoint.isDigit)
      else ([], rest)
    | [] => ([], rest)
  if whole.isEmpty && fraction.isEmpty then none
  match rest with
  | [] => return ⟨whole, fraction, 0⟩
  | p :: exponent =>
    let (negative, digits) := splitSign exponent
    if !p.isIn ['e', 'E'] || digits.isEmpty || !digits.all CodePoint.isDigit then none
    else
      let n : Int := ofAsciiDigits digits
      return ⟨whole, fraction, if negative then -n else n⟩

/-- The number that the parts stand for. -/
def Parts.toBinary64 (parts : Parts) (negative : Bool) : Binary64 :=
  .ofDecimal negative (ofAsciiDigits (parts.whole ++ parts.fraction))
    (parts.exponent - parts.fraction.length)

/-- A text with its ASCII capitals made small. -/
def lowercase (t : Text) : Text :=
  t.map fun p => match p with
    | .scalar c => .scalar c.toLower
    | _ => p

/-- Reads a floating point number. -/
def binary64? (t : Text) : Option Binary64 := do
  let (negative, body) := splitSign (← withoutUnderscores false (prepared t))
  let word := lowercase body
  if word = Text.ofString "inf" || word = Text.ofString "infinity" then
    return .infinity negative
  else if word = Text.ofString "nan" then return .nan
  else (← parts? body).toBinary64 negative

end WireScript.Number
