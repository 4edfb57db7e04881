/-!
# Binary floating point numbers of 64 bits

A finite number is a sign and a multiple of the smallest positive number, `2 ^ -1074`, so that
rounding to the format is rounding a ratio of natural numbers to 53 significant bits.  Nothing here
uses machine floating point.
-/

namespace WireScript

/-- A binary floating point number of 64 bits. -/
inductive Binary64 where
  | nan
  | infinity (negative : Bool)
  /-- The number `units * 2 ^ -1074` with a sign. -/
  | finite (negative : Bool) (units : Nat)
  deriving DecidableEq, Inhabited

/-- The quotient of two natural numbers, rounded to the nearest natural number; a tie goes to the
even one. -/
def roundedQuotient (numerator denominator : Nat) : Nat :=
  let quotient := numerator / denominator
  let twice := 2 * (numerator % denominator)
  if denominator < twice || (twice == denominator && quotient % 2 == 1) then quotient + 1
  else quotient

namespace Binary64

/-- How many units make one. -/
def unitsPerOne : Nat := Nat.pow 2 1074

/-- The first number of units that is too large for a finite number. -/
def unitsLimit : Nat := Nat.pow 2 2098

/-- The number nearest to a ratio. -/
def ofRatio (negative : Bool) (numerator denominator : Nat) : Binary64 :=
  let scaled := numerator * unitsPerOne
  let grain := Nat.pow 2 ((scaled / denominator).log2 + 1 - 53)
  let units := roundedQuotient scaled (denominator * grain) * grain
  if units < unitsLimit then finite negative units else infinity negative

/-- The number nearest to `digits * 10 ^ exponent`.  Exponents that decide the matter by
themselves are not raised to. -/
def ofDecimal (negative : Bool) (digits : Nat) (exponent : Int) : Binary64 :=
  let magnitude : Int := exponent + (Nat.toDigits 10 digits).length
  if digits = 0 || magnitude < -330 then finite negative 0
  else if 330 < magnitude then infinity negative
  else match exponent with
    | .ofNat n => ofRatio negative (digits * Nat.pow 10 n) 1
    | .negSucc n => ofRatio negative digits (Nat.pow 10 (n + 1))

/-- The number itself if it is finite. -/
def finite? : Binary64 → Option Binary64
  | finite negative units => some (finite negative units)
  | _ => none

/-- The number nearest to an integer, unless it would be infinite. -/
def ofInt? (n : Int) : Option Binary64 :=
  (ofRatio (n < 0) n.natAbs 1).finite?

/-- The number with the other sign. -/
def neg : Binary64 → Binary64
  | nan => nan
  | infinity negative => infinity !negative
  | finite negative units => finite (!negative) units

/-- The number nearest to the sum of two numbers that are not negative. -/
def addMagnitudes : Binary64 → Binary64 → Binary64
  | finite _ m, finite _ n => ofRatio false (m + n) unitsPerOne
  | nan, _ | _, nan => nan
  | _, _ => infinity false

/-- The number nearest to the product of two numbers that are not negative. -/
def mulMagnitudes : Binary64 → Binary64 → Binary64
  | finite _ m, finite _ n => ofRatio false (m * n) (unitsPerOne * unitsPerOne)
  | nan, _ | _, nan => nan
  | infinity _, finite _ n | finite _ n, infinity _ => if n = 0 then nan else infinity false
  | infinity _, infinity _ => infinity false

/-- The whole part of a finite number without its sign. -/
def wholePart : Binary64 → Nat
  | finite _ units => units / unitsPerOne
  | _ => 0

/-- Whether a number is zero or below; not being a number is neither. -/
def isAtMostZero : Binary64 → Bool
  | nan => false
  | infinity negative => negative
  | finite negative units => negative || units == 0

/-- The integer that a number is equal to, if there is one. -/
def toInt? : Binary64 → Option Int
  | finite negative units =>
    if units % unitsPerOne = 0 then
      let n : Int := (units / unitsPerOne : Nat)
      some (if negative then -n else n)
    else none
  | _ => none

end Binary64

end WireScript
