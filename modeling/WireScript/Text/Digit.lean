import WireScript.Text.Basic

/-!
# Digits

Decimal digits exist in many scripts; in each of them the ten digits are consecutive code points,
so a table of the zeros gives them all.  Digits of other bases are ASCII only.
-/

namespace WireScript.CodePoint

/-- The code points of general category Nd that stand for zero, in increasing order. -/
def decimalZeros : List Nat :=
  [0x30, 0x660, 0x6F0, 0x7C0, 0x966, 0x9E6, 0xA66, 0xAE6, 0xB66, 0xBE6, 0xC66, 0xCE6, 0xD66, 0xDE6,
   0xE50, 0xED0, 0xF20, 0x1040, 0x1090, 0x17E0, 0x1810, 0x1946, 0x19D0, 0x1A80, 0x1A90, 0x1B50,
   0x1BB0, 0x1C40, 0x1C50, 0xA620, 0xA8D0, 0xA900, 0xA9D0, 0xA9F0, 0xAA50, 0xABF0, 0xFF10, 0x104A0,
   0x10D30, 0x11066, 0x110F0, 0x11136, 0x111D0, 0x112F0, 0x11450, 0x114D0, 0x11650, 0x116C0,
   0x11730, 0x118E0, 0x11950, 0x11C50, 0x11D50, 0x11DA0, 0x16A60, 0x16AC0, 0x16B50, 0x1D7CE,
   0x1D7D8, 0x1D7E2, 0x1D7EC, 0x1D7F6, 0x1E140, 0x1E2F0, 0x1E950, 0x1FBF0]

/-- The value of a decimal digit of any script. -/
def decimalDigit? (p : CodePoint) : Option Nat :=
  let n := p.toNat
  (decimalZeros.find? fun first => first ≤ n && n ≤ first + 9).map (n - ·)

/-- The value of an ASCII letter or digit as a digit of a base up to sixteen; sixteen if it is
none. -/
def digitValue (p : CodePoint) : Nat :=
  let n := p.toNat
  if 0x30 ≤ n ∧ n ≤ 0x39 then n - 0x30
  else if 0x61 ≤ n ∧ n ≤ 0x66 then n - 0x61 + 10
  else if 0x41 ≤ n ∧ n ≤ 0x46 then n - 0x41 + 10
  else 16

/-- The value of an ASCII digit of a base up to sixteen. -/
def digit? (base : Nat) (p : CodePoint) : Option Nat :=
  if p.digitValue < base then some p.digitValue else none

/-- Whether a code point is an ASCII decimal digit. -/
def isDigit (p : CodePoint) : Bool :=
  0x30 ≤ p.toNat && p.toNat ≤ 0x39

/-- Whether a code point is an ASCII letter or an underscore. -/
def isLetter (p : CodePoint) : Bool :=
  let n := p.toNat
  (0x61 ≤ n && n ≤ 0x7A) || (0x41 ≤ n && n ≤ 0x5A) || n == 0x5F

theorem digit?_lt {base d : Nat} {p : CodePoint} (h : p.digit? base = some d) : d < base := by
  unfold digit? at h
  split at h
  · obtain rfl := Option.some.inj h
    assumption
  · simp at h

theorem not_isLetter_of_isDigit {p : CodePoint} (h : p.isDigit) : ¬ p.isLetter := by
  simp only [isDigit, isLetter, Bool.and_eq_true, Bool.or_eq_true, decide_eq_true_eq,
    beq_iff_eq] at *
  omega

end WireScript.CodePoint

/-- The number that a sequence of digits of one base stands for, the most significant first. -/
def WireScript.ofDigits (base : Nat) (digits : List Nat) : Nat :=
  digits.foldl (fun n d => n * base + d) 0
