import WireScript.Text.Basic

/-!
# Numbers that are too long

Converting between a number and its decimal digits takes a time that grows with the square of their
count.  So a number of too many digits is neither read nor printed.  Digits of a base that is a
power of two are converted in any count.
-/

namespace WireScript.Number

/-- How many decimal digits a number may have. -/
def digitLimit : Nat := 4300

/-- Whether an integer has more decimal digits than are printed.  The bound is too large for
unfolding. -/
@[irreducible]
def isOverlong (n : Int) : Bool :=
  Nat.pow 10 digitLimit ≤ n.natAbs

theorem isOverlong_iff {n : Int} : isOverlong n = true ↔ Nat.pow 10 digitLimit ≤ n.natAbs := by
  unfold isOverlong
  exact decide_eq_true_iff

/-- Why a number is not printed. -/
def overlong : Text :=
  "Exceeds the limit (" ++ Text.ofNat digitLimit ++ ") for integer string conversion; " ++
    "use sys.set_int_max_str_digits() to increase the limit"

/-- Why so many digits are not read as a number. -/
def overlongDigits (count : Nat) : Text :=
  "Exceeds the limit (" ++ Text.ofNat digitLimit ++ ") for integer string conversion: " ++
    "value has " ++ Text.ofNat count ++ " digits; " ++
    "use sys.set_int_max_str_digits() to increase the limit"

end WireScript.Number
