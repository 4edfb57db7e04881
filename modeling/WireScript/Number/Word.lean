/-!
# Integers of 64 bits

Scripts compute with integers from `-0x8000000000000000` to `0x7FFFFFFFFFFFFFFF`.  An integer of any
size is brought into this range by `wrap`, which keeps its remainder; `signed` does the same for the
bits of one word.  `quotient` divides integers of any size.
-/

namespace WireScript

/-- How many integers of 64 bits there are. -/
def wordCount : Nat := 0x10000000000000000

/-- Whether an integer has 64 bits. -/
def IsWord (n : Int) : Prop :=
  -0x8000000000000000 ≤ n ∧ n ≤ 0x7FFFFFFFFFFFFFFF

instance (n : Int) : Decidable (IsWord n) :=
  inferInstanceAs (Decidable (_ ∧ _))

/-- An integer reduced to 64 bits in two's complement. -/
def wrap (n : Int) : Int := n.bmod wordCount

/-- The integer that the bits of a natural number below `wordCount` stand for. -/
def signed (n : Nat) : Int :=
  if n < 0x8000000000000000 then n else (n : Int) - 0x10000000000000000

/-- The quotient of two integers: that of their magnitudes, negated if only one of them is
negative. -/
def quotient (m n : Int) : Int :=
  let magnitude : Int := (m.natAbs / n.natAbs : Nat)
  if decide (m < 0) != decide (n < 0) then -magnitude else magnitude

theorem isWord_wrap (n : Int) : IsWord (wrap n) := by
  have lower := Int.le_bmod (x := n) (m := wordCount) (by decide)
  have upper := Int.bmod_lt (x := n) (m := wordCount) (by decide)
  simp only [IsWord, wrap, wordCount] at *
  omega

/-- Integers of 64 bits stay as they are. -/
theorem wrap_of_isWord {n : Int} (h : IsWord n) : wrap n = n := by
  simp only [IsWord, wrap, wordCount, Int.bmod] at *
  omega

@[simp] theorem wrap_wrap (n : Int) : wrap (wrap n) = wrap n :=
  wrap_of_isWord (isWord_wrap n)

/-! Sums, differences and products may be reduced before or after they are taken. -/

theorem wrap_add_wrap (m n : Int) : wrap (wrap m + wrap n) = wrap (m + n) :=
  (Int.add_bmod m n wordCount).symm

theorem wrap_sub_wrap (m n : Int) : wrap (wrap m - wrap n) = wrap (m - n) :=
  (Int.sub_bmod m n wordCount).symm

theorem wrap_mul_wrap (m n : Int) : wrap (wrap m * wrap n) = wrap (m * n) :=
  (Int.mul_bmod m n wordCount).symm

theorem signed_eq_wrap {n : Nat} (h : n < wordCount) : signed n = wrap n := by
  simp only [signed, wrap, wordCount, Int.bmod] at *
  split <;> omega

end WireScript
