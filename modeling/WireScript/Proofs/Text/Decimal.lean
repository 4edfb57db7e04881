import Mathlib.Algebra.Group.Nat.Defs
import WireScript.Text.Digit

/-!
# Decimal numerals

A number in decimal consists of digits, has no zero in front unless it is zero, and its digits stand
for the number.
-/

namespace WireScript

namespace CodePoint

theorem isDigit_scalar {c : Char} (h : c.isDigit) : (scalar c).isDigit := by
  simp only [Char.isDigit, Bool.and_eq_true, decide_eq_true_eq, ge_iff_le, UInt32.le_iff_toNat_le]
    at h
  simp only [isDigit, toNat, Bool.and_eq_true]
  exact ⟨decide_eq_true h.1, decide_eq_true h.2⟩

theorem digit?_of_isDigit {p : CodePoint} (h : p.isDigit) :
    p.digit? 10 = some (p.toNat - 0x30) := by
  simp only [isDigit, Bool.and_eq_true, decide_eq_true_eq] at h
  have hvalue : p.digitValue = p.toNat - 0x30 := by simp [digitValue, h]
  rw [digit?, hvalue, if_pos]
  omega

theorem isDigit_of_digit? {p : CodePoint} {d : Nat} (h : p.digit? 10 = some d) :
    p.isDigit = true := by
  have hvalue : p.digitValue < 10 := by
    unfold digit? at h
    split at h
    · assumption
    · cases h
  unfold digitValue at hvalue
  dsimp only at hvalue
  split at hvalue
  · next hrange => simpa [isDigit] using hrange
  · -- letters are digits from ten on
    split at hvalue
    · omega
    · split at hvalue <;> omega

/-- A digit is no character that is not one. -/
theorem is_eq_false_of_isDigit {p : CodePoint} {c : Char} (h : p.isDigit = true)
    (hc : (scalar c).isDigit = false) : p.is c = false := by
  cases hp : p.is c with
  | false => rfl
  | true =>
    obtain rfl : p = scalar c := by simpa [is] using hp
    simp [hc] at h

end CodePoint

namespace Text

theorem isDigit_of_mem_ofNat {n : Nat} {p : CodePoint} (h : p ∈ ofNat n) : p.isDigit := by
  obtain ⟨c, hc, rfl⟩ := List.mem_map.1 h
  exact CodePoint.isDigit_scalar (Nat.isDigit_of_mem_toDigits (by decide) (by decide) hc)

@[simp] theorem ofNat_zero : ofNat 0 = [.scalar '0'] := by
  rw [ofNat, Nat.toDigits_zero]
  rfl

theorem ofNat_ne_nil (n : Nat) : ofNat n ≠ [] := by
  simp [ofNat, ofChars, Nat.toDigits_ne_nil]

/-- A number has at most as many digits as the power of ten above it says. -/
theorem length_ofNat_le_iff {k : Nat} (hk : 0 < k) (n : Nat) :
    (ofNat n).length ≤ k ↔ n < 10 ^ k := by
  rw [ofNat, ofChars, List.length_map]
  exact Nat.length_toDigits_le_iff (by decide) hk

/-- Only zero is written with a zero in front. -/
theorem head?_ofNat_ne_zero {n : Nat} (hn : 0 < n) : (ofNat n).head? ≠ some (.scalar '0') := by
  induction n using Nat.strongRecOn with
  | _ n ih =>
    by_cases hsmall : n < 10
    · rw [ofNat, Nat.toDigits_of_lt_base hsmall]
      have hchar : ∀ n < 10, 0 < n → n.digitChar ≠ '0' := by decide
      simpa [ofChars] using hchar n hsmall hn
    · have hfront := ih (n / 10) (by omega) (by omega)
      have hsplit : ofNat n = ofNat (n / 10) ++ ofChars [(n % 10).digitChar] := by
        rw [ofNat, Nat.toDigits_of_base_le (by decide) (by omega), ofChars, List.map_append]
        rfl
      obtain ⟨p, t, hpt⟩ := List.exists_cons_of_ne_nil (ofNat_ne_nil (n / 10))
      rw [hpt] at hfront
      rw [hsplit, hpt]
      exact hfront

theorem filterMap_digit?_ofChars {cs : List Char} (h : ∀ c ∈ cs, c.isDigit) :
    (ofChars cs).filterMap (CodePoint.digit? 10) = cs.map fun c => c.toNat - 0x30 := by
  induction cs with
  | nil => rfl
  | cons c cs ih =>
    have hc := CodePoint.isDigit_scalar (h c List.mem_cons_self)
    have hrest := ih fun c hc => h c (List.mem_cons_of_mem _ hc)
    rw [ofChars, List.map_cons, List.filterMap_cons_some (CodePoint.digit?_of_isDigit hc)]
    exact congrArg _ hrest

/-- The digits of a number stand for the number. -/
theorem ofDigits_ofNat (n : Nat) :
    ofDigits 10 ((ofNat n).filterMap (CodePoint.digit? 10)) = n := by
  have hdigits := filterMap_digit?_ofChars fun c hc =>
    Nat.isDigit_of_mem_toDigits (b := 10) (n := n) (by decide) (by decide) hc
  calc ofDigits 10 ((ofNat n).filterMap (CodePoint.digit? 10))
      = (Nat.toDigits 10 n).foldl (fun value c => value * 10 + (c.toNat - 0x30)) 0 := by
        rw [ofNat, hdigits, ofDigits, List.foldl_map]
    _ = Nat.ofDigitChars 10 (Nat.toDigits 10 n) 0 := by
        simp [Nat.ofDigitChars, Nat.mul_comm]
    _ = n := Nat.ofDigitChars_ten_toDigits

end Text

end WireScript
