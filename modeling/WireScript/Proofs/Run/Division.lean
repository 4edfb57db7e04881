import Mathlib.Data.Rat.Floor
import WireScript.Proofs.Run.Outcome

/-!
# Division

A quotient is computed from magnitudes, and the remainder from the quotient before it is reduced to
a word.  This module says what the two are for operands of either sign.

* `quotient_eq_truncate`: the quotient is the exact one without its fraction.
* `sub_mul_quotient`: the remainder is that of the magnitudes, with the sign of the dividend.
* `division_recomposes` says it of the operators.  Only the least integer divided by `-1` has a
  quotient that is no word, and the two still recompose.
-/

namespace WireScript

/-- A number without its fraction. -/
def truncate (x : ℚ) : ℤ :=
  if 0 ≤ x then ⌊x⌋ else ⌈x⌉

variable {m n : ℤ}

/-! ## Quotient and remainder -/

theorem truncate_neg (x : ℚ) : truncate (-x) = -truncate x := by
  unfold truncate
  rcases lt_trichotomy x 0 with hx | rfl | hx
  · rw [if_pos (by linarith), if_neg (by linarith), Int.floor_neg]
  · simp
  · rw [if_neg (by linarith), if_pos hx.le, Int.ceil_neg]

theorem truncate_natCast_div (p d : ℕ) : truncate ((p : ℚ) / d) = (p / d : ℕ) := by
  rw [truncate, if_pos (by positivity), Rat.floor_natCast_div_natCast]
  rfl

/-- The quotient is the exact one without its fraction. -/
theorem quotient_eq_truncate (m n : ℤ) : quotient m n = truncate ((m : ℚ) / n) := by
  have hmagnitude : truncate ((m.natAbs : ℚ) / n.natAbs) = (m.natAbs / n.natAbs : ℕ) :=
    truncate_natCast_div _ _
  unfold quotient
  rw [← hmagnitude, Nat.cast_natAbs, Nat.cast_natAbs]
  rcases lt_or_ge m 0 with hm | hm <;> rcases lt_or_ge n 0 with hn | hn
  · simp [hm, hn, abs_of_neg, neg_div_neg_eq]
  · simp [hm, hn, abs_of_neg, abs_of_nonneg, not_lt.2, neg_div, truncate_neg]
  · simp [hm, hn, abs_of_neg, abs_of_nonneg, not_lt.2, div_neg, truncate_neg]
  · simp [hm, hn, abs_of_nonneg, not_lt.2]

/-- What the quotient leaves is what the magnitudes leave, with the sign of the dividend. -/
theorem sub_mul_quotient (m n : ℤ) :
    m - n * quotient m n =
      if m < 0 then -((m.natAbs % n.natAbs : ℕ) : ℤ) else (m.natAbs % n.natAbs : ℕ) := by
  have hdiv : (n.natAbs : ℤ) * (m.natAbs / n.natAbs : ℕ) + (m.natAbs % n.natAbs : ℕ) =
      m.natAbs := by
    exact_mod_cast Nat.div_add_mod m.natAbs n.natAbs
  unfold quotient
  generalize ((m.natAbs / n.natAbs : ℕ) : ℤ) = q at hdiv ⊢
  generalize ((m.natAbs % n.natAbs : ℕ) : ℤ) = r at hdiv ⊢
  rcases lt_or_ge m 0 with hm | hm <;> rcases lt_or_ge n 0 with hn | hn
  · rw [Int.ofNat_natAbs_of_nonpos hm.le, Int.ofNat_natAbs_of_nonpos hn.le] at hdiv
    simp only [hm, hn, decide_true, bne_self_eq_false, Bool.false_eq_true, if_true, if_false]
    linarith
  · rw [Int.ofNat_natAbs_of_nonpos hm.le, Int.natAbs_of_nonneg hn] at hdiv
    simp only [hm, hn.not_gt, decide_true, decide_false, Bool.bne_false, if_true]
    linarith
  · rw [Int.natAbs_of_nonneg hm, Int.ofNat_natAbs_of_nonpos hn.le] at hdiv
    simp only [hm.not_gt, hn, decide_true, decide_false, Bool.bne_true, Bool.not_false, if_true,
      if_false]
    linarith
  · rw [Int.natAbs_of_nonneg hm, Int.natAbs_of_nonneg hn] at hdiv
    simp only [hm.not_gt, hn.not_gt, decide_false, bne_self_eq_false, Bool.false_eq_true, if_false]
    linarith

/-- The remainder is smaller than the divisor, and it is zero or has the sign of the dividend. -/
theorem remainder_bounds (m : ℤ) (hn : n ≠ 0) :
    |m - n * quotient m n| < |n| ∧
      (m - n * quotient m n = 0 ∨ (m - n * quotient m n).sign = m.sign) := by
  have hlt : m.natAbs % n.natAbs < n.natAbs := Nat.mod_lt _ (Int.natAbs_pos.2 hn)
  have hle : m.natAbs % n.natAbs ≤ m.natAbs := Nat.mod_le _ _
  rw [sub_mul_quotient]
  generalize m.natAbs % n.natAbs = r at hlt hle ⊢
  rcases Nat.eq_zero_or_pos r with rfl | hr
  · simp [hn]
  · have hpos : (0 : ℤ) < r := Int.natCast_pos.2 hr
    rw [Int.abs_eq_natAbs n]
    split_ifs with hm
    · refine ⟨?_, Or.inr ?_⟩
      · rwa [abs_neg, Nat.abs_cast, Nat.cast_lt]
      · rw [Int.sign_eq_neg_one_of_neg hm, Int.sign_eq_neg_one_of_neg (Int.neg_neg_of_pos hpos)]
    · have hm' : 0 < m := by omega
      refine ⟨?_, Or.inr ?_⟩
      · rwa [Nat.abs_cast, Nat.cast_lt]
      · rw [Int.sign_eq_one_of_pos hm', Int.sign_eq_one_of_pos hpos]

/-- The remainder is a word if the dividend is one. -/
theorem isWord_remainder (n : ℤ) (hm : IsWord m) : IsWord (m - n * quotient m n) := by
  have hle : m.natAbs % n.natAbs ≤ m.natAbs := Nat.mod_le _ _
  rw [sub_mul_quotient]
  unfold IsWord at hm ⊢
  split_ifs with hneg <;> omega

/-- Quotient and remainder make up the dividend, even if the quotient has to be reduced. -/
theorem wrap_quotient_mul_add (n : ℤ) (hm : IsWord m) :
    wrap (wrap (quotient m n) * n + (m - n * quotient m n)) = m := by
  have hmul : wrap (wrap (quotient m n) * n) = wrap (quotient m n * n) := by
    rw [← wrap_mul_wrap, wrap_wrap, wrap_mul_wrap]
  calc wrap (wrap (quotient m n) * n + (m - n * quotient m n))
      = wrap (wrap (wrap (quotient m n) * n) + wrap (m - n * quotient m n)) :=
        (wrap_add_wrap _ _).symm
    _ = wrap (quotient m n * n + (m - n * quotient m n)) := by rw [hmul, wrap_add_wrap]
    _ = wrap m := by
      congr 1
      ring
    _ = m := wrap_of_isWord hm

/-! ## The two operators -/

variable {α : Type} {clock : Clock} {context : Option Text} {l r : Expr α} {note : α} {a b : ℤ}
  {memory memory₁ memory₂ : Memory}

/-- What an operator of the language computes from two integers. -/
theorem eval_binary_integers {op : IntOp}
    (hl : l.eval clock context memory = .ok (.integer a) memory₁)
    (hr : r.eval clock context memory₁ = .ok (.integer b) memory₂) :
    (Expr.binary note op l r).eval clock context memory =
      match op.apply? a b with
      | some v => .ok v memory₂
      | none => .error (.halt (.failed .divisionByZero note)) memory₂ := by
  rw [Expr.eval, bind_of_ok hl, bind_of_ok hr]
  simp only [Value.toInt]
  cases op.apply? a b <;> rfl

/-- Division and remainder of two words.  By zero both end the run.  Otherwise the quotient is the
exact one without its fraction, reduced to a word, the remainder is smaller than the divisor and
zero or of the sign of the dividend, and the two make up the dividend. -/
theorem division_recomposes (ha : IsWord a)
    (hl : l.eval clock context memory = .ok (.integer a) memory₁)
    (hr : r.eval clock context memory₁ = .ok (.integer b) memory₂) :
    (b = 0 → ∀ op ∈ [IntOp.div, IntOp.rem],
        (Expr.binary note op l r).eval clock context memory =
            .error (.halt (.failed .divisionByZero note)) memory₂ ∧
          RuntimeError.divisionByZero.code = ("E402" : Text)) ∧
      (b ≠ 0 → ∃ q k,
        (Expr.binary note .div l r).eval clock context memory = .ok (.integer q) memory₂ ∧
          (Expr.binary note .rem l r).eval clock context memory = .ok (.integer k) memory₂ ∧
          q = wrap (truncate ((a : ℚ) / b)) ∧
          |k| < |b| ∧ (k = 0 ∨ k.sign = a.sign) ∧
          wrap (q * b + k) = a) := by
  constructor
  · rintro rfl op hop
    rw [eval_binary_integers hl hr]
    rcases List.mem_pair.1 hop with rfl | rfl <;> exact ⟨rfl, rfl⟩
  · intro hzero
    have hword : wrap (a - b * quotient a b) = a - b * quotient a b :=
      wrap_of_isWord (isWord_remainder b ha)
    obtain ⟨hsmall, hsign⟩ := remainder_bounds a hzero
    refine ⟨wrap (quotient a b), a - b * quotient a b, ?_, ?_, ?_, hsmall, hsign,
      wrap_quotient_mul_add b ha⟩
    · rw [eval_binary_integers hl hr, IntOp.apply?, if_neg hzero]
      rfl
    · rw [eval_binary_integers hl hr, IntOp.apply?, if_neg hzero]
      simp only [Value.ofInt, hword]
    · rw [quotient_eq_truncate]

/-- The least integer divided by `-1` is itself. -/
theorem division_recomposes_least :
    let a : ℤ := -0x8000000000000000
    let e (op : IntOp) : Expr Unit := .binary () op (.integer () a) (.integer () (-1))
    wrap (quotient a (-1)) = a ∧
      ∃ q k, (e .div).eval (fun _ => 0) none {} = .ok (.integer q) {} ∧
        (e .rem).eval (fun _ => 0) none {} = .ok (.integer k) {} ∧
        q = wrap (truncate ((a : ℚ) / (-1 : ℤ))) ∧
        |k| < |(-1 : ℤ)| ∧ (k = 0 ∨ k.sign = a.sign) ∧
        wrap (q * (-1) + k) = a := by
  intro a e
  have hword : wrap a = a := wrap_of_isWord (by decide)
  have hl : (Expr.integer () a).eval (fun _ => 0) none {} = .ok (.integer a) {} := by
    rw [Expr.eval, Value.ofInt, hword]
    rfl
  exact ⟨by decide, (division_recomposes (by decide) hl rfl).2 (by decide)⟩

end WireScript
