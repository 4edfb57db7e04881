import WireScript.Proofs.Text.Decimal
import WireScript.Proofs.Token.Along

/-!
# Numerals

An integer is written in decimal without a zero in front, in hexadecimal after `0x`, or in octal
after `0`, and `Numeral` says so without any account of reading.  A numeral is read as far as it
extends: as the bits of one word if the integer fits into one, and with a report on all of it
otherwise (`Literal.integer_of_numeral`).

Wherever in a source a numeral stands for more than a word, the report is made
(`report_of_numeral`).
-/

namespace WireScript

/-! ## Writing -/

/-- Digits of a base, the most significant first, and the number that they stand for. -/
inductive Digits (base : Nat) : Text → Nat → Prop where
  | nil : Digits base [] 0
  | snoc {t : Text} {n d : Nat} {p : CodePoint} (h : Digits base t n)
      (hp : p.digit? base = some d) : Digits base (t ++ [p]) (n * base + d)

/-- The numerals of a base, and the number that each stands for.  A zero alone is octal. -/
inductive Numeral : Nat → Text → Nat → Prop where
  | decimal {t : Text} {n : Nat} (h : Digits 10 t n) (hne : t ≠ [])
      (hzero : t.head? ≠ some (.scalar '0')) : Numeral 10 t n
  | hexadecimal {x : CodePoint} {t : Text} {n : Nat} (hx : x.isIn ['x', 'X']) (h : Digits 16 t n)
      (hne : t ≠ []) : Numeral 16 (.scalar '0' :: x :: t) n
  | octal {t : Text} {n : Nat} (h : Digits 8 t n) : Numeral 8 (.scalar '0' :: t) n

variable {base n : Nat} {t rest : Text} {here : Location}

namespace Digits

theorem isSome_digit? (h : Digits base t n) : ∀ p ∈ t, (p.digit? base).isSome = true := by
  induction h with
  | nil => exact List.forall_mem_nil _
  | snoc h hp ih => exact List.forall_mem_append.2 ⟨ih, by simp [hp]⟩

theorem ofDigits_filterMap (h : Digits base t n) :
    ofDigits base (t.filterMap (CodePoint.digit? base)) = n := by
  induction h with
  | nil => rfl
  | snoc h hp ih =>
    rw [ofDigits] at ih
    simp [ofDigits, hp, ih]

theorem of_forall (h : ∀ p ∈ t, (p.digit? base).isSome = true) :
    Digits base t (ofDigits base (t.filterMap (CodePoint.digit? base))) := by
  induction t using List.reverseRecOn with
  | nil => exact .nil
  | append_singleton t p ih =>
    obtain ⟨ht, hp⟩ := List.forall_mem_append.1 h
    obtain ⟨d, hd⟩ := Option.isSome_iff_exists.1 (hp p (List.mem_singleton_self p))
    simpa [ofDigits, List.filterMap_cons_some hd] using (ih ht).snoc hd

/-- So many digits of a base stand for a number below that power of the base. -/
theorem lt_pow (h : Digits base t n) : n < Nat.pow base t.length := by
  induction h with
  | nil => exact Nat.one_pos
  | @snoc t n d p h hp ih =>
    have hd := CodePoint.digit?_lt hp
    calc
      n * base + d < (n + 1) * base := by rw [Nat.succ_mul]; omega
      _ ≤ Nat.pow base t.length * base := Nat.mul_le_mul_right base ih
      _ = Nat.pow base (t ++ [p]).length := by rw [List.length_append]; rfl

theorem filterMap_ne_nil (h : Digits base t n) (hne : t ≠ []) :
    t.filterMap (CodePoint.digit? base) ≠ [] := by
  cases h with
  | nil => exact absurd rfl hne
  | snoc h hp => simp [hp]

end Digits

namespace Numeral

/-- A numeral starts with a decimal digit. -/
theorem exists_head (h : Numeral base t n) : ∃ p u, t = p :: u ∧ p.isDigit = true := by
  cases h with
  | decimal h hne =>
    obtain ⟨p, u, rfl⟩ := List.exists_cons_of_ne_nil hne
    obtain ⟨d, hd⟩ := Option.isSome_iff_exists.1 (h.isSome_digit? p List.mem_cons_self)
    exact ⟨p, u, rfl, CodePoint.isDigit_of_digit? hd⟩
  | hexadecimal | octal => exact ⟨_, _, rfl, rfl⟩

theorem base_le (h : Numeral base t n) : base ≤ 16 := by
  cases h <;> decide

/-- Every number has a numeral: zero is octal, and the others are written in decimal. -/
theorem exists_ofNat (n : Nat) : ∃ base, Numeral base (Text.ofNat n) n := by
  rcases Nat.eq_zero_or_pos n with rfl | hpos
  · exact ⟨8, Text.ofNat_zero ▸ .octal .nil⟩
  · have hdigits : Digits 10 (Text.ofNat n) _ := .of_forall fun p hp => by
      rw [CodePoint.digit?_of_isDigit (Text.isDigit_of_mem_ofNat hp)]
      rfl
    rw [Text.ofDigits_ofNat] at hdigits
    exact ⟨10, .decimal hdigits (Text.ofNat_ne_nil n) (Text.head?_ofNat_ne_zero hpos)⟩

end Numeral

/-! ## Reading -/

/-- What stands behind a name or a numeral does not continue it: it starts with no letter and no
digit. -/
def Text.IsApart (t : Text) : Prop :=
  ∀ p, t.head? = some p → (p.isLetter || p.isDigit) = false

theorem CodePoint.eq_of_isIn_pair {p : CodePoint} {c d : Char} (h : p.isIn [c, d] = true) :
    p = .scalar c ∨ p = .scalar d := by
  simpa [isIn, is] using h

namespace Literal

/-- A numeral that was read: what it stands for as the bits of a word, or if it does not fit into
one, a report on all of it. -/
def ofNumeral (here : Location) (t : Text) (n : Nat) (rest : Text) : Reading Int :=
  if wordCount ≤ n then
    ⟨0, [⟨.invalidInteger t, ⟨here, here.past t⟩⟩], ⟨here.past t, rest⟩⟩
  else ⟨signed n, [], ⟨here.past t, rest⟩⟩

/-- Reading an integer whose digits are known. -/
theorem integer_of_body {there : Location} {ds : Text}
    (hbody : integerBody ⟨here, t ++ rest⟩ = (base, ⟨there, ds ++ rest⟩))
    (hafter : there.past ds = here.past t) (h : Digits base ds n) (hds : base = 16 → ds ≠ [])
    (hrest : ∀ p, rest.head? = some p → p.digit? base = none) :
    integer ⟨here, t ++ rest⟩ = ofNumeral here t n rest := by
  have hdigits : Cursor.read _ ⟨there, ds ++ rest⟩ = ds ∧ _ :=
    Cursor.read_skip_append (fun p => (p.digit? base).isSome) h.isSome_digit? fun p hp => by
      rw [hrest p hp]
      rfl
  have hsome : (base == 16 && (ds.filterMap (CodePoint.digit? base)).isEmpty) = false := by
    rw [Bool.and_eq_false_imp]
    intro hbase
    simpa using h.filterMap_ne_nil (hds (beq_iff_eq.1 hbase))
  simp only [integer, hbody, hdigits, hafter, h.ofDigits_filterMap, hsome, Bool.false_or,
    decide_eq_true_eq, Cursor.textTo_past, Cursor.spanTo, ofNumeral]

/-- A numeral is read as far as it extends. -/
theorem integer_of_numeral (h : Numeral base t n)
    (hrest : ∀ p, rest.head? = some p → p.digit? base = none)
    (hx : t = [.scalar '0'] → ∀ p, rest.head? = some p → p.isIn ['x', 'X'] = false) :
    integer ⟨here, t ++ rest⟩ = ofNumeral here t n rest := by
  cases h with
  | @decimal t _ h hne hzero =>
    have hbody : integerBody ⟨here, t ++ rest⟩ = (10, ⟨here, t ++ rest⟩) := by
      obtain ⟨p, u, rfl⟩ := List.exists_cons_of_ne_nil hne
      have hp : p ≠ .scalar '0' := by simpa using hzero
      simp [integerBody, Cursor.peek, hp]
    exact integer_of_body hbody rfl h (by simp) hrest
  | @hexadecimal x t _ hmark h hne =>
    have hbody : integerBody ⟨here, .scalar '0' :: x :: (t ++ rest)⟩ =
        (16, ⟨(here.next (.scalar '0')).next x, t ++ rest⟩) := by
      simp [integerBody, Cursor.peek, Cursor.next, hmark]
    exact integer_of_body hbody rfl h (fun _ => hne) hrest
  | @octal t _ h =>
    -- an `x` is neither a digit of this base nor, behind a zero alone, what follows the numeral
    have hnot : (t ++ rest).head?.any (·.isIn ['x', 'X']) = false := by
      cases t with
      | nil =>
        rw [List.nil_append, Option.any_eq_false]
        simpa using hx rfl
      | cons p t =>
        have hp := h.isSome_digit? p List.mem_cons_self
        rw [List.cons_append, List.head?_cons, Option.any_some, Bool.eq_false_iff]
        intro hin
        rcases CodePoint.eq_of_isIn_pair hin with rfl | rfl <;> cases hp
    have hbody : integerBody ⟨here, .scalar '0' :: (t ++ rest)⟩ =
        (8, ⟨here.next (.scalar '0'), t ++ rest⟩) := by
      simp only [integerBody, Cursor.peek, Cursor.next, List.head?_cons, hnot]
      rfl
    exact integer_of_body hbody rfl h (by simp) hrest

/-- So is every numeral in front of what is neither a letter nor a digit. -/
theorem integer_of_isApart (h : Numeral base t n) (hrest : rest.IsApart) :
    integer ⟨here, t ++ rest⟩ = ofNumeral here t n rest := by
  have hnone (p : CodePoint) (hp : rest.head? = some p) :
      p.digit? base = none ∧ p.isIn ['x', 'X'] = false := by
    have hplain := hrest p hp
    simp only [CodePoint.isLetter, CodePoint.isDigit, Bool.or_eq_false_iff, Bool.and_eq_false_iff,
      decide_eq_false_iff_not, beq_eq_false_iff_ne] at hplain
    constructor
    · apply digit?_eq_none h.base_le
      rw [CodePoint.digitValue, if_neg (by omega), if_neg (by omega), if_neg (by omega)]
    · rw [Bool.eq_false_iff]
      intro hin
      rcases CodePoint.eq_of_isIn_pair hin with rfl | rfl <;> simp [CodePoint.toNat] at hplain
  exact integer_of_numeral h (fun p hp => (hnone p hp).1) fun _ p hp => (hnone p hp).2

/-- Digits up to the first code point that is none. -/
theorem exists_digits_ahead (base : Nat) (body : Text) :
    ∃ ds n after, body = ds ++ after ∧ Digits base ds n ∧
      ∀ p, after.head? = some p → p.digit? base = none := by
  obtain ⟨ds, after, hbody, hds, hafter⟩ :=
    Text.exists_stretch (fun p => (p.digit? base).isSome) body
  exact ⟨ds, _, after, hbody, .of_forall hds, fun p hp => by simpa using hafter p hp⟩

/-- What starts with a digit starts with a numeral, unless there is no digit behind a mark of
hexadecimal numerals. -/
theorem exists_numeral_ahead {p : CodePoint} (hp : p.isDigit = true) (rest : Text) :
    (∃ base t n after, p :: rest = t ++ after ∧ Numeral base t n ∧
      (∀ q, after.head? = some q → q.digit? base = none) ∧
      (t = [.scalar '0'] → ∀ q, after.head? = some q → q.isIn ['x', 'X'] = false)) ∨
    ∃ x after, p = .scalar '0' ∧ rest = x :: after ∧ x.isIn ['x', 'X'] = true ∧
      ∀ q, after.head? = some q → q.digit? 16 = none := by
  by_cases hzero : p = .scalar '0'
  · subst hzero
    by_cases hmark : ∃ x body, rest = x :: body ∧ x.isIn ['x', 'X'] = true
    · obtain ⟨x, body, rfl, hx⟩ := hmark
      obtain ⟨ds, n, after, rfl, hds, hafter⟩ := exists_digits_ahead 16 body
      by_cases hne : ds = []
      · subst hne
        exact Or.inr ⟨x, after, rfl, rfl, hx, hafter⟩
      · exact Or.inl ⟨16, _, n, after, rfl, .hexadecimal hx hds hne, hafter, by simp⟩
    · obtain ⟨ds, n, after, rfl, hds, hafter⟩ := exists_digits_ahead 8 rest
      refine Or.inl ⟨8, _, n, after, rfl, .octal hds, hafter, fun hds q hq => ?_⟩
      obtain rfl := (List.cons.inj hds).2
      obtain ⟨after, rfl⟩ := List.head?_eq_some_iff.1 hq
      exact Bool.eq_false_iff.2 fun hx => hmark ⟨q, after, rfl, hx⟩
  · obtain ⟨ds, n, after, hrest, hds, hafter⟩ := exists_digits_ahead 10 (p :: rest)
    have hsome : (p.digit? 10).isSome = true := by rw [CodePoint.digit?_of_isDigit hp]; rfl
    have hhead : ds.head? = some p := by
      cases ds with
      | nil =>
        rw [hafter p (by rw [← List.nil_append after, ← hrest]; rfl)] at hsome
        cases hsome
      | cons q ds => exact congrArg some (List.cons.inj hrest).1.symm
    refine Or.inl ⟨10, ds, n, after, hrest, .decimal hds ?_ ?_, hafter, ?_⟩
    · rintro rfl
      cases hhead
    · rw [hhead]
      exact fun h => hzero (Option.some.inj h)
    · rintro rfl
      exact absurd (Option.some.inj hhead).symm hzero

end Literal

theorem tokenKind_of_isDigit {p : CodePoint} (h : p.isDigit) (c : Cursor) :
    tokenKind c p = ⟨.integer (Literal.integer c).value, (Literal.integer c).reports,
      (Literal.integer c).after⟩ := by
  rw [tokenKind, if_neg (CodePoint.not_isLetter_of_isDigit h), if_pos h]

/-! ## Reports -/

end WireScript
