import WireScript.Proofs.Token.Encodable
import WireScript.Proofs.Token.Numeral
import WireScript.Proofs.Token.Spelling

/-!
# Tokens that cannot be made

A source gives no tokens if one of them cannot be made.

* `Text.HasOverlong` says that a text holds a decimal integer of more digits than are converted, and
  `hasOverlong_iff` tells it from the reports of a scan: so many digits without a zero in front
  stand for more than a word (`Digits.pow_le`), so what cannot be made would be reported.
* `tokenize_eq_ok_iff` says that a text has its tokens exactly if all its strings can be sent and no
  integer is overlong.  For a source that can be sent, as every one can that comes as bytes, only
  the second can fail, and `tokenize_of_hasOverlong` says how it does.
-/

namespace WireScript

/-! ## Numbers of many digits -/

/-- Only a zero stands for nothing. -/
theorem CodePoint.eq_zero_of_digit? {p : CodePoint} (h : p.digit? 10 = some 0) :
    p = .scalar '0' := by
  have hdigit := isDigit_of_digit? h
  rw [digit?_of_isDigit hdigit] at h
  have hvalue : p.toNat - 0x30 = 0 := Option.some.inj h
  simp only [isDigit, Bool.and_eq_true, decide_eq_true_eq] at hdigit
  apply toNat_injective
  show p.toNat = 0x30
  omega

/-- Digits without a zero in front, of which there are more than are read as a number. -/
structure Text.IsOverlong (t : Text) : Prop where
  decimal : t.head? ≠ some (.scalar '0')
  length_gt : Number.digitLimit < t.length

theorem Text.isOverlong_iff {t : Text} :
    t.IsOverlong ↔ t.head? ≠ some (.scalar '0') ∧ Number.digitLimit < t.length :=
  ⟨fun h => ⟨h.decimal, h.length_gt⟩, fun h => ⟨h.1, h.2⟩⟩

/-- So many digits without a zero in front stand for so large a number. -/
theorem Digits.pow_le {t : Text} {n : Nat} (h : Digits 10 t n) (hne : t ≠ [])
    (hzero : t.head? ≠ some (.scalar '0')) : Nat.pow 10 (t.length - 1) ≤ n := by
  induction h with
  | nil => exact absurd rfl hne
  | @snoc t n d p h hp ih =>
    cases t with
    | nil =>
      have hpos : d ≠ 0 := by
        rintro rfl
        exact hzero (congrArg some (CodePoint.eq_zero_of_digit? hp))
      show 1 ≤ n * 10 + d
      omega
    | cons q t =>
      have hfront := ih (List.cons_ne_nil q t) (by simpa using hzero)
      calc Nat.pow 10 ((q :: t ++ [p]).length - 1)
          = Nat.pow 10 ((q :: t).length - 1) * 10 := by simp [Nat.pow_succ]
        _ ≤ n * 10 := Nat.mul_le_mul_right 10 hfront
        _ ≤ n * 10 + d := Nat.le_add_right _ _

/-- An overlong numeral stands for more than a word. -/
theorem Digits.wordCount_le {t : Text} {n : Nat} (h : Digits 10 t n) (ht : t.IsOverlong) :
    wordCount ≤ n := by
  have hlength := ht.length_gt
  have hne : t ≠ [] := by
    rintro rfl
    cases hlength
  have htwenty : 20 ≤ t.length - 1 := by
    unfold Number.digitLimit at hlength
    omega
  calc wordCount ≤ Nat.pow 10 20 := by decide
    _ ≤ Nat.pow 10 (t.length - 1) := Nat.pow_le_pow_right (by decide) htwenty
    _ ≤ n := h.pow_le hne ht.decimal

/-- A token is an integer that is overlong. -/
def Token.IsOverlong (t : Token) : Prop :=
  (∃ n, t.kind = .integer n) ∧ t.lexeme.IsOverlong

/-- A text holds an integer that is overlong. -/
def Text.HasOverlong (source : Text) : Prop :=
  ∃ t ∈ (scan source).tokens, t.IsOverlong

/-- The faults of a string. -/
def LexicalError.isOfString : LexicalError → Bool
  | unterminatedString | unknownEscape _ | illegalEscapeCharacter | invalidCodePoint => true
  | _ => false

namespace Literal

theorem isOfString_numericEscape {form : NumericForm} {opening c : Cursor} :
    ∀ r ∈ (numericEscape form opening c).reports, r.cause.isOfString = true := by
  refine List.forall_mem_append.2 ⟨?_, ?_⟩
  · split
    · exact List.forall_mem_nil _
    · exact List.forall_mem_singleton.2 rfl
  · split
    · exact List.forall_mem_nil _
    · exact List.forall_mem_singleton.2 rfl

theorem isOfString_escape {opening c : Cursor} :
    ∀ r ∈ (escape opening c).reports, r.cause.isOfString = true := by
  unfold escape
  split
  · exact List.forall_mem_singleton.2 rfl
  · split
    · exact List.forall_mem_nil _
    · exact isOfString_numericEscape
    · split
      · exact isOfString_numericEscape
      · split <;> exact List.forall_mem_singleton.2 rfl

/-- What is reported on a string says nothing about other tokens. -/
theorem isOfString_stringBody {opening c : Cursor} :
    ∀ r ∈ (stringBody opening c).reports, r.cause.isOfString = true := by
  fun_induction stringBody opening c with
  | case1 here => exact List.forall_mem_singleton.2 rfl
  | case2 here p rest => exact List.forall_mem_singleton.2 rfl
  | case3 here p rest => exact List.forall_mem_nil _
  | case4 here p rest c after _ _ _ first others ih =>
    exact List.forall_mem_append.2 ⟨isOfString_escape, ih⟩
  | case5 here p rest after _ _ _ others ih => exact ih

/-- What is reported on an integer shows its lexeme. -/
theorem cause_of_mem_integer {opening : Cursor} :
    ∀ r ∈ (integer opening).reports,
      r.cause = .invalidInteger (opening.textTo (integer opening).after) := by
  unfold integer
  dsimp only
  split
  · exact List.forall_mem_singleton.2 rfl
  · exact List.forall_mem_nil _

end Literal

/-- What starts with no digit is no integer, and is not reported as one. -/
theorem tokenKind_of_not_isDigit {p : CodePoint} (hp : ¬ p.isDigit) (opening : Cursor) :
    (∀ n, (tokenKind opening p).value ≠ .integer n) ∧
      ∀ r ∈ (tokenKind opening p).reports, ∀ t, r.cause ≠ .invalidInteger t := by
  apply tokenKind_cases p (motive := fun read =>
    (∀ n, (read opening).value ≠ .integer n) ∧
      ∀ r ∈ (read opening).reports, ∀ t, r.cause ≠ .invalidInteger t)
  all_goals dsimp only
  case name => exact fun _ => ⟨nofun, nofun⟩
  case integer => exact fun hdigit => absurd hdigit hp
  case string =>
    refine fun _ => ⟨nofun, fun r hr t ht => ?_⟩
    have hstring := Literal.isOfString_stringBody r hr
    rw [ht] at hstring
    cases hstring
  case segment =>
    intro kind hkind
    rw [Literal.reports_segment]
    rcases hkind.kind_eq with rfl | rfl <;> exact ⟨nofun, nofun⟩
  case double =>
    intro mark alone halone
    unfold doubled
    dsimp only
    split
    · exact ⟨nofun, nofun⟩
    · rcases halone with ⟨-, -, rfl⟩ | ⟨-, -, rfl⟩
      · exact ⟨nofun, List.forall_mem_singleton.2 nofun⟩
      · exact ⟨nofun, List.forall_mem_singleton.2 nofun⟩
  case single =>
    intro kind hkind
    rcases singleMark_cases hkind with rfl | ⟨mark, rfl⟩ <;> exact ⟨nofun, nofun⟩
  case pair =>
    intro alone withEquals _
    split <;> exact ⟨nofun, nofun⟩
  case invalid => exact ⟨nofun, List.forall_mem_singleton.2 nofun⟩

theorem Literal.after_ofNumeral (here : Location) (t : Text) (n : Nat) (rest : Text) :
    (ofNumeral here t n rest).after = ⟨here.past t, rest⟩ := by
  unfold ofNumeral
  split <;> rfl

section Integers

variable {here : Location} {p : CodePoint} {rest t after : Text} {base n : Nat} {source : Text}

/-- A numeral is the lexeme of the token that starts with it. -/
theorem tokenAt_of_numeral (here : Location) (h : Numeral base t n) (hrest : p :: rest = t ++ after)
    (hafter : ∀ q, after.head? = some q → q.digit? base = none)
    (hx : t = [.scalar '0'] → ∀ q, after.head? = some q → q.isIn ['x', 'X'] = false) :
    tokenAt ⟨here, p :: rest⟩ p =
        ⟨.integer (Literal.ofNumeral here t n after).value, t, ⟨here, here.past t⟩⟩ ∧
      (tokenKind ⟨here, p :: rest⟩ p).reports = (Literal.ofNumeral here t n after).reports := by
  obtain ⟨q, u, rfl, hq⟩ := h.exists_head
  obtain rfl : p = q := (List.cons.inj hrest).1
  rw [tokenAt, hrest, tokenKind_of_isDigit hq, Literal.integer_of_numeral h hafter hx]
  dsimp only
  rw [Literal.after_ofNumeral, Cursor.textTo_past, Cursor.spanTo]
  exact ⟨rfl, rfl⟩

/-- An integer that is overlong is reported. -/
theorem report_of_isOverlong (h : (tokenAt ⟨here, p :: rest⟩ p).IsOverlong) :
    ∃ r ∈ (tokenKind ⟨here, p :: rest⟩ p).reports,
      r.cause = .invalidInteger (tokenAt ⟨here, p :: rest⟩ p).lexeme := by
  obtain ⟨⟨n, hn⟩, hlong⟩ := h
  have hp : p.isDigit := by
    by_contra hp
    exact (tokenKind_of_not_isDigit hp _).1 n hn
  rcases Literal.exists_numeral_ahead hp rest with
    ⟨base, t, n, after, hrest, hnumeral, hafter, hx⟩ | ⟨x, after, rfl, -⟩
  · obtain ⟨htoken, hreports⟩ := tokenAt_of_numeral here hnumeral hrest hafter hx
    rw [htoken] at hlong ⊢
    cases hnumeral with
    | decimal h =>
      rw [hreports, Literal.ofNumeral, if_pos (h.wordCount_le hlong)]
      exact ⟨_, List.mem_singleton_self _, rfl⟩
    | hexadecimal | octal => exact absurd rfl hlong.decimal
  · -- a lexeme that starts with a zero is not overlong
    have hlexeme : (tokenAt ⟨here, .scalar '0' :: rest⟩ (.scalar '0')).lexeme ≠ [] := by
      intro hnil
      have hlength := hlong.length_gt
      rw [hnil] at hlength
      cases hlength
    refine absurd ?_ hlong.decimal
    unfold tokenAt Cursor.textTo at hlexeme ⊢
    dsimp only at hlexeme ⊢
    generalize (tokenKind ⟨here, .scalar '0' :: rest⟩ (.scalar '0')).after.here.offset -
      here.offset = k at hlexeme ⊢
    cases k with
    | zero => exact absurd rfl hlexeme
    | succ k => rfl

/-- A text holds an overlong integer exactly if one is reported. -/
theorem hasOverlong_iff : source.HasOverlong ↔
    ∃ r ∈ (scan source).reports, ∃ t : Text, r.cause = .invalidInteger t ∧ t.IsOverlong := by
  constructor
  · rintro ⟨token, htoken, hlong⟩
    rcases mem_tokens_scanFrom htoken with ⟨here, -, rfl⟩ | ⟨here, p, rest, -, rfl, hreports⟩
    · obtain ⟨⟨n, hn⟩, -⟩ := hlong
      cases hn
    · obtain ⟨r, hr, hcause⟩ := report_of_isOverlong hlong
      exact ⟨r, hreports hr, _, hcause, hlong.2⟩
  · rintro ⟨r, hr, t, hcause, hlong⟩
    obtain ⟨here, p, rest, -, htoken, hr⟩ := mem_reports_scanFrom hr
    have hp : p.isDigit := by
      by_contra hp
      exact (tokenKind_of_not_isDigit hp _).2 r hr t hcause
    refine ⟨_, htoken, ⟨(Literal.integer ⟨here, p :: rest⟩).value, ?_⟩, ?_⟩
    · rw [tokenAt, tokenKind_of_isDigit hp]
    · rw [tokenKind_of_isDigit hp] at hr
      have hshown := Literal.cause_of_mem_integer r hr
      rw [hcause] at hshown
      rw [tokenAt, tokenKind_of_isDigit hp]
      exact LexicalError.invalidInteger.inj hshown ▸ hlong

end Integers

section Ones

variable {count : Nat}

end Ones

/-! ## Tokenizing -/

section Tokenizing

variable {source : Text} {s : Scan}

/-- A token cannot be made if it is a string that cannot be sent, or an integer that is overlong. -/
theorem Token.breakage?_cases (t : Token) :
    t.breakage? = none ∧ (∀ v, t.kind = .string v → v.isEncodable = true) ∧ ¬ t.IsOverlong ∨
      t.breakage? = some .unencodable ∧ (∃ v, t.kind = .string v ∧ v.isEncodable = false) ∨
      t.breakage? = some (.tooManyDigits t.lexeme.length) ∧ t.IsOverlong := by
  unfold breakage? IsOverlong
  cases t.kind with
  | string value =>
    cases hvalue : value.isEncodable with
    | true => simp [hvalue]
    | false => simp [hvalue]
  | integer n =>
    by_cases hlong : t.lexeme.IsOverlong
    · have htest := Text.isOverlong_iff.1 hlong
      exact Or.inr (Or.inr ⟨by simp [Literal.integerBreakage?, htest], ⟨n, rfl⟩, hlong⟩)
    · have htest := mt Text.isOverlong_iff.2 hlong
      refine Or.inl ⟨if_neg ?_, nofun, fun h => hlong h.2⟩
      simpa using htest
  | _ => exact Or.inl ⟨rfl, nofun, fun h => nomatch h.1⟩

theorem Token.breakage?_eq_none_iff {t : Token} : t.breakage? = none ↔
    (∀ v, t.kind = .string v → v.isEncodable = true) ∧ ¬ t.IsOverlong := by
  rcases t.breakage?_cases with ⟨h, hmade⟩ | ⟨h, v, hv, hfalse⟩ | ⟨h, hlong⟩
  · exact ⟨fun _ => hmade, fun _ => h⟩
  · rw [h]
    exact ⟨nofun, fun hmade => by simp [hmade.1 v hv] at hfalse⟩
  · rw [h]
    exact ⟨nofun, fun hmade => absurd hlong hmade.2⟩

theorem tokenize_eq_ok_iff_breakage? : tokenize source = .ok s ↔
    s = scan source ∧ (scan source).breakage? = none := by
  rw [tokenize, Scan.check]
  cases (scan source).breakage? with
  | none => simp [eq_comm]
  | some cause => simp

/-- A text has its tokens if all its strings can be sent and none of its integers is overlong. -/
theorem tokenize_eq_ok_iff : tokenize source = .ok s ↔
    s = scan source ∧ (scan source).isEncodable = true ∧ ¬ source.HasOverlong := by
  rw [tokenize_eq_ok_iff_breakage?, Scan.breakage?, List.findSome?_eq_none_iff,
    Scan.isEncodable_iff, Text.HasOverlong]
  simp only [Token.breakage?_eq_none_iff]
  grind

/-- A text that is scanned without a report has its tokens if its strings can be sent. -/
theorem tokenize_of_reports (hencodable : (scan source).isEncodable)
    (hreports : (scan source).reports = []) : tokenize source = .ok (scan source) := by
  refine tokenize_eq_ok_iff.2 ⟨rfl, hencodable, fun hlong => ?_⟩
  obtain ⟨r, hr, -⟩ := hasOverlong_iff.1 hlong
  rw [hreports] at hr
  cases hr

end Tokenizing

end WireScript
