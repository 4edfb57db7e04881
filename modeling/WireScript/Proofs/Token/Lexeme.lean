import WireScript.Proofs.Token.Element

/-!
# What a token is read from

A token without a report is a piece of text of a certain form, and what stands behind it matters
only in so far as it could continue the token.

* `Lexeme rest k t` says that `t` has the form of a token of a kind, and that `rest` does not
  continue it.  `Lexeme.scans` says that this token is scanned from it.
* Only the first code point of `rest` has a say in this (`Lexeme.of_prefix`), and a space continues
  nothing but the last segment of a template (`Lexeme.before_space`).  White space at the end of a
  token is such a segment's, or in front of the end of the line (`Lexeme.dropTrailing`).
* Every token without a report is read from a lexeme (`exists_lexeme_ahead`).
-/

namespace WireScript

open Literal

variable {here : Location} {p : CodePoint} {t u rest rest' : Text} {k : TokenKind}
  {kind : Text → Bool → TokenKind}

/-! ## Lexemes -/

/-- Whether a sign and an equals sign behind it make another sign. -/
def Mark.takesEquals : Mark → Bool
  | .assign | .not | .less | .greater => true
  | _ => false

/-- A text that a token of the kind is read from when the rest stands behind it. -/
inductive Lexeme (rest : Text) : TokenKind → Text → Prop where
  | name {x : Text} (hx : x.IsName) (hrest : rest.IsApart) : Lexeme rest (.name x) x
  | integer {base n : Nat} {t : Text} (h : Numeral base t n) (hn : n < wordCount)
      (hrest : ∀ p, rest.head? = some p → p.digit? base = none)
      (hx : t = [.scalar '0'] → ∀ p, rest.head? = some p → p.isIn ['x', 'X'] = false) :
      Lexeme rest (.integer (signed n)) t
  | string {t : Text} {bytes : List UInt8} (h : Spells t bytes) :
      Lexeme rest (.string (Utf8.decode bytes)) t.inQuotes
  /-- A segment with an expression behind it. -/
  | embed {p : CodePoint} {kind : Text → Bool → TokenKind} {t : Text} (hp : OpensSegment p kind)
      (ht : ∀ q ∈ t, inSegment q = true) : Lexeme rest (kind t true) (p :: (t ++ [.scalar '{']))
  /-- The last segment of a template, which goes to the end of the line. -/
  | finish {p : CodePoint} {kind : Text → Bool → TokenKind} {t : Text} (hp : OpensSegment p kind)
      (ht : ∀ q ∈ t, inSegment q = true) (hrest : ∀ q, rest.head? = some q → q = .scalar '\n') :
      Lexeme rest (kind (withoutReturn t) false) (p :: t)
  | mark (m : Mark) (hrest : m.takesEquals = true → rest.head? ≠ some (.scalar '=')) :
      Lexeme rest (.mark m) m.spelling
  | newline : Lexeme rest .newline [.scalar '\n']

namespace TokenKind

/-- Whether a token ends a template. -/
def endsTemplate : TokenKind → Bool
  | .templateStart _ continues | .templatePart _ continues => !continues
  | _ => false

/-- Whether a token is a segment whose text ends in white space. -/
def endsInBlank : TokenKind → Bool
  | .templateStart text _ | .templatePart text _ => text.getLast?.any CodePoint.isBlank
  | _ => false

end TokenKind

namespace CodePoint

/-- Letters and digits are no white space. -/
theorem not_isBlank_of_isLetter_or_isDigit (h : (p.isLetter || p.isDigit) = true) :
    p.isBlank = false := by
  rw [Bool.eq_false_iff]
  intro hblank
  simp only [isLetter, isDigit, isBlank, Bool.or_eq_true, Bool.and_eq_true, decide_eq_true_eq,
    beq_iff_eq] at h hblank
  omega

theorem not_isBlank_of_digit? {base : Nat} (hbase : base ≤ 16) (h : (p.digit? base).isSome = true) :
    p.isBlank = false := by
  have hvalue : p.digitValue ≠ 16 := by
    intro hvalue
    rw [Literal.digit?_eq_none hbase hvalue] at h
    cases h
  rw [Bool.eq_false_iff]
  intro hblank
  simp only [isBlank, Bool.or_eq_true, Bool.and_eq_true, decide_eq_true_eq, beq_iff_eq] at hblank
  apply hvalue
  rw [digitValue, if_neg (by omega), if_neg (by omega), if_neg (by omega)]

end CodePoint

/-- Nothing in a numeral is white space. -/
theorem Numeral.not_isBlank {base n : Nat} (h : Numeral base t n) :
    ∀ p ∈ t, p.isBlank = false := by
  have hdigits {base n : Nat} {t : Text} (hbase : base ≤ 16) (h : Digits base t n) :
      ∀ p ∈ t, p.isBlank = false :=
    fun p hp => CodePoint.not_isBlank_of_digit? hbase (h.isSome_digit? p hp)
  cases h with
  | decimal h => exact hdigits (by decide) h
  | hexadecimal hx h =>
    refine List.forall_mem_cons.2 ⟨rfl, List.forall_mem_cons.2 ⟨?_, hdigits (by decide) h⟩⟩
    rcases CodePoint.eq_of_isIn_pair hx with rfl | rfl <;> rfl
  | octal h => exact List.forall_mem_cons.2 ⟨rfl, hdigits (by decide) h⟩

theorem tokenKind_pair {alone withEquals : Mark} (h : equalsPair p = some (alone, withEquals))
    (opening : Cursor) :
    tokenKind opening p =
      if opening.next.peek == some (.scalar '=') then ⟨.mark withEquals, [], opening.next.next⟩
      else ⟨.mark alone, [], opening.next⟩ := by
  unfold equalsPair at h
  split at h <;> cases h <;> rfl

namespace Lexeme

/-- Nothing continues a sign that is none with an equals sign behind it. -/
theorem ofMark (m : Mark) (h : m.takesEquals = false) : Lexeme rest (.mark m) m.spelling :=
  .mark m fun htakes => absurd (h.symm.trans htakes) Bool.false_ne_true

/-- A token starts with something visible, unless it is the end of a line. -/
theorem exists_head (h : Lexeme rest k t) :
    ∃ p u, t = p :: u ∧ isSpacing p = false ∧ (k ≠ .newline → p.isBlank = false) := by
  cases h with
  | name hx =>
    cases t with
    | nil => exact absurd hx id
    | cons p u =>
      have hp : p.isBlank = false :=
        CodePoint.not_isBlank_of_isLetter_or_isDigit (by rw [hx.1]; rfl)
      exact ⟨p, u, rfl, not_isSpacing_of CodePoint.isLetter hx.1 (by decide), fun _ => hp⟩
  | integer h =>
    obtain ⟨p, u, rfl, hdigit⟩ := h.exists_head
    have hp : p.isBlank = false :=
      CodePoint.not_isBlank_of_isLetter_or_isDigit (by rw [hdigit, Bool.or_true])
    exact ⟨p, u, rfl, not_isSpacing_of CodePoint.isDigit hdigit (by decide), fun _ => hp⟩
  | string h => exact ⟨_, _, rfl, rfl, fun _ => rfl⟩
  | embed hp | finish hp => cases hp <;> exact ⟨_, _, rfl, rfl, fun _ => rfl⟩
  | mark m => cases m <;> exact ⟨_, _, rfl, rfl, fun _ => rfl⟩
  | newline => exact ⟨_, _, rfl, rfl, fun h => absurd rfl h⟩

/-- A token is read from its lexeme. -/
theorem read (h : Lexeme rest k (p :: u)) (here : Location) :
    tokenKind ⟨here, p :: (u ++ rest)⟩ p = ⟨k, [], ⟨here.past (p :: u), rest⟩⟩ := by
  generalize ht : p :: u = t at h
  cases h with
  | name hx hrest =>
    subst ht
    exact tokenKind_name hx hrest
  | integer h hn hrest hx =>
    subst ht
    have hread : Literal.integer ⟨here, p :: u ++ rest⟩ = _ := integer_of_numeral h hrest hx
    obtain ⟨q, v, hq, hdigit⟩ := h.exists_head
    cases hq
    rw [ofNumeral, if_neg (Nat.not_le.2 hn), List.cons_append] at hread
    rw [tokenKind_of_isDigit hdigit, hread]
  | string h =>
    cases ht
    have hread := (tokenAt_inQuotes h here rest).1
    rwa [List.append_cons] at hread
  | embed hp ht' =>
    cases ht
    rw [List.append_assoc, hp.tokenKind_eq, segment_brace rfl ht']
    simp [Location.past_append]
  | finish hp ht' hrest =>
    cases ht
    rw [hp.tokenKind_eq, segment_finish rfl ht' hrest]
    rfl
  | mark m hrest =>
    cases m with
    | assign | not | less | greater =>
      cases ht
      exact (tokenKind_pair rfl _).trans
        (if_neg (by simpa [Cursor.peek, Cursor.next] using hrest rfl))
    | _ =>
      cases ht
      rfl
  | newline =>
    cases ht
    rfl

theorem tokenAt_eq (h : Lexeme rest k (p :: u)) (here : Location) :
    tokenAt ⟨here, p :: (u ++ rest)⟩ p = ⟨k, p :: u, ⟨here, here.past (p :: u)⟩⟩ := by
  have hlexeme := Cursor.textTo_past here (p :: u) rest
  rw [List.cons_append] at hlexeme
  rw [tokenAt, h.read here, hlexeme]
  rfl

/-- Where a lexeme stands, its token is scanned. -/
theorem scans (h : Lexeme rest k t) (here : Location) :
    Cursor.Scans ⟨here, t ++ rest⟩ [⟨k, t, ⟨here, here.past t⟩⟩] [] ⟨here.past t, rest⟩ := by
  obtain ⟨p, u, rfl, hp, -⟩ := h.exists_head
  have hskip : Cursor.skip isSpacing ⟨here, p :: (u ++ rest)⟩ = ⟨here, p :: (u ++ rest)⟩ := by
    simp [Cursor.skip, Cursor.read, hp]
  have hscan := scanFrom_of_skip_cons hskip
  rwa [h.tokenAt_eq here, h.read here] at hscan

/-- Only the first code point behind a token can continue it. -/
theorem of_prefix (h : Lexeme rest k t) (hleading : rest' <+: rest) : Lexeme rest' k t := by
  have hhead : ∀ p, rest'.head? = some p → rest.head? = some p := by
    intro p hp
    obtain ⟨more, rfl⟩ := hleading
    rw [List.head?_append, hp, Option.some_or]
  cases h with
  | name hx hrest => exact .name hx fun p hp => hrest p (hhead p hp)
  | integer h hn hrest hx =>
    exact .integer h hn (fun p hp => hrest p (hhead p hp)) fun ht p hp => hx ht p (hhead p hp)
  | string h => exact .string h
  | embed hp ht => exact .embed hp ht
  | finish hp ht hrest => exact .finish hp ht fun p hp => hrest p (hhead p hp)
  | mark m hrest => exact .mark m fun hm hequals => hrest hm (hhead _ hequals)
  | newline => exact .newline

/-- A token ends with something visible, unless it goes to the end of a line. -/
theorem not_isBlank_of_getLast? (h : Lexeme rest k t) (hline : k ≠ .newline)
    (hk : k.endsTemplate = false) : ∀ p, t.getLast? = some p → p.isBlank = false := by
  intro p hp
  cases h with
  | name hx =>
    cases t with
    | nil => exact absurd hx id
    | cons q u =>
      have hall : ∀ r ∈ q :: u, (r.isLetter || r.isDigit) = true :=
        List.forall_mem_cons.2 ⟨by rw [hx.1]; rfl, hx.2⟩
      exact CodePoint.not_isBlank_of_isLetter_or_isDigit (hall p (List.mem_of_getLast? hp))
  | integer h => exact h.not_isBlank p (List.mem_of_getLast? hp)
  | @string t =>
    rw [Text.inQuotes, ← List.cons_append, List.getLast?_concat] at hp
    exact Option.some.inj hp ▸ rfl
  | embed =>
    rw [← List.cons_append, List.getLast?_concat] at hp
    exact Option.some.inj hp ▸ rfl
  | finish hopens => cases hopens <;> cases hk
  | mark m =>
    have hmark : ∀ r ∈ (m.spelling : Text), r.isBlank = false := by cases m <;> decide
    exact hmark p (List.mem_of_getLast? hp)
  | newline => exact absurd rfl hline

/-- The last segment of a template without the white space behind it. -/
theorem finish_dropTrailing (hp : OpensSegment p kind) (ht : ∀ q ∈ t, inSegment q = true)
    (hvisible : ∀ q, (withoutReturn t).getLast? = some q → q.isBlank = false) :
    Lexeme [] (kind (withoutReturn t) false) (Text.dropTrailing CodePoint.isBlank (p :: t)) := by
  obtain ⟨returns, hsplit, hreturns⟩ := exists_withoutReturn t
  have hshort : Text.dropTrailing CodePoint.isBlank (p :: t) = p :: withoutReturn t := by
    have hblank : ∀ q ∈ returns, q.isBlank = true := fun q hq => hreturns q hq ▸ rfl
    have hend : ∀ q, (p :: withoutReturn t).getLast? = some q → q.isBlank = false := by
      intro q hq
      rw [List.getLast?_cons] at hq
      cases hlast : (withoutReturn t).getLast? with
      | none =>
        rw [hlast] at hq
        cases hp <;> exact Option.some.inj hq ▸ rfl
      | some r =>
        rw [hlast] at hq
        exact Option.some.inj hq ▸ hvisible r hlast
    calc Text.dropTrailing CodePoint.isBlank (p :: t)
        = Text.dropTrailing CodePoint.isBlank (p :: withoutReturn t ++ returns) := by
          rw [List.cons_append, ← hsplit]
      _ = Text.dropTrailing CodePoint.isBlank (p :: withoutReturn t) :=
          Text.dropTrailing_append _ hblank
      _ = p :: withoutReturn t := Text.dropTrailing_of_getLast? hend
  have hsegment : ∀ q ∈ withoutReturn t, inSegment q = true := by
    rw [hsplit] at ht
    exact fun q hq => ht q (List.mem_append_left _ hq)
  have hnot : (withoutReturn t).getLast? ≠ some (.scalar '\r') := fun hlast =>
    nomatch hvisible _ hlast
  have hlexeme : Lexeme [] _ _ := .finish hp hsegment fun _ hq => nomatch hq
  rwa [withoutReturn_of_getLast? hnot, ← hshort] at hlexeme

/-- A token without the white space behind it, unless that belongs to a template. -/
theorem dropTrailing (h : Lexeme rest k t) (hline : k ≠ .newline) (hk : k.endsInBlank = false) :
    Lexeme [] k (t.dropTrailing CodePoint.isBlank) := by
  by_cases hends : k.endsTemplate = true
  · cases h with
    | finish hp ht =>
      refine finish_dropTrailing hp ht fun q hq => ?_
      cases hp <;> simpa [TokenKind.endsInBlank, hq] using hk
    | embed hp => cases hp <;> cases hends
    | _ => cases hends
  · have hvisible := h.not_isBlank_of_getLast? hline (Bool.eq_false_iff.2 hends)
    rw [Text.dropTrailing_of_getLast? hvisible]
    exact h.of_prefix List.nil_prefix

/-- A space continues no token but the last segment of a template. -/
theorem before_space (h : Lexeme rest k t) (hk : k.endsTemplate = false) (more : Text) :
    Lexeme (.scalar ' ' :: more) k t := by
  cases h with
  | name hx => exact .name hx (by rintro p ⟨⟩; rfl)
  | integer h hn =>
    refine .integer h hn ?_ (by rintro - p ⟨⟩; rfl)
    rintro p ⟨⟩
    exact digit?_eq_none h.base_le rfl
  | string h => exact .string h
  | embed hp ht => exact .embed hp ht
  | finish hp => cases hp <;> cases hk
  | mark m => exact .mark m fun _ => by simp
  | newline => exact .newline

end Lexeme

/-! ## What a token without a report is read from -/

namespace Literal

/-- An integer without a report is a numeral that fits into a word. -/
theorem exists_numeral (hp : p.isDigit = true) (h : (integer ⟨here, p :: rest⟩).reports = []) :
    ∃ t after n, p :: rest = t ++ after ∧ Lexeme after (.integer (signed n)) t := by
  rcases exists_numeral_ahead hp rest with
    ⟨base, t, n, after, hrest, hnumeral, hafter, hx⟩ | ⟨x, after, rfl, rfl, hx, hafter⟩
  · rw [hrest, integer_of_numeral hnumeral hafter hx] at h
    have hn : n < wordCount := by
      by_contra hn
      rw [ofNumeral, if_pos (Nat.not_lt.1 hn)] at h
      cases h
    exact ⟨t, after, n, hrest, .integer hnumeral hn hafter hx⟩
  · have hnone : after.takeWhile (fun q => (q.digit? 16).isSome) = [] := by
      cases after with
      | nil => rfl
      | cons q after => simp [hafter q rfl]
    simp [integer, integerBody, Cursor.peek, Cursor.next, Cursor.read, hx, hnone] at h

end Literal

/-- A token without a report starts with a text that it is read from, if it can be sent. -/
theorem exists_lexeme_ahead (hreports : (tokenKind ⟨here, p :: rest⟩ p).reports = [])
    (hencodable : ∀ v, (tokenKind ⟨here, p :: rest⟩ p).value = .string v → v.isEncodable) :
    ∃ k t after, p :: rest = t ++ after ∧ Lexeme after k t := by
  revert hreports hencodable
  apply tokenKind_cases p (motive := fun read => (read ⟨here, p :: rest⟩).reports = [] →
    (∀ v, (read ⟨here, p :: rest⟩).value = .string v → v.isEncodable) →
    ∃ k t after, p :: rest = t ++ after ∧ Lexeme after k t)
  all_goals dsimp only
  case name =>
    intro hp _ _
    obtain ⟨x, after, rfl, hx, hafter⟩ :=
      Text.exists_stretch (fun p => p.isLetter || p.isDigit) rest
    exact ⟨_, p :: x, after, rfl, .name ⟨hp, hx⟩ hafter⟩
  case integer =>
    intro hp hreports _
    obtain ⟨t, after, n, hrest, hlexeme⟩ := exists_numeral hp hreports
    exact ⟨_, t, after, hrest, hlexeme⟩
  case string =>
    intro hp hreports hencodable
    obtain rfl : p = .scalar '"' := beq_iff_eq.1 hp
    have hvalue := hencodable _ rfl
    rw [Literal.string, Text.isEncodable_getD_canonical] at hvalue
    obtain ⟨t, bytes, after, ht, hrest⟩ := exists_spells hvalue hreports
    obtain rfl : rest = t ++ .scalar '"' :: after := hrest
    exact ⟨_, t.inQuotes, after, by simp [Text.inQuotes], .string ht⟩
  case segment =>
    intro kind hkind _ _
    obtain ⟨t, after, rfl, ht, hafter⟩ := Text.exists_stretch inSegment rest
    by_cases hbrace : after.head? = some (.scalar '{')
    · obtain ⟨after, rfl⟩ := List.head?_eq_some_iff.1 hbrace
      exact ⟨_, p :: (t ++ [.scalar '{']), after, by simp, .embed hkind ht⟩
    · refine ⟨_, p :: t, after, rfl, .finish hkind ht fun q hq => ?_⟩
      have hq' : q ≠ .scalar '{' := by
        rintro rfl
        exact hbrace hq
      simpa [inSegment, CodePoint.isIn, CodePoint.is, hq'] using hafter q hq
  case double =>
    intro m alone hmark hreports _
    have hpeek : rest.head? = some p := by
      by_contra hpeek
      simp [doubled, Cursor.peek, Cursor.next, hpeek] at hreports
    obtain ⟨after, rfl⟩ := List.head?_eq_some_iff.1 hpeek
    rcases hmark with ⟨rfl, rfl, -⟩ | ⟨rfl, rfl, -⟩
    · exact ⟨_, _, after, rfl, .ofMark .and rfl⟩
    · exact ⟨_, _, after, rfl, .ofMark .or rfl⟩
  case single =>
    intro kind hkind _ _
    refine ⟨kind, [p], rest, rfl, ?_⟩
    unfold singleMark at hkind
    split at hkind <;> cases hkind
    case h_1 => exact .newline
    all_goals exact .ofMark _ rfl
  case pair =>
    intro alone withEquals hpair _ _
    by_cases hpeek : rest.head? = some (.scalar '=')
    · obtain ⟨after, rfl⟩ := List.head?_eq_some_iff.1 hpeek
      refine ⟨.mark withEquals, [p, .scalar '='], after, rfl, ?_⟩
      unfold equalsPair at hpair
      split at hpair <;> cases hpair
      all_goals exact .ofMark _ rfl
    · refine ⟨.mark alone, [p], rest, rfl, ?_⟩
      unfold equalsPair at hpair
      split at hpair <;> cases hpair
      all_goals exact .mark _ fun _ => hpeek
  case invalid => exact fun hreports => absurd hreports (List.cons_ne_nil _ _)

end WireScript
