import WireScript.Proofs.Token.Numeral
import WireScript.Proofs.Token.Quotation

/-!
# Spelling

Tokens that are written with spaces between them are scanned back (`scans_words`): each one as it
is, and nothing is reported.

Names are written as they are, integers in decimal without a sign, strings as literals and marks as
always.  A token reaches as far as its spelling because a space, or the end of the text, follows it.

`Cursor.Scans` says what is scanned between two cursors.  It keeps the text ahead in view,
so that what is scanned piece by piece is scanned as a whole (`Cursor.Scans.trans`).
-/

namespace WireScript

/-! ## Writing -/

/-- A letter, and letters and digits behind it. -/
def Text.IsName : Text → Prop
  | [] => False
  | p :: t => p.isLetter ∧ ∀ q ∈ t, q.isLetter || q.isDigit

instance (x : Text) : Decidable x.IsName :=
  match x with
  | [] => inferInstanceAs (Decidable False)
  | _ :: _ => inferInstanceAs (Decidable (_ ∧ _))

namespace TokenKind

/-- A token as it is written.  The bits of an integer are written as those of a natural number. -/
def spelling : TokenKind → Text
  | .name x => x
  | .integer n => Text.ofNat (n % wordCount).toNat
  | .string t => t.literal
  | .mark m => m.spelling
  | _ => []

/-- Whether the token can be read from its spelling. -/
def IsWritten : TokenKind → Prop
  | .name x => x.IsName
  | .integer n => IsWord n
  | .string t => t.canonical = some t
  | .mark _ => True
  | _ => False

end TokenKind

variable {here : Location} {rest : Text} {k : TokenKind}

/-- What follows a word: nothing, or a space and more words. -/
def IsSeparated (rest : Text) : Prop :=
  rest = [] ∨ ∃ more, rest = .scalar ' ' :: more

/-! ## Reading one word -/

/-- A code point with a property that no spacing has is no spacing. -/
theorem not_isSpacing_of {p : CodePoint} (test : CodePoint → Bool) (hp : test p = true)
    (h : [' ', '\t', '\r'].all fun c => !test (.scalar c)) : isSpacing p = false := by
  rw [Bool.eq_false_iff]
  intro hspacing
  obtain ⟨c, hc, hpc⟩ := List.any_eq_true.1 hspacing
  have heq : p = .scalar c := by simpa [CodePoint.is] using hpc
  have hnot := List.all_eq_true.1 h c hc
  rw [← heq, hp] at hnot
  cases hnot

theorem IsSeparated.head (h : IsSeparated rest) {test : CodePoint → Bool}
    (htest : test (.scalar ' ') = false) : ∀ p, rest.head? = some p → test p = false := by
  intro p hp
  rcases h with rfl | ⟨more, rfl⟩
  · cases hp
  · cases hp
    exact htest

theorem signed_emod {n : Int} (hn : IsWord n) : signed (n % wordCount).toNat = n := by
  have hnonneg : 0 ≤ n % wordCount := Int.emod_nonneg n (by decide)
  have hlt : n % wordCount < wordCount := Int.emod_lt_of_pos n (by decide)
  rw [signed_eq_wrap (by omega), Int.toNat_of_nonneg hnonneg, wrap, Int.emod_bmod]
  exact wrap_of_isWord hn

/-- A name reaches as far as letters and digits do. -/
theorem tokenKind_name {p : CodePoint} {t : Text} (h : Text.IsName (p :: t))
    (hrest : rest.IsApart) :
    tokenKind ⟨here, p :: (t ++ rest)⟩ p =
      ⟨.name (p :: t), [], ⟨here.past (p :: t), rest⟩⟩ := by
  obtain ⟨hp, ht⟩ := h
  have hall : ∀ q ∈ p :: t, (q.isLetter || q.isDigit) = true :=
    List.forall_mem_cons.2 ⟨by rw [hp]; rfl, ht⟩
  have hname : Cursor.read _ ⟨here, p :: t ++ rest⟩ = p :: t ∧ _ :=
    Cursor.read_skip_append (fun q => q.isLetter || q.isDigit) hall hrest
  rw [List.cons_append] at hname
  rw [tokenKind, if_pos hp]
  simp only [hname]

/-- A word is read as the token that it spells. -/
theorem tokenKind_spelling (here : Location) (hk : k.IsWritten) (hrest : IsSeparated rest) :
    ∃ p t, k.spelling = p :: t ∧ isSpacing p = false ∧
      tokenKind ⟨here, p :: (t ++ rest)⟩ p = ⟨k, [], ⟨here.past (p :: t), rest⟩⟩ := by
  cases k with
  | invalid | endOfInput | newline | templateStart | templatePart => exact absurd hk id
  | name x =>
    cases x with
    | nil => exact absurd hk id
    | cons p t =>
      refine ⟨p, t, rfl, not_isSpacing_of CodePoint.isLetter hk.1 (by decide), ?_⟩
      exact tokenKind_name hk (hrest.head (by decide))
  | integer n =>
    obtain ⟨p, t, ht⟩ := List.exists_cons_of_ne_nil (Text.ofNat_ne_nil (n % wordCount).toNat)
    have hdigit : p.isDigit := Text.isDigit_of_mem_ofNat (ht ▸ List.mem_cons_self)
    refine ⟨p, t, ht, ?_, ?_⟩
    · exact not_isSpacing_of CodePoint.isDigit hdigit (by decide)
    · have hfits : (n % wordCount).toNat < wordCount := by
        have hlt : n % wordCount < wordCount := Int.emod_lt_of_pos n (by decide)
        have hnonneg : 0 ≤ n % wordCount := Int.emod_nonneg n (by decide)
        omega
      obtain ⟨base, hnumeral⟩ := Numeral.exists_ofNat (n % wordCount).toNat
      have hread : Literal.integer ⟨here, Text.ofNat _ ++ rest⟩ = _ :=
        Literal.integer_of_isApart hnumeral (hrest.head (by decide))
      rw [Literal.ofNumeral, if_neg (Nat.not_le.2 hfits), ht, signed_emod hk,
        List.cons_append] at hread
      rw [tokenKind_of_isDigit hdigit, hread]
  | string t =>
    refine ⟨_, _, rfl, rfl, ?_⟩
    have hread : Literal.string ⟨here, t.literal ++ rest⟩ = _ := Literal.string_literal hk
    rw [Text.literal, List.cons_append] at hread
    rw [tokenKind, if_neg (by decide), if_neg (by decide), if_pos (by decide)]
    simp only [hread]
  | mark m =>
    rcases hrest with rfl | ⟨more, rfl⟩
    · cases m <;> exact ⟨_, _, rfl, rfl, rfl⟩
    · cases m <;> exact ⟨_, _, rfl, rfl, rfl⟩

/-! ## Reading a segment -/

section Segments

variable {p : CodePoint} {t u : Text} {kind : Text → Bool → TokenKind}

theorem OpensSegment.tokenKind_eq (h : OpensSegment p kind) (opening : Cursor) :
    tokenKind opening p =
      ⟨kind (Literal.segment opening).value.text (Literal.segment opening).value.continues,
        (Literal.segment opening).reports, (Literal.segment opening).after⟩ := by
  cases h <;> rfl

theorem OpensSegment.not_isSpacing (h : OpensSegment p kind) : isSpacing p = false := by
  cases h <;> rfl

/-- Whether a code point belongs to a segment. -/
abbrev Literal.inSegment (p : CodePoint) : Bool := !p.isIn ['\n', '{']

/-- What is left of a segment at the end of a line, where a carriage return belongs to the end. -/
def Literal.withoutReturn (t : Text) : Text :=
  if t.getLast? == some (.scalar '\r') then t.dropLast else t

theorem Literal.withoutReturn_of_getLast? (h : t.getLast? ≠ some (.scalar '\r')) :
    withoutReturn t = t :=
  if_neg (by simpa using h)

theorem Literal.exists_withoutReturn (t : Text) :
    ∃ returns, t = withoutReturn t ++ returns ∧ ∀ p ∈ returns, p = .scalar '\r' := by
  unfold withoutReturn
  split
  · next hlast =>
    obtain ⟨u, rfl⟩ := List.getLast?_eq_some_iff.1 (beq_iff_eq.1 hlast)
    exact ⟨[.scalar '\r'], by rw [List.dropLast_concat], fun p => List.mem_singleton.1⟩
  · exact ⟨[], (List.append_nil t).symm, List.forall_mem_nil _⟩

/-- A segment in front of a brace. -/
theorem Literal.segment_brace {c : Cursor} (hnext : c.next = ⟨here, t ++ .scalar '{' :: u⟩)
    (ht : ∀ p ∈ t, inSegment p = true) :
    segment c = ⟨⟨t, true⟩, [], ⟨(here.past t).next (.scalar '{'), u⟩⟩ := by
  have hread : Cursor.read inSegment ⟨here, t ++ .scalar '{' :: u⟩ = t ∧ _ :=
    Cursor.read_skip_append inSegment ht (by rintro p ⟨⟩; rfl)
  simp only [segment, hnext, hread]
  rfl

/-- A segment in front of the end of a line, or of the input. -/
theorem Literal.segment_finish {c : Cursor} (hnext : c.next = ⟨here, t ++ u⟩)
    (ht : ∀ p ∈ t, inSegment p = true) (hu : ∀ p, u.head? = some p → p = .scalar '\n') :
    segment c = ⟨⟨withoutReturn t, false⟩, [], ⟨here.past t, u⟩⟩ := by
  have hread : Cursor.read inSegment ⟨here, t ++ u⟩ = t ∧ _ :=
    Cursor.read_skip_append inSegment ht fun p hp => by rw [hu p hp]; rfl
  have hpeek : ¬ (u.head? == some (.scalar '{')) = true := by
    intro hbrace
    exact absurd (hu _ (beq_iff_eq.1 hbrace)) (by decide)
  simp only [segment, hnext, hread, Cursor.peek]
  rw [if_neg hpeek]
  rfl

end Segments

/-! ## Scanning -/

/-- Tokens are scanned from one cursor to another, and reports are made on the way.  Scanning goes
on at the second cursor. -/
def Cursor.Scans (c : Cursor) (ts : List Token) (rs : List (Report LexicalError)) (d : Cursor) :
    Prop :=
  scanFrom c = ⟨ts ++ (scanFrom d).tokens, rs ++ (scanFrom d).reports⟩

namespace Cursor.Scans

variable {c d e : Cursor} {ts us : List Token} {rs qs : List (Report LexicalError)}
  {p : CodePoint} {s : Text}

theorem refl (c : Cursor) : c.Scans [] [] c := rfl

theorem trans (h : c.Scans ts rs d) (h' : d.Scans us qs e) :
    c.Scans (ts ++ us) (rs ++ qs) e := by
  rw [Scans, h, h', List.append_assoc, List.append_assoc]

/-- What is left at the end of a text is the end of the input. -/
theorem scanFrom_eq {stop : Location} (h : c.Scans ts rs ⟨stop, []⟩) :
    scanFrom c = ⟨ts ++ [.atEnd stop], rs⟩ := by
  have hend : scanFrom ⟨stop, []⟩ = ⟨[.atEnd stop], []⟩ := scanFrom_of_skip_nil rfl
  rw [h, hend, List.append_nil]

/-- White space makes no tokens. -/
theorem of_spacing (here : Location) (hs : ∀ p ∈ s, isSpacing p = true) (rest : Text) :
    Scans ⟨here, s ++ rest⟩ [] [] ⟨here.past s, rest⟩ := by
  have hskip : skip isSpacing ⟨here, s ++ rest⟩ = skip isSpacing ⟨here.past s, rest⟩ := by
    simp only [skip, read, List.takeWhile_append_of_pos hs, List.dropWhile_append_of_pos hs,
      Location.past_append]
  rw [Scans, scanFrom.eq_def ⟨here, s ++ rest⟩, scanFrom.eq_def ⟨here.past s, rest⟩]
  split <;> split <;> simp_all

theorem of_space (here : Location) (rest : Text) :
    Scans ⟨here, .scalar ' ' :: rest⟩ [] [] ⟨here.next (.scalar ' '), rest⟩ := by
  have hspace : ∀ p ∈ ([.scalar ' '] : Text), isSpacing p = true := by decide
  exact of_spacing here hspace rest

/-- A code point that is no white space starts a token. -/
theorem of_tokenKind (hp : isSpacing p = false)
    (h : tokenKind ⟨here, p :: rest⟩ p = ⟨k, rs, d⟩) :
    ∃ t : Token, t.kind = k ∧ Scans ⟨here, p :: rest⟩ [t] rs d := by
  have hskip : skip isSpacing ⟨here, p :: rest⟩ = ⟨here, p :: rest⟩ := by
    simp [skip, read, hp]
  have hscan := scanFrom_of_skip_cons hskip
  rw [h] at hscan
  exact ⟨_, congrArg Reading.value h, hscan⟩

/-- A word is scanned into the token that it spells. -/
theorem of_spelling (here : Location) (hk : k.IsWritten) (hrest : IsSeparated rest) :
    ∃ t : Token, t.kind = k ∧
      Scans ⟨here, k.spelling ++ rest⟩ [t] [] ⟨here.past k.spelling, rest⟩ := by
  obtain ⟨p, t, hspelling, hp, hread⟩ := tokenKind_spelling here hk hrest
  rw [hspelling]
  exact of_tokenKind hp hread

end Cursor.Scans

/-- Words with spaces between them are scanned into the tokens that they spell. -/
theorem scans_words (here : Location) {ks : List TokenKind} (h : ∀ k ∈ ks, k.IsWritten) :
    ∃ ts stop, ts.map (·.kind) = ks ∧
      Cursor.Scans ⟨here, Text.join " " (ks.map (·.spelling))⟩ ts [] ⟨stop, []⟩ := by
  induction ks generalizing here with
  | nil => exact ⟨[], here, rfl, .refl _⟩
  | cons k ks ih =>
    obtain ⟨hk, hks⟩ := List.forall_mem_cons.1 h
    cases ks with
    | nil =>
      obtain ⟨t, rfl, hword⟩ := Cursor.Scans.of_spelling here hk (Or.inl rfl)
      rw [List.append_nil] at hword
      exact ⟨[t], _, rfl, hword⟩
    | cons k' ks =>
      obtain ⟨t, rfl, hword⟩ := Cursor.Scans.of_spelling here hk
        (Or.inr ⟨Text.join " " ((k' :: ks).map (·.spelling)), rfl⟩)
      obtain ⟨ts, stop, hkinds, hwords⟩ := ih ((here.past t.kind.spelling).next (.scalar ' ')) hks
      refine ⟨t :: ts, stop, by rw [List.map_cons, hkinds], ?_⟩
      simpa [Text.join, Text.ofString, Text.ofChars] using
        hword.trans ((Cursor.Scans.of_space _ _).trans hwords)

end WireScript
