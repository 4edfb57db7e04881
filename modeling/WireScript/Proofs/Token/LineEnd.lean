import Mathlib.Data.List.Forall2
import WireScript.Proofs.Token.Along
import WireScript.Proofs.Token.Encodable
import WireScript.Proofs.Token.Spelling

/-!
# Line feeds behind carriage returns

A line is scanned in the same way whether it ends with a line feed or with a carriage return and a
line feed.

* `Cursor.Ahead` relates cursors at the same place of such lines, and `Cursor.Twin` also those at
  the end of the line, where the second cursor may have passed the carriage return already.
* `Twins` relates what readers find there: the same up to what a broken string holds, and with
  reports that have the same codes.  One lemma for each reader leads to `tokenKind_twins`.
* `twins_scanFrom` says that the tokens of the two lines stand for each other (`TokenTwins`).
-/

namespace WireScript

/-- The line feed. -/
abbrev lineFeed : CodePoint := .scalar '\n'

/-- The carriage return. -/
abbrev carriageReturn : CodePoint := .scalar '\r'

/-- A text within a line. -/
def Text.IsPlain (t : Text) : Prop := lineFeed ∉ t ∧ carriageReturn ∉ t

theorem Text.IsPlain.of_cons {p : CodePoint} {t : Text} (h : IsPlain (p :: t)) :
    (p ≠ lineFeed ∧ p ≠ carriageReturn) ∧ IsPlain t := by
  simp only [IsPlain, List.mem_cons, not_or] at h
  exact ⟨⟨Ne.symm h.1.1, Ne.symm h.2.1⟩, h.1.2, h.2.2⟩

theorem Text.IsPlain.dropWhile {t : Text} (h : t.IsPlain) (q : CodePoint → Bool) :
    IsPlain (t.dropWhile q) :=
  ⟨fun hmem => h.1 (List.dropWhile_subset q hmem), fun hmem => h.2 (List.dropWhile_subset q hmem)⟩

theorem Text.IsPlain.of_append {t u : Text} (h : IsPlain (t ++ u)) : IsPlain u :=
  ⟨fun hmem => h.1 (List.mem_append_right t hmem), fun hmem => h.2 (List.mem_append_right t hmem)⟩

/-- Reading goes on to the end of a text, or to something in it that is not read. -/
theorem forall_or_exists_stop (q : CodePoint → Bool) (t : Text) :
    (∀ p ∈ t, q p = true) ∨
      ∃ u x v, t = u ++ x :: v ∧ q x = false ∧ ∀ p ∈ u, q p = true := by
  obtain ⟨u, v, rfl, hu, hv⟩ := t.exists_stretch q
  cases v with
  | nil => exact Or.inl (by rwa [List.append_nil])
  | cons x v => exact Or.inr ⟨u, x, v, rfl, hv x rfl, hu⟩

namespace Cursor

/-- Reading up to the first thing that is not read. -/
theorem read_stop (here : Location) {q : CodePoint → Bool} {x : CodePoint} (hx : q x = false)
    {t : Text} (ht : ∀ p ∈ t, q p = true) (u : Text) :
    read q ⟨here, t ++ x :: u⟩ = t ∧ Cursor.skip q ⟨here, t ++ x :: u⟩ = ⟨here.past t, x :: u⟩ := by
  refine read_skip_append q ht fun p hp => ?_
  obtain rfl : x = p := Option.some_inj.1 hp
  exact hx

/-- Cursors at the same place of two lines, of which the second one ends with a carriage return in
front of the line feed.  The line without its end has `n` code points. -/
inductive Ahead (n : Nat) : Cursor → Cursor → Prop where
  | mk (here : Location) (t : Text) (ht : t.IsPlain) (hn : here.offset + t.length = n) :
      Ahead n ⟨here, t ++ [lineFeed]⟩ ⟨here, t ++ [carriageReturn, lineFeed]⟩

/-- Cursors in two such lines, of which the second may be behind the carriage return. -/
inductive Twin (n : Nat) : Cursor → Cursor → Prop where
  | ahead {c d : Cursor} (h : Ahead n c d) : Twin n c d
  | beyond (here : Location) (hn : here.offset = n) :
      Twin n ⟨here, [lineFeed]⟩ ⟨here.next carriageReturn, [lineFeed]⟩

variable {n : Nat} {c d : Cursor} {q : CodePoint → Bool}

/-- At the end of the line, or at one and the same code point. -/
theorem Ahead.end_or_cons (h : Ahead n c d) :
    (∃ here, c = ⟨here, [lineFeed]⟩ ∧ d = ⟨here, [carriageReturn, lineFeed]⟩ ∧
        here.offset = n) ∨
      ∃ here p rest rest', c = ⟨here, p :: rest⟩ ∧ d = ⟨here, p :: rest'⟩ ∧ p ≠ lineFeed ∧
        p ≠ carriageReturn ∧ Ahead n ⟨here.next p, rest⟩ ⟨here.next p, rest'⟩ := by
  obtain ⟨here, t, ht, hn⟩ := h
  cases t with
  | nil => exact Or.inl ⟨here, rfl, rfl, hn⟩
  | cons p t =>
    obtain ⟨⟨hline, hcarriage⟩, hplain⟩ := ht.of_cons
    refine Or.inr ⟨here, p, _, _, rfl, rfl, hline, hcarriage, .mk _ t hplain ?_⟩
    have hoffset := Location.offset_past here [p]
    rw [Location.past_cons, Location.past_nil, List.length_singleton] at hoffset
    rw [hoffset, ← hn, List.length_cons]
    omega

/-- What does not tell the two ends of a line apart finds the same at both cursors. -/
theorem Ahead.peek_eq {α : Type} (h : Ahead n c d) (f : Option CodePoint → α)
    (hf : f (some lineFeed) = f (some carriageReturn)) : f c.peek = f d.peek := by
  rcases h.end_or_cons with ⟨here, rfl, rfl, -⟩ | ⟨here, p, rest, rest', rfl, rfl, -⟩
  · exact hf
  · rfl

theorem Ahead.next (h : Ahead n c d) (hc : c.peek ≠ some lineFeed) : Ahead n c.next d.next := by
  rcases h.end_or_cons with ⟨here, rfl, rfl, -⟩ | ⟨here, p, rest, rest', rfl, rfl, -, -, hnext⟩
  · exact absurd rfl hc
  · exact hnext

/-- What is read up to the end of the line at the latest is the same. -/
theorem Ahead.skip (h : Ahead n c d) (hline : q lineFeed = false)
    (hcarriage : q carriageReturn = false) :
    c.read q = d.read q ∧ Ahead n (c.skip q) (d.skip q) := by
  obtain ⟨here, t, ht, hn⟩ := h
  obtain ⟨htake, hdrop⟩ := takeWhile_append_cons hline t []
  obtain ⟨htake', hdrop'⟩ := takeWhile_append_cons hcarriage t [lineFeed]
  refine ⟨htake.trans htake'.symm, ?_⟩
  simp only [Cursor.skip, read, htake, htake', hdrop, hdrop']
  refine .mk _ _ (ht.dropWhile q) ?_
  have hlength := congrArg List.length (List.takeWhile_append_dropWhile (p := q) (l := t))
  rw [List.length_append] at hlength
  rw [Location.offset_past, Nat.add_assoc, hlength, hn]

/-- The text between cursors in front of the end of the line is the same. -/
theorem Ahead.textTo_eq {e f : Cursor} (h : Ahead n c d) (h' : Ahead n e f) (hce : c.Reaches e)
    (hdf : d.Reaches f) : c.textTo e = d.textTo f := by
  have hfirst := hce.textTo_append
  have hsecond := hdf.textTo_append
  obtain ⟨here, t, -, -⟩ := h
  obtain ⟨there, u, -, -⟩ := h'
  dsimp only at hfirst hsecond
  rw [← List.append_assoc] at hfirst hsecond
  have ht := List.append_cancel_right hfirst
  exact List.append_cancel_right (ht.symm.trans (List.append_cancel_right hsecond))

end Cursor

/-- The codes of reports on spelling. -/
def codes (reports : List (Report LexicalError)) : List Text := reports.map fun r => r.cause.code

theorem codes_append (rs ss : List (Report LexicalError)) :
    codes (rs ++ ss) = codes rs ++ codes ss :=
  List.map_append

/-- What readers of texts find at twin cursors: the same text unless there is a report, reports with
the same codes, and twin cursors behind it. -/
structure Twins (n : Nat) (r s : Reading Text) : Prop where
  value : r.value = s.value ∨ r.reports ≠ []
  encodable : r.value.isEncodable = s.value.isEncodable
  codes : codes r.reports = codes s.reports
  after : Cursor.Twin n r.after s.after

theorem twins_of_value_eq {n : Nat} {r s : Reading Text} (hvalue : r.value = s.value)
    (hcodes : codes r.reports = codes s.reports) (hafter : Cursor.Twin n r.after s.after) :
    Twins n r s :=
  ⟨Or.inl hvalue, congrArg Text.isEncodable hvalue, hcodes, hafter⟩

namespace Literal

open Cursor

variable {n : Nat} {c d o o' : Cursor}

/-! ## Integers -/

theorem integerBody_ahead (h : Ahead n c d) :
    (integerBody c).1 = (integerBody d).1 ∧ Ahead n (integerBody c).2 (integerBody d).2 := by
  unfold integerBody
  rw [← h.peek_eq (· == some (.scalar '0')) rfl]
  split
  · next hzero =>
    have hnext := h.next (by rw [beq_iff_eq.1 hzero]; decide)
    rw [← hnext.peek_eq (fun p => p.any (·.isIn ['x', 'X'])) rfl]
    split
    · next hx =>
      refine ⟨rfl, hnext.next fun hline => ?_⟩
      rw [hline] at hx
      cases hx
    · exact ⟨rfl, hnext⟩
  · exact ⟨rfl, h⟩

theorem integer_ahead (h : Ahead n c d) :
    (integer c).value = (integer d).value ∧ codes (integer c).reports = codes (integer d).reports ∧
      Ahead n (integer c).after (integer d).after := by
  obtain ⟨hbase, hbody⟩ := integerBody_ahead h
  have hdigit {p : CodePoint} (hp : p.digitValue = 16) :
      (p.digit? (integerBody d).1).isSome = false := by
    rw [digit?_eq_none (base_integerBody_le d) hp]
    rfl
  obtain ⟨hread, hafter⟩ := hbody.skip (q := fun p => (p.digit? (integerBody d).1).isSome)
    (hdigit (p := lineFeed) rfl) (hdigit (p := carriageReturn) rfl)
  unfold integer
  dsimp only
  rw [hbase, hread]
  split
  · exact ⟨rfl, rfl, hafter⟩
  · exact ⟨rfl, rfl, hafter⟩

/-! ## Strings -/

theorem escapeDigits_ahead {base : Nat} (hbase : base ≤ 16) (count value : Nat) (h : Ahead n c d) :
    (escapeDigits base count value c).value = (escapeDigits base count value d).value ∧
      (escapeDigits base count value c).missing = (escapeDigits base count value d).missing ∧
      Ahead n (escapeDigits base count value c).after (escapeDigits base count value d).after := by
  have hline : lineFeed.digit? base = none := digit?_eq_none hbase rfl
  have hcarriage : carriageReturn.digit? base = none := digit?_eq_none hbase rfl
  induction count generalizing value c d with
  | zero => exact ⟨rfl, rfl, h⟩
  | succ count ih =>
    have hpeek := h.peek_eq (fun p => p.bind (CodePoint.digit? base))
      (by simp only [Option.bind_some, hline, hcarriage])
    rw [escapeDigits, escapeDigits, ← hpeek]
    split
    · next digit hdigit =>
      refine ih _ (h.next fun hend => ?_)
      rw [hend, Option.bind_some, hline] at hdigit
      cases hdigit
    · exact ⟨rfl, rfl, h⟩

theorem skipEscape_lineFeed (count : Nat) (here : Location) :
    skipEscape count ⟨here, [lineFeed]⟩ = ⟨here, [lineFeed]⟩ := by
  cases count <;> rfl

theorem skipEscape_twin (count : Nat) (h : Ahead n c d) :
    Twin n (skipEscape count c) (skipEscape count d) := by
  induction count generalizing c d with
  | zero => exact .ahead h
  | succ count ih =>
    rcases h.end_or_cons with ⟨here, rfl, rfl, hn⟩ | ⟨here, p, rest, rest', rfl, rfl, -, -, hnext⟩
    · have hskip : skipEscape (count + 1) ⟨here, [carriageReturn, lineFeed]⟩ =
          skipEscape count ⟨here.next carriageReturn, [lineFeed]⟩ := rfl
      rw [hskip, skipEscape_lineFeed, skipEscape_lineFeed]
      exact .beyond here hn
    · rw [skipEscape, skipEscape]
      dsimp only [peek, List.head?_cons]
      split
      · exact .ahead h
      · exact ih hnext

theorem numericEscape_twins {form : NumericForm} (hform : form.base ≤ 16) (h : Ahead n c d) :
    Twins n (numericEscape form o c) (numericEscape form o' d) := by
  obtain ⟨hvalue, hmissing, hafter⟩ := escapeDigits_ahead hform form.digits 0 h
  have hskip := skipEscape_twin (escapeDigits form.base form.digits 0 d).missing hafter
  unfold numericEscape
  dsimp only
  rw [hvalue, hmissing]
  split
  · split
    · exact twins_of_value_eq rfl rfl hskip
    · exact twins_of_value_eq rfl rfl hskip
  · split
    · exact twins_of_value_eq rfl rfl hskip
    · exact twins_of_value_eq rfl rfl hskip

theorem escape_twins (h : Twin n c d) : Twins n (escape o c) (escape o' d) := by
  cases h with
  | beyond here hn => exact twins_of_value_eq rfl rfl (.beyond here hn)
  | ahead h =>
    rcases h.end_or_cons with ⟨here, rfl, rfl, hn⟩ | ⟨here, p, rest, rest', rfl, rfl, hp, -, hnext⟩
    · exact ⟨Or.inr (List.cons_ne_nil _ _), rfl, rfl, .beyond here hn⟩
    · unfold escape
      dsimp only [peek, List.head?_cons, Cursor.next]
      split
      · exact twins_of_value_eq rfl rfl (.ahead hnext)
      · next hform => exact numericEscape_twins (base_le_of_ofLetter hform) hnext
      · split
        · exact numericEscape_twins (by decide) h
        · split
          · next hline => exact absurd (beq_iff_eq.1 hline) hp
          · exact twins_of_value_eq rfl rfl (.ahead hnext)

/-- The text of an escape in front of what follows it. -/
theorem twins_append {r s r' s' : Reading Text} (h : Twins n r s) (h' : Twins n r' s') :
    Twins n ⟨r.value ++ r'.value, r.reports ++ r'.reports, r'.after⟩
      ⟨s.value ++ s'.value, s.reports ++ s'.reports, s'.after⟩ := by
  refine ⟨?_, ?_, ?_, h'.after⟩
  · rcases h.value with hr | hr
    · rcases h'.value with hr' | hr'
      · exact Or.inl (by rw [hr, hr'])
      · exact Or.inr fun hnil => hr' (List.append_eq_nil_iff.1 hnil).2
    · exact Or.inr fun hnil => hr (List.append_eq_nil_iff.1 hnil).1
  · rw [Text.isEncodable_append, Text.isEncodable_append, h.encodable, h'.encodable]
  · rw [codes_append, codes_append, h.codes, h'.codes]

theorem stringBody_lineFeed (o : Cursor) (here : Location) :
    stringBody o ⟨here, [lineFeed]⟩ =
      ⟨[], [⟨.unterminatedString, o.spanTo ⟨here, [lineFeed]⟩⟩], ⟨here, [lineFeed]⟩⟩ := by
  rw [stringBody]
  rfl

/-- A carriage return in front of the end of the line belongs to the broken string. -/
theorem stringBody_carriageReturn (o : Cursor) (here : Location) :
    stringBody o ⟨here, [carriageReturn, lineFeed]⟩ =
      let others := stringBody o ⟨here.next carriageReturn, [lineFeed]⟩
      ⟨carriageReturn :: others.value, others.reports, others.after⟩ := by
  rw [stringBody]
  rfl

theorem stringBody_twins (o o' : Cursor) (h : Twin n c d) :
    Twins n (stringBody o c) (stringBody o' d) := by
  -- on what is left of the line, since an escape reads more than one code point of it
  induction hlength : c.rest.length using Nat.strong_induction_on generalizing c d with
  | _ length ih =>
  cases h with
  | beyond here hn =>
    rw [stringBody_lineFeed, stringBody_lineFeed]
    exact twins_of_value_eq rfl rfl (.beyond here hn)
  | ahead h =>
    rcases h.end_or_cons with ⟨here, rfl, rfl, hn⟩ | ⟨here, p, rest, rest', rfl, rfl, hp, -, hnext⟩
    · rw [stringBody_carriageReturn, stringBody_lineFeed, stringBody_lineFeed]
      exact ⟨Or.inr (List.cons_ne_nil _ _), rfl, rfl, .beyond here hn⟩
    · have hline : ¬ p.is '\n' = true := fun hline => hp (beq_iff_eq.1 hline)
      have hshorter : rest.length < length := hlength ▸ Nat.lt_succ_self _
      rw [stringBody, stringBody, if_neg hline, if_neg hline]
      split
      · exact twins_of_value_eq rfl rfl (.ahead hnext)
      split
      · have hfirst : Twins n (escape ⟨here, p :: rest⟩ ⟨here.next p, rest⟩)
            (escape ⟨here, p :: rest'⟩ ⟨here.next p, rest'⟩) := escape_twins (.ahead hnext)
        have hread := (reaches_escape ⟨here, p :: rest⟩ ⟨here.next p, rest⟩).length_le
        exact twins_append hfirst (ih _ (Nat.lt_of_le_of_lt hread hshorter) hfirst.after rfl)
      · exact twins_append (r := ⟨[p], [], ⟨here.next p, rest⟩⟩)
          (s := ⟨[p], [], ⟨here.next p, rest'⟩⟩) (twins_of_value_eq rfl rfl (.ahead hnext))
          (ih _ hshorter (.ahead hnext) rfl)

theorem string_twins (h : Ahead n c d) (hc : c.peek ≠ some lineFeed) :
    Twins n (string c) (string d) := by
  have hbody := stringBody_twins c d (.ahead (h.next hc))
  refine ⟨hbody.value.imp_left fun hvalue => ?_, ?_, hbody.codes, hbody.after⟩
  · simp only [string, hvalue]
  · simp only [string, Text.isEncodable_getD_canonical, hbody.encodable]

/-! ## Segments of templates -/

/-- A segment goes on to the end of the line, or to a brace in front of it. -/
theorem read_inSegment {t : Text} (ht : t.IsPlain) :
    (∀ p ∈ t, inSegment p = true) ∨
      ∃ u v, t = u ++ .scalar '{' :: v ∧ ∀ p ∈ u, inSegment p = true := by
  refine (forall_or_exists_stop inSegment t).imp_right ?_
  rintro ⟨u, p, v, rfl, hp, hu⟩
  have hline : p ≠ lineFeed := ht.of_append.of_cons.1.1
  obtain rfl : p = .scalar '{' := by
    simpa [inSegment, CodePoint.isIn, CodePoint.is, hline] using hp
  exact ⟨u, v, rfl, hu⟩

/-- The carriage return in front of the end of the line does not belong to the segment. -/
theorem segment_twins (h : Ahead n c d) (hc : c.peek ≠ some lineFeed) :
    (segment c).value = (segment d).value ∧ Twin n (segment c).after (segment d).after := by
  have hbody := h.next hc
  generalize hc' : c.next = c' at hbody
  generalize hd' : d.next = d' at hbody
  obtain ⟨here, t, ht, hn⟩ := hbody
  rcases read_inSegment ht with hall | ⟨u, v, rfl, hall⟩
  · have hcarriage : ∀ p ∈ t ++ [carriageReturn], inSegment p = true :=
      List.forall_mem_append.2 ⟨hall, List.forall_mem_singleton.2 rfl⟩
    have hlast : t.getLast? ≠ some carriageReturn := fun hlast => ht.2 (List.mem_of_getLast? hlast)
    rw [List.append_cons] at hd'
    have hstop (rest : Text) : ∀ p, (lineFeed :: rest).head? = some p → p = lineFeed := by
      rintro p ⟨⟩
      rfl
    rw [segment_finish hc' hall (hstop _), segment_finish hd' hcarriage (hstop _)]
    refine ⟨by simp [withoutReturn, hlast], ?_⟩
    rw [Location.past_concat]
    exact .beyond _ (by rw [Location.offset_past, hn])
  · rw [List.append_assoc] at hc' hd'
    rw [segment_brace hc' hall, segment_brace hd' hall]
    refine ⟨rfl, .ahead (.mk _ v ht.of_append.of_cons.2 ?_)⟩
    rw [← Location.past_concat, Location.offset_past, ← hn]
    simp only [List.length_append, List.length_cons, List.length_nil]
    omega

end Literal

/-! ## Tokens -/

section Tokens

open Cursor

variable {n : Nat} {c d : Cursor} {here : Location} {p : CodePoint} {rest rest' : Text}

/-- What is read for tokens at twin cursors: kinds that are equal up to a broken string, in the same
words.  The words show the lexeme of some kinds, and these end in front of the end of the line. -/
structure KindTwins (n : Nat) (r s : Reading TokenKind) : Prop where
  kind : r.value = s.value ∨ r.reports ≠ [] ∧
    ∃ t u, r.value = .string t ∧ s.value = .string u ∧ t.isEncodable = u.isEncodable
  codes : codes r.reports = codes s.reports
  after : Twin n r.after s.after
  shown : Ahead n r.after s.after ∨
    ∀ (t u : Text) (a b : Span), Token.describe ⟨r.value, t, a⟩ = Token.describe ⟨s.value, u, b⟩

theorem kindTwins_of_ahead {r s : Reading TokenKind} (hvalue : r.value = s.value)
    (hcodes : codes r.reports = codes s.reports) (hafter : Ahead n r.after s.after) :
    KindTwins n r s :=
  ⟨Or.inl hvalue, hcodes, .ahead hafter, Or.inl hafter⟩

theorem doubled_twins (h : Ahead n ⟨here, p :: rest⟩ ⟨here, p :: rest'⟩) (hline : p ≠ lineFeed)
    (hcarriage : p ≠ carriageReturn) (mark : Mark) (alone : LexicalError) :
    KindTwins n (doubled ⟨here, p :: rest⟩ p mark alone)
      (doubled ⟨here, p :: rest'⟩ p mark alone) := by
  have hnext := h.next (by simpa [peek] using hline)
  have hpeek := hnext.peek_eq (· == some p)
    (by simp [Ne.symm hline, Ne.symm hcarriage])
  unfold doubled
  dsimp only
  rw [← hpeek]
  split
  · next hsecond =>
    refine kindTwins_of_ahead rfl rfl (hnext.next ?_)
    rw [beq_iff_eq.1 hsecond]
    simpa using hline
  · exact kindTwins_of_ahead rfl rfl hnext

theorem segment_kindTwins (h : Ahead n ⟨here, p :: rest⟩ ⟨here, p :: rest'⟩) (hline : p ≠ lineFeed)
    {kind : Text → Bool → TokenKind} (hkind : kind = .templateStart ∨ kind = .templatePart) :
    let r := Literal.segment ⟨here, p :: rest⟩
    let s := Literal.segment ⟨here, p :: rest'⟩
    KindTwins n ⟨kind r.value.text r.value.continues, r.reports, r.after⟩
      ⟨kind s.value.text s.value.continues, s.reports, s.after⟩ := by
  obtain ⟨hvalue, hafter⟩ := Literal.segment_twins h (by simpa [peek] using hline)
  refine ⟨Or.inl ?_, ?_, hafter, Or.inr ?_⟩
  · exact congrArg (fun s => kind s.text s.continues) hvalue
  · simp only [Literal.reports_segment]
  · rcases hkind with rfl | rfl <;> exact fun _ _ _ _ => rfl

theorem tokenKind_twins (h : Ahead n ⟨here, p :: rest⟩ ⟨here, p :: rest'⟩) (hline : p ≠ lineFeed)
    (hcarriage : p ≠ carriageReturn) :
    KindTwins n (tokenKind ⟨here, p :: rest⟩ p) (tokenKind ⟨here, p :: rest'⟩ p) := by
  have hpeek : Cursor.peek ⟨here, p :: rest⟩ ≠ some lineFeed := by simpa [peek] using hline
  have hnext := h.next hpeek
  apply tokenKind_cases p (motive := fun read =>
    KindTwins n (read ⟨here, p :: rest⟩) (read ⟨here, p :: rest'⟩))
  case name =>
    intro _
    obtain ⟨hread, hskip⟩ := h.skip (q := fun p => p.isLetter || p.isDigit) rfl rfl
    exact kindTwins_of_ahead (congrArg TokenKind.name hread) rfl hskip
  case integer =>
    intro _
    obtain ⟨hvalue, hcodes, hafter⟩ := Literal.integer_ahead h
    exact kindTwins_of_ahead (congrArg TokenKind.integer hvalue) hcodes hafter
  case string =>
    intro _
    have hstring := Literal.string_twins h hpeek
    refine ⟨?_, hstring.codes, hstring.after, Or.inr fun _ _ _ _ => rfl⟩
    exact hstring.value.imp (congrArg TokenKind.string) fun hreports =>
      ⟨hreports, _, _, rfl, rfl, hstring.encodable⟩
  case segment => exact fun kind hkind => segment_kindTwins h hline hkind.kind_eq
  case double => exact fun mark alone _ => doubled_twins h hline hcarriage mark alone
  case single => exact fun kind _ => kindTwins_of_ahead rfl rfl hnext
  case pair =>
    intro alone withEquals _
    dsimp only
    rw [← hnext.peek_eq (· == some (.scalar '=')) rfl]
    split
    · next hequals =>
      refine kindTwins_of_ahead rfl rfl (hnext.next ?_)
      rw [beq_iff_eq.1 hequals]
      decide
    · exact kindTwins_of_ahead rfl rfl hnext
  case invalid => exact kindTwins_of_ahead rfl rfl hnext

/-- A place in a line of `n` code points.  The places behind its end are not told apart. -/
def place (n : Nat) (here : Location) : Nat := min here.offset n

theorem Cursor.Twin.place_eq (h : Twin n c d) : place n c.here = place n d.here := by
  cases h with
  | ahead h =>
    obtain ⟨here, t, -, -⟩ := h
    rfl
  | beyond here hn =>
    have hoffset := Location.offset_past here [carriageReturn]
    rw [Location.past_cons, Location.past_nil] at hoffset
    simp only [place, hoffset, hn, Nat.min_self]
    exact (Nat.min_eq_right (Nat.le_add_right n _)).symm

/-- Tokens that stand for each other: their kinds are equal up to broken strings, if there are any,
and so are their words and their places. -/
structure TokenTwins (n : Nat) (broken : Prop) (t u : Token) : Prop where
  kind : t.kind = u.kind ∨ broken ∧
    ∃ v w, t.kind = .string v ∧ u.kind = .string w ∧ v.isEncodable = w.isEncodable
  describe : t.describe = u.describe
  start : place n t.span.start = place n u.span.start
  stop : place n t.span.stop = place n u.span.stop

theorem tokenAt_twins (h : Ahead n ⟨here, p :: rest⟩ ⟨here, p :: rest'⟩) (hline : p ≠ lineFeed)
    (hcarriage : p ≠ carriageReturn) :
    TokenTwins n ((tokenKind ⟨here, p :: rest⟩ p).reports ≠ []) (tokenAt ⟨here, p :: rest⟩ p)
      (tokenAt ⟨here, p :: rest'⟩ p) := by
  have hkind := tokenKind_twins h hline hcarriage
  refine ⟨hkind.kind, ?_, rfl, hkind.after.place_eq⟩
  rcases hkind.shown with hafter | hshown
  · have htext := h.textTo_eq hafter (reaches_tokenAt here p rest) (reaches_tokenAt here p rest')
    unfold Token.describe tokenAt
    dsimp only
    rw [htext]
    rcases hkind.kind with hequal | ⟨-, t, u, ht, hu, -⟩
    · rw [hequal]
    · rw [ht, hu]
  · exact hshown _ _ _ _

/-! ## Scans -/

/-- Behind the spacing two cursors are at the line feed, or at the same code point of the line. -/
theorem Cursor.Twin.skip_spacing (h : Twin n c d) :
    (∃ here there, c.skip isSpacing = ⟨here, [lineFeed]⟩ ∧ d.skip isSpacing = ⟨there, [lineFeed]⟩ ∧
        n ≤ here.offset ∧ n ≤ there.offset) ∨
      ∃ here p rest rest', c.skip isSpacing = ⟨here, p :: rest⟩ ∧
        d.skip isSpacing = ⟨here, p :: rest'⟩ ∧ p ≠ lineFeed ∧ p ≠ carriageReturn ∧
        Ahead n ⟨here, p :: rest⟩ ⟨here, p :: rest'⟩ := by
  cases h with
  | beyond here hn =>
    have hoffset := Location.offset_past here [carriageReturn]
    refine Or.inl ⟨here, here.next carriageReturn, rfl, rfl, Nat.le_of_eq hn.symm, ?_⟩
    rw [Location.past_cons, Location.past_nil] at hoffset
    omega
  | ahead h =>
    obtain ⟨here, t, ht, hn⟩ := h
    rcases forall_or_exists_stop isSpacing t with hall | ⟨u, p, v, rfl, hp, hu⟩
    · -- the carriage return is spacing too
      have hcarriage : ∀ p ∈ t ++ [carriageReturn], isSpacing p = true :=
        List.forall_mem_append.2 ⟨hall, List.forall_mem_singleton.2 rfl⟩
      have hc := (read_stop here (x := lineFeed) rfl hall []).2
      have hd := (read_stop here (x := lineFeed) rfl hcarriage []).2
      rw [List.append_assoc] at hd
      refine Or.inl ⟨_, _, hc, hd, ?_, ?_⟩
      · rw [Location.offset_past, hn]
      · rw [Location.offset_past, List.length_append]
        omega
    · have hplain : Text.IsPlain (p :: v) := ht.of_append
      have hskip (w : Text) := (read_stop here hp hu (v ++ w)).2
      rw [List.append_assoc, List.append_assoc]
      refine Or.inr ⟨_, p, _, _, hskip [lineFeed], hskip [carriageReturn, lineFeed],
        hplain.of_cons.1.1, hplain.of_cons.1.2, .mk _ (p :: v) hplain ?_⟩
      rw [Location.offset_past, ← hn, List.length_append, Nat.add_assoc]

/-- Where only the line feed is left, it is the last token. -/
theorem scanFrom_lineFeed (h : c.skip isSpacing = ⟨here, [lineFeed]⟩) :
    scanFrom c = ⟨[tokenAt ⟨here, [lineFeed]⟩ lineFeed, .atEnd (here.next lineFeed)], []⟩ := by
  have hend : Cursor.skip isSpacing ⟨here.next lineFeed, []⟩ = ⟨here.next lineFeed, []⟩ := rfl
  rw [scanFrom_of_skip_cons h, tokenKind_lineFeed]
  dsimp only [Cursor.next]
  rw [scanFrom_of_skip_nil hend]
  rfl

theorem TokenTwins.mono {broken broken' : Prop} {t u : Token} (h : TokenTwins n broken t u)
    (hbroken : broken → broken') : TokenTwins n broken' t u :=
  { h with kind := h.kind.imp_right fun hstring => ⟨hbroken hstring.1, hstring.2⟩ }

/-- A line is scanned in the same way whatever it ends with. -/
theorem twins_scanFrom (h : Twin n c d) :
    codes (scanFrom c).reports = codes (scanFrom d).reports ∧
      List.Forall₂ (TokenTwins n ((scanFrom c).reports ≠ [])) (scanFrom c).tokens
        (scanFrom d).tokens := by
  induction hlength : c.rest.length using Nat.strong_induction_on generalizing c d with
  | _ length ih =>
  rcases h.skip_spacing with ⟨here, there, hc, hd, hhere, hthere⟩ |
      ⟨here, p, rest, rest', hc, hd, hline, hcarriage, hahead⟩
  · -- behind the line no two places are told apart
    have hplace (here : Location) (h : n ≤ here.offset) :
        place n here = n ∧ place n (here.next lineFeed) = n :=
      ⟨Nat.min_eq_right h, Nat.min_eq_right (Nat.le_succ_of_le h)⟩
    obtain ⟨hplace₁, hnext₁⟩ := hplace here hhere
    obtain ⟨hplace₂, hnext₂⟩ := hplace there hthere
    rw [scanFrom_lineFeed hc, scanFrom_lineFeed hd]
    refine ⟨rfl, .cons ⟨Or.inl rfl, rfl, ?_, ?_⟩ (.cons ⟨Or.inl rfl, rfl, ?_, ?_⟩ .nil)⟩
    · exact hplace₁.trans hplace₂.symm
    · exact hnext₁.trans hnext₂.symm
    · exact hnext₁.trans hnext₂.symm
    · exact hnext₁.trans hnext₂.symm
  · have hfirst := tokenKind_twins hahead hline hcarriage
    have htoken := tokenAt_twins hahead hline hcarriage
    have hshorter := length_lt_of_skip_cons hc
    obtain ⟨hcodes, htokens⟩ := ih _ (hlength ▸ hshorter) hfirst.after rfl
    rw [scanFrom_of_skip_cons hc, scanFrom_of_skip_cons hd]
    refine ⟨?_, .cons (htoken.mono ?_) (htokens.imp fun _ _ ht => ht.mono ?_)⟩
    · rw [codes_append, codes_append, hfirst.codes, hcodes]
    · exact fun hreports hnil => hreports (List.append_eq_nil_iff.1 hnil).1
    · exact fun hreports hnil => hreports (List.append_eq_nil_iff.1 hnil).2

end Tokens

end WireScript
