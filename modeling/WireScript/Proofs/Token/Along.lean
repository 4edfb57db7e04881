import Mathlib.Data.List.TakeWhile
import WireScript.Proofs.Source.Place
import WireScript.Token.Scan

/-!
# Tokens along a line

No token goes over the end of a line, apart from the one that is the end of a line.

* `Cursor.Along` says that one cursor is reached from another in the same line.
* For each reader of literals one lemma says that it goes along the line, and that everything it
  reports lies between where it started and where it stopped (`Marks`).  `along_tokenKind` and
  `marks_tokenKind` put them together.
* `mem_tokens_scanFrom` and `mem_reports_scanFrom` say where the tokens and the reports of a scan
  come from, and `pairwise_scanFrom` that the tokens stand one behind the other.
-/

namespace WireScript

theorem CodePoint.ne_scalar {p : CodePoint} {c : Char} (h : ¬ p.is c = true) : p ≠ .scalar c := by
  rintro rfl
  exact h (beq_self_eq_true _)

/-- What is read stops in front of the first thing that is not read. -/
theorem takeWhile_append_cons {α : Type} {q : α → Bool} {x : α} (hx : q x = false) (t u : List α) :
    (t ++ x :: u).takeWhile q = t.takeWhile q ∧
      (t ++ x :: u).dropWhile q = t.dropWhile q ++ x :: u := by
  induction t with
  | nil => simp [hx]
  | cons y t ih =>
    cases hy : q y with
    | true => simpa [hy] using ih
    | false => simp [hy]

/-- A text up to the first code point that does not qualify. -/
theorem Text.exists_stretch (test : CodePoint → Bool) (t : Text) :
    ∃ u v, t = u ++ v ∧ (∀ p ∈ u, test p = true) ∧ ∀ p, v.head? = some p → test p = false := by
  refine ⟨t.takeWhile test, t.dropWhile test, List.takeWhile_append_dropWhile.symm,
    fun _ => List.mem_takeWhile_imp, fun p hp => ?_⟩
  simpa [hp] using List.head?_dropWhile_not test t

namespace Cursor

/-- One cursor is reached from another along a line: no line feed is read on the way. -/
def Along (c d : Cursor) : Prop :=
  ∃ t, c.rest = t ++ d.rest ∧ d.here = c.here.past t ∧ .scalar '\n' ∉ t

variable {c d e : Cursor} {here : Location} {p : CodePoint} {rest : Text} {q : CodePoint → Bool}

theorem Along.refl (c : Cursor) : c.Along c := ⟨[], rfl, rfl, List.not_mem_nil⟩

theorem Along.reaches (h : c.Along d) : c.Reaches d := by
  obtain ⟨t, hrest, hhere, -⟩ := h
  exact ⟨t, hrest, hhere⟩

theorem Along.trans (h : c.Along d) (h' : d.Along e) : c.Along e := by
  obtain ⟨t, hrest, hhere, ht⟩ := h
  obtain ⟨u, hrest', hhere', hu⟩ := h'
  refine ⟨t ++ u, ?_, ?_, by simp [ht, hu]⟩
  · rw [hrest, hrest', List.append_assoc]
  · rw [hhere', hhere, Location.past_append]

theorem along_cons (here : Location) (rest : Text) (h : p ≠ .scalar '\n') :
    Along ⟨here, p :: rest⟩ ⟨here.next p, rest⟩ :=
  ⟨[p], rfl, rfl, by simpa using h.symm⟩

theorem along_next (h : c.peek ≠ some (.scalar '\n')) : c.Along c.next := by
  obtain ⟨here, rest⟩ := c
  cases rest with
  | nil => exact .refl _
  | cons p rest => exact along_cons here rest fun hp => h (congrArg some hp)

theorem along_skip (h : q (.scalar '\n') = false) (c : Cursor) : c.Along (c.skip q) := by
  refine ⟨c.read q, (List.takeWhile_append_dropWhile).symm, rfl, fun hmem => ?_⟩
  rw [List.mem_takeWhile_imp hmem] at h
  cases h

/-- The end of the line is still ahead. -/
theorem Along.endsLine (h : c.Along d) (hc : c.rest.EndsLine) : d.rest.EndsLine := by
  obtain ⟨t, hrest, -, ht⟩ := h
  rw [hrest] at hc
  refine hc.of_append fun hnil => ht ?_
  rw [hnil, List.append_nil] at hc
  exact hc.mem

/-- What is left ahead ends a line if the text does, unless nothing is left. -/
theorem Reaches.endsLine (h : c.Reaches d) (hc : c.rest.EndsLine) (hd : d.rest ≠ []) :
    d.rest.EndsLine := by
  obtain ⟨t, hrest, -⟩ := h
  rw [hrest] at hc
  exact hc.of_append hd

/-- The offset never decreases. -/
theorem Reaches.offset_le (h : c.Reaches d) : c.here.offset ≤ d.here.offset := by
  obtain ⟨t, -, hhere⟩ := h
  rw [hhere, Location.offset_past]
  exact Nat.le_add_right _ _

/-- A cursor that is reached from the beginning of a text stands in the text. -/
theorem Reaches.isIn {source : Text} (h : (ofText source).Reaches d) : d.here.IsIn source := by
  obtain ⟨t, hrest, hhere⟩ := h
  exact ⟨t, d.rest, hrest, hhere⟩

/-- The line feeds of a text are those in front of a cursor and those ahead of it. -/
theorem Reaches.line_eq {source : Text} (h : (ofText source).Reaches d) :
    d.here.line + d.rest.lineFeeds = source.lineFeeds + 1 := by
  obtain ⟨t, hrest, hhere⟩ := h
  have hsource : source = t ++ d.rest := hrest
  rw [hhere, hsource, Location.line_past, Text.lineFeeds_append]
  show 1 + _ + _ = _
  omega

end Cursor

/-- Every report is on a stretch of the line at a cursor. -/
def Marks (opening : Cursor) (reports : List (Report LexicalError)) : Prop :=
  ∀ r ∈ reports, ∃ d e, opening.Along d ∧ d.Along e ∧ r.span = d.spanTo e

theorem marks_nil (opening : Cursor) : Marks opening [] := List.forall_mem_nil _

namespace Literal

open Cursor

variable {opening c : Cursor}

theorem marks_singleton {cause : LexicalError} {d e : Cursor} (hd : opening.Along d)
    (he : d.Along e) : Marks opening [⟨cause, d.spanTo e⟩] :=
  List.forall_mem_singleton.2 ⟨d, e, hd, he, rfl⟩

/-! ## Integers -/

/-- A code point that is no digit of base sixteen is none of a lower base. -/
theorem digit?_eq_none {base : Nat} (hbase : base ≤ 16) {p : CodePoint} (hp : p.digitValue = 16) :
    p.digit? base = none := by
  rw [CodePoint.digit?, if_neg]
  omega

theorem base_integerBody_le (opening : Cursor) : (integerBody opening).1 ≤ 16 := by
  unfold integerBody
  split
  · split <;> simp
  · simp

theorem along_integerBody (opening : Cursor) : opening.Along (integerBody opening).2 := by
  unfold integerBody
  split
  · next hzero =>
    have hopening : opening.peek ≠ some (.scalar '\n') := by
      rw [beq_iff_eq.1 hzero]
      decide
    split
    · next hx =>
      refine (along_next hopening).trans (along_next fun hline => ?_)
      rw [hline] at hx
      revert hx
      decide
    · exact along_next hopening
  · exact .refl _

theorem along_integer (opening : Cursor) : opening.Along (integer opening).after := by
  have hline := digit?_eq_none (base_integerBody_le opening) (p := .scalar '\n') rfl
  rw [after_integer]
  exact (along_integerBody opening).trans (along_skip (by rw [hline]; rfl) _)

theorem marks_integer (opening : Cursor) : Marks opening (integer opening).reports := by
  have hafter := along_integer opening
  unfold integer at hafter ⊢
  dsimp only at hafter ⊢
  split
  · next hwrong =>
    rw [if_pos hwrong] at hafter
    exact marks_singleton (.refl _) hafter
  · exact marks_nil _

/-! ## Strings -/

theorem along_escapeDigits {base : Nat} (hbase : base ≤ 16) (count value : Nat) (c : Cursor) :
    c.Along (escapeDigits base count value c).after := by
  induction count generalizing value c with
  | zero => exact .refl c
  | succ count ih =>
    unfold escapeDigits
    split
    · next d hd =>
      refine (along_next fun hline => ?_).trans (ih _ _)
      rw [hline, Option.bind_some, digit?_eq_none hbase rfl] at hd
      cases hd
    · exact .refl c

theorem along_skipEscape (count : Nat) (c : Cursor) : c.Along (skipEscape count c) := by
  induction count generalizing c with
  | zero => exact .refl c
  | succ count ih =>
    unfold skipEscape
    split
    · next p hpeek =>
      split
      · exact .refl c
      · next hp =>
        refine (along_next fun hline => ?_).trans (ih _)
        rw [hline] at hpeek
        cases hpeek
        exact hp rfl
    · exact .refl c

theorem base_le_of_ofLetter {p : CodePoint} {form : NumericForm}
    (h : NumericForm.ofLetter p = some form) : form.base ≤ 16 := by
  unfold NumericForm.ofLetter at h
  split at h
  · cases h
    decide
  · split at h
    · cases h
      decide
    · split at h
      · cases h
        decide
      · cases h

theorem along_numericEscape {form : NumericForm} (hform : form.base ≤ 16) (opening c : Cursor) :
    c.Along (numericEscape form opening c).after :=
  (along_escapeDigits hform form.digits 0 c).trans (along_skipEscape _ _)

theorem marks_numericEscape {form : NumericForm} (hform : form.base ≤ 16)
    {start opening c : Cursor} (hopening : start.Along opening) (hc : opening.Along c) :
    Marks start (numericEscape form opening c).reports := by
  have hdigits := along_escapeDigits hform form.digits 0 c
  have hafter := along_numericEscape hform opening c
  refine List.forall_mem_append.2 ⟨?_, ?_⟩
  · split
    · exact marks_nil _
    · exact marks_singleton ((hopening.trans hc).trans hdigits) (.refl _)
  · split
    · exact marks_nil _
    · exact marks_singleton hopening (hc.trans hafter)

theorem along_escape (opening c : Cursor) : c.Along (escape opening c).after := by
  unfold escape
  split
  · exact .refl c
  · next p hpeek =>
    have hnext (hp : p ≠ .scalar '\n') : c.Along c.next :=
      along_next fun hline => hp (Option.some.inj (hpeek.symm.trans hline))
    split
    · next hsimple =>
      refine hnext fun heq => ?_
      rw [heq] at hsimple
      cases hsimple
    · next hform =>
      refine (hnext fun heq => ?_).trans (along_numericEscape (base_le_of_ofLetter hform) _ _)
      rw [heq] at hform
      cases hform
    · split
      · exact along_numericEscape (by decide) _ _
      · split
        · exact .refl c
        · next hline => exact hnext (CodePoint.ne_scalar hline)

theorem marks_escape {start opening c : Cursor} (hopening : start.Along opening)
    (hc : opening.Along c) : Marks start (escape opening c).reports := by
  have hafter := hc.trans (along_escape opening c)
  unfold escape at hafter ⊢
  split
  · exact marks_singleton hopening hc
  · next p hpeek =>
    simp only [hpeek] at hafter
    split
    · exact marks_nil _
    · next hsimple hform =>
      have hnext : c.Along c.next := along_next fun hline => by
        rw [Option.some.inj (hpeek.symm.trans hline)] at hform
        cases hform
      exact marks_numericEscape (base_le_of_ofLetter hform) hopening (hc.trans hnext)
    · next hsimple hform =>
      simp only [hsimple, hform] at hafter
      split
      · exact marks_numericEscape (by decide) hopening hc
      · next hoctal =>
        rw [if_neg hoctal] at hafter
        split
        · exact marks_singleton hopening hc
        · next hline =>
          rw [if_neg hline] at hafter
          exact marks_singleton hopening hafter

theorem along_stringBody (opening c : Cursor) : c.Along (stringBody opening c).after := by
  fun_induction stringBody opening c with
  | case1 here => exact .refl _
  | case2 => exact .refl _
  | case3 here p rest after hline _ => exact along_cons here rest (CodePoint.ne_scalar hline)
  | case4 here p rest c after hline _ _ first others ih =>
    have hfirst : c.Along after := along_cons here rest (CodePoint.ne_scalar hline)
    exact (hfirst.trans (along_escape c after)).trans ih
  | case5 here p rest after hline _ _ others ih =>
    exact (along_cons here rest (CodePoint.ne_scalar hline)).trans ih

theorem marks_stringBody {opening c : Cursor} (hc : opening.Along c) :
    Marks opening (stringBody opening c).reports := by
  fun_induction stringBody opening c with
  | case1 here => exact marks_singleton (.refl _) hc
  | case2 => exact marks_singleton (.refl _) hc
  | case3 => exact marks_nil _
  | case4 here p rest c after hline _ _ first others ih =>
    have hafter : c.Along after := along_cons here rest (CodePoint.ne_scalar hline)
    have hfirst := hafter.trans (along_escape c after)
    exact List.forall_mem_append.2 ⟨marks_escape hc hafter, ih (hc.trans hfirst)⟩
  | case5 here p rest after hline _ _ others ih =>
    exact ih (hc.trans (along_cons here rest (CodePoint.ne_scalar hline)))

theorem along_string (h : opening.peek ≠ some (.scalar '\n')) :
    opening.Along (string opening).after :=
  (along_next h).trans (along_stringBody opening opening.next)

theorem marks_string (h : opening.peek ≠ some (.scalar '\n')) :
    Marks opening (string opening).reports :=
  marks_stringBody (along_next h)

/-! ## Segments of templates -/

theorem along_segment (h : opening.peek ≠ some (.scalar '\n')) :
    opening.Along (segment opening).after := by
  have hbody := (along_next h).trans
    (along_skip (q := fun p => !p.isIn ['\n', '{']) rfl opening.next)
  unfold segment
  dsimp only
  split
  · next hbrace =>
    refine hbody.trans (along_next ?_)
    rw [beq_iff_eq.1 hbrace]
    decide
  · exact hbody

theorem reports_segment (opening : Cursor) : (segment opening).reports = [] := by
  unfold segment
  dsimp only
  split <;> rfl

end Literal

/-! ## Tokens -/

section Tokens

open Cursor

variable {c d : Cursor} {here : Location} {p : CodePoint} {rest : Text}

theorem along_doubled {opening : Cursor} {mark : Mark} {alone : LexicalError}
    (h : opening.peek = some p) (hp : p ≠ .scalar '\n') :
    opening.Along (doubled opening p mark alone).after := by
  have hfirst : opening.Along opening.next := along_next (by simpa [h] using hp)
  simp only [doubled]
  split
  · next hsecond =>
    refine hfirst.trans (along_next ?_)
    rw [beq_iff_eq.1 hsecond]
    simpa using hp
  · exact hfirst

theorem marks_doubled {opening : Cursor} {mark : Mark} {alone : LexicalError}
    (h : opening.peek = some p) (hp : p ≠ .scalar '\n') :
    Marks opening (doubled opening p mark alone).reports := by
  have hfirst : opening.Along opening.next := along_next (by simpa [h] using hp)
  simp only [doubled]
  split
  · exact marks_nil _
  · exact Literal.marks_singleton (.refl _) hfirst

theorem tokenKind_lineFeed (opening : Cursor) :
    tokenKind opening (.scalar '\n') = ⟨.newline, [], opening.next⟩ := rfl

/-- A token stays in its line, unless it is the end of the line. -/
theorem along_tokenKind (here : Location) (rest : Text) (hp : p ≠ .scalar '\n') :
    Along ⟨here, p :: rest⟩ (tokenKind ⟨here, p :: rest⟩ p).after := by
  have hpeek : Cursor.peek ⟨here, p :: rest⟩ ≠ some (.scalar '\n') := by simpa [peek] using hp
  have hfirst := along_cons here rest hp
  apply tokenKind_cases p (motive := fun read => Along ⟨here, p :: rest⟩ (read _).after)
  case name => exact fun _ => along_skip rfl _
  case integer => exact fun _ => Literal.along_integer _
  case string => exact fun _ => Literal.along_string hpeek
  case segment => exact fun _ _ => Literal.along_segment hpeek
  case double => exact fun _ _ _ => along_doubled rfl hp
  case single => exact fun _ _ => hfirst
  case pair =>
    intro alone withEquals _
    dsimp only
    split
    · next hequals =>
      refine hfirst.trans (along_next ?_)
      rw [show Cursor.peek ⟨here.next p, rest⟩ = _ from beq_iff_eq.1 hequals]
      decide
    · exact hfirst
  case invalid => exact hfirst

/-- What is wrong with a token is found in its line. -/
theorem marks_tokenKind (here : Location) (p : CodePoint) (rest : Text) :
    Marks ⟨here, p :: rest⟩ (tokenKind ⟨here, p :: rest⟩ p).reports := by
  by_cases hp : p = .scalar '\n'
  · rw [hp, tokenKind_lineFeed]
    exact marks_nil _
  have hpeek : Cursor.peek ⟨here, p :: rest⟩ ≠ some (.scalar '\n') := by simpa [peek] using hp
  apply tokenKind_cases p (motive := fun read => Marks ⟨here, p :: rest⟩ (read _).reports)
  case name => exact fun _ => marks_nil _
  case integer => exact fun _ => Literal.marks_integer _
  case string => exact fun _ => Literal.marks_string hpeek
  case segment =>
    intro kind _
    rw [Literal.reports_segment]
    exact marks_nil _
  case double => exact fun _ _ _ => marks_doubled rfl hp
  case single => exact fun _ _ => marks_nil _
  case pair =>
    intro alone withEquals _
    dsimp only
    split <;> exact marks_nil _
  case invalid => exact Literal.marks_singleton (.refl _) (along_cons here rest hp)

/-! ## Scans -/

/-- The token that starts with the code point `p` at a cursor. -/
def tokenAt (opening : Cursor) (p : CodePoint) : Token :=
  ⟨(tokenKind opening p).value, opening.textTo (tokenKind opening p).after,
    opening.spanTo (tokenKind opening p).after⟩

/-- What is passed over in front of a token. -/
theorem exists_gap (c : Cursor) :
    ∃ gap, (∀ p ∈ gap, isSpacing p) ∧
      c = ⟨c.here, gap ++ (c.skip isSpacing).rest⟩ ∧
      c.skip isSpacing = ⟨c.here.past gap, (c.skip isSpacing).rest⟩ :=
  ⟨c.read isSpacing, fun _ => List.mem_takeWhile_imp,
    congrArg (Cursor.mk c.here) (List.takeWhile_append_dropWhile).symm, rfl⟩

theorem scanFrom_of_skip_nil (h : c.skip isSpacing = ⟨here, []⟩) :
    scanFrom c = ⟨[.atEnd here], []⟩ := by
  rw [scanFrom]
  split
  · next hend =>
    rw [h] at hend
    cases hend
    rfl
  · next hcons =>
    rw [h] at hcons
    cases hcons

/-- The first token of a scan, and what is scanned behind it. -/
theorem scanFrom_of_skip_cons (h : c.skip isSpacing = ⟨here, p :: rest⟩) :
    scanFrom c =
      ⟨tokenAt ⟨here, p :: rest⟩ p :: (scanFrom (tokenKind ⟨here, p :: rest⟩ p).after).tokens,
        (tokenKind ⟨here, p :: rest⟩ p).reports ++
          (scanFrom (tokenKind ⟨here, p :: rest⟩ p).after).reports⟩ := by
  rw [scanFrom]
  split
  · next hend =>
    rw [h] at hend
    cases hend
  · next hcons =>
    rw [h] at hcons
    cases hcons
    rfl

theorem reaches_tokenAt (here : Location) (p : CodePoint) (rest : Text) :
    Reaches ⟨here, p :: rest⟩ (tokenKind ⟨here, p :: rest⟩ p).after :=
  (reaches_cons here p rest).trans (reaches_tokenKind here p rest)

/-- A scan that goes on behind its first token has less text ahead. -/
theorem length_lt_of_skip_cons (h : c.skip isSpacing = ⟨here, p :: rest⟩) :
    (tokenKind ⟨here, p :: rest⟩ p).after.rest.length < c.rest.length := by
  have hshorter := (reaches_tokenKind here p rest).length_le
  have hspaces := (reaches_skip isSpacing c).length_le
  rw [h] at hspaces
  exact Nat.lt_of_le_of_lt hshorter hspaces

variable {t : Token} {r : Report LexicalError} {source : Text}

/-- A token of a scan is the end of the input, or was read at a cursor on the way there, and what is
wrong with it was reported. -/
theorem mem_tokens_scanFrom (h : t ∈ (scanFrom c).tokens) :
    (∃ here, c.Reaches ⟨here, []⟩ ∧ t = .atEnd here) ∨
      ∃ here p rest, c.Reaches ⟨here, p :: rest⟩ ∧ t = tokenAt ⟨here, p :: rest⟩ p ∧
        (tokenKind ⟨here, p :: rest⟩ p).reports ⊆ (scanFrom c).reports := by
  fun_induction scanFrom c with
  | case1 c here hskip =>
    have hspaced := reaches_skip isSpacing c
    rw [hskip] at hspaced
    exact Or.inl ⟨here, hspaced, List.mem_singleton.1 h⟩
  | case2 c here p rest hskip opening first others ih =>
    have hspaced := reaches_skip isSpacing c
    rw [hskip] at hspaced
    rcases List.mem_cons.1 h with hfirst | hothers
    · exact Or.inr ⟨here, p, rest, hspaced, hfirst, List.subset_append_left _ _⟩
    · have hread : c.Reaches first.after := hspaced.trans (reaches_tokenAt here p rest)
      rcases ih hothers with ⟨there, hreach, ht⟩ | ⟨there, p', rest', hreach, ht, hreports⟩
      · exact Or.inl ⟨there, hread.trans hreach, ht⟩
      · refine Or.inr ⟨there, p', rest', hread.trans hreach, ht, ?_⟩
        exact List.Subset.trans hreports (List.subset_append_right _ _)

/-- A report of a scan was made on a token of it, which was read at a cursor on the way. -/
theorem mem_reports_scanFrom (h : r ∈ (scanFrom c).reports) :
    ∃ here p rest, c.Reaches ⟨here, p :: rest⟩ ∧
      tokenAt ⟨here, p :: rest⟩ p ∈ (scanFrom c).tokens ∧
      r ∈ (tokenKind ⟨here, p :: rest⟩ p).reports := by
  fun_induction scanFrom c with
  | case1 c here hskip => cases h
  | case2 c here p rest hskip opening first others ih =>
    have hspaced := reaches_skip isSpacing c
    rw [hskip] at hspaced
    rcases List.mem_append.1 h with hfirst | hothers
    · exact ⟨here, p, rest, hspaced, List.mem_cons_self, hfirst⟩
    · have hread : c.Reaches first.after := hspaced.trans (reaches_tokenAt here p rest)
      obtain ⟨there, p', rest', hreach, htoken, hr⟩ := ih hothers
      exact ⟨there, p', rest', hread.trans hreach, List.mem_cons_of_mem _ htoken, hr⟩

theorem offset_le_of_mem_scanFrom (h : t ∈ (scanFrom c).tokens) :
    c.here.offset ≤ t.span.start.offset := by
  rcases mem_tokens_scanFrom h with ⟨here, hreach, rfl⟩ | ⟨here, p, rest, hreach, rfl, -⟩
  · exact hreach.offset_le
  · exact hreach.offset_le

/-- The tokens stand one behind the other. -/
theorem pairwise_scanFrom (c : Cursor) :
    (scanFrom c).tokens.Pairwise fun t u => t.span.stop.offset ≤ u.span.start.offset := by
  fun_induction scanFrom c with
  | case1 c here hskip => exact List.pairwise_singleton _ _
  | case2 c here p rest hskip opening first others ih =>
    exact List.pairwise_cons.2 ⟨fun u hu => offset_le_of_mem_scanFrom hu, ih⟩

/-! ## Where the tokens of a source are -/

theorem isIn_of_mem_tokens (h : t ∈ (scan source).tokens) : t.span.IsIn source := by
  rcases mem_tokens_scanFrom h with ⟨here, hreach, rfl⟩ | ⟨here, p, rest, hreach, rfl, -⟩
  · exact ⟨hreach.isIn, hreach.isIn, Nat.le_refl _⟩
  · have hread := reaches_tokenAt here p rest
    exact ⟨hreach.isIn, (hreach.trans hread).isIn, hread.offset_le⟩

theorem isIn_of_mem_reports (h : r ∈ (scan source).reports) : r.span.IsIn source := by
  obtain ⟨here, p, rest, hreach, -, hr⟩ := mem_reports_scanFrom h
  obtain ⟨d, e, hd, he, hspan⟩ := marks_tokenKind here p rest r hr
  rw [hspan]
  have hstart := hreach.trans hd.reaches
  exact ⟨hstart.isIn, (hstart.trans he.reaches).isIn, he.reaches.offset_le⟩

/-- A cursor with text ahead in a text that ends a line is not behind the last line. -/
theorem Cursor.Reaches.line_le (h : (ofText source).Reaches d) (hsource : source.EndsLine)
    (hd : d.rest ≠ []) : d.here.line ≤ source.lineFeeds := by
  have hline := h.line_eq
  obtain ⟨t, hrest, -⟩ := h
  have hends : d.rest.EndsLine := by
    have hsplit : source = t ++ d.rest := hrest
    rw [hsplit] at hsource
    exact hsource.of_append hd
  have hpos := Text.lineFeeds_pos_of_mem hends.mem
  omega

end Tokens

end WireScript
