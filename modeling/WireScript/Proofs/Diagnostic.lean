import Mathlib.Data.List.Basic
import WireScript.Diagnostic
import WireScript.Proofs.Source.Place
import WireScript.Proofs.Text.Decimal

/-!
# Carets under the source line

A diagnostic quotes its source line in one row and marks the span with carets in the row below.  The
two rows have margins of their own: the number of the line fills up one of them, and the other is
always the same.

* The rows.  `lines_render` says where the two rows stand in the text of a diagnostic, whatever line
  feeds there are in its message and in its hints.
* The carets.  `idxOf_caretRow` and `count_caretRow` say where they start and how many there are.
* The margins.  `PointsAtSpan` says that the carets start under the span.  The margin with the line
  number is as wide as the other one up to the third digit (`length_numberMargin`), so that they do
  in the first 999 lines and in no others (`pointsAtSpan_iff`).
-/

namespace WireScript

namespace Diagnostic

variable {d : Diagnostic} {span : Span} {line margin carets : Text}

/-! ## The rows -/

/-- What stands in front of the source line in its row. -/
def numberMargin (span : Span) : Text :=
  Text.padLeft 3 (Text.ofNat span.start.line) ++ " | "

/-- The row of carets. -/
def caretRow (span : Span) (line : Text) : Text :=
  "    | " ++ Text.copies (span.start.column - 1) ' ' ++ Text.copies (caretCount span line) '^'

/-- The rows of the hints. -/
def hintRows (d : Diagnostic) : List Text :=
  d.hints.map fun hint : Text => "    = hint: " ++ hint

theorem rows_of_sourceLine (h : d.sourceLine = some line) :
    d.rows true = d.header :: ("  |" : Text) :: (numberMargin d.span ++ line) ::
      caretRow d.span line :: d.hintRows := by
  unfold rows
  rw [h]
  rfl

theorem lineFeed_not_mem_numberMargin (span : Span) : .scalar '\n' ∉ numberMargin span := by
  have hnumber : .scalar '\n' ∉ Text.ofNat span.start.line := by
    intro h
    exact absurd (Text.isDigit_of_mem_ofNat h) (by decide)
  have hbar : .scalar '\n' ∉ (" | " : Text) := by decide
  simp [numberMargin, Text.padLeft, hnumber, hbar]

theorem lineFeed_not_mem_caretRow (span : Span) (line : Text) :
    .scalar '\n' ∉ caretRow span line := by
  have hbar : .scalar '\n' ∉ ("    | " : Text) := by decide
  simp [caretRow, hbar]

/-- The rows of the quotation come behind those of the header, which are several if the message has
line feeds in it. -/
theorem lines_render (h : d.sourceLine = some line) (hfree : .scalar '\n' ∉ line) :
    (d.render true).lines = d.header.lines ++ ("  |" : Text) :: (numberMargin d.span ++ line) ::
      caretRow d.span line :: d.hintRows.flatMap Text.lines := by
  have hgutter : Text.lines "  |" = [("  |" : Text)] := Text.pieces_of_not_mem (by decide)
  have hquoted : (numberMargin d.span ++ line).lines = [numberMargin d.span ++ line] := by
    apply Text.pieces_of_not_mem
    intro hmem
    rcases List.mem_append.1 hmem with hmargin | hline
    · exact lineFeed_not_mem_numberMargin d.span hmargin
    · exact hfree hline
  have hcarets : (caretRow d.span line).lines = [caretRow d.span line] :=
    Text.pieces_of_not_mem (lineFeed_not_mem_caretRow d.span line)
  rw [render, rows_of_sourceLine h, Text.lines_join (List.cons_ne_nil _ _), List.flatMap_cons,
    List.flatMap_cons, hgutter, List.flatMap_cons, hquoted, List.flatMap_cons, hcarets]
  rfl

/-! ## The carets -/

theorem idxOf_caretRow (span : Span) (line : Text) :
    (caretRow span line).idxOf (.scalar '^') = 6 + (span.start.column - 1) := by
  have hfront : .scalar '^' ∉ ("    | " : Text) ++ Text.copies (span.start.column - 1) ' ' := by
    have hbar : .scalar '^' ∉ ("    | " : Text) := by decide
    simp [hbar]
  have hcount : 0 < caretCount span line := Nat.le_max_left 1 _
  obtain ⟨n, hn⟩ := Nat.exists_eq_add_one.2 hcount
  have hstart : (Text.copies (n + 1) '^').idxOf (.scalar '^') = 0 := List.idxOf_cons_self
  rw [caretRow, List.idxOf_append_of_notMem hfront, hn, hstart, List.length_append,
    Text.length_copies]
  rfl

theorem count_caretRow (span : Span) (line : Text) :
    (caretRow span line).count (.scalar '^') = caretCount span line := by
  have hbar : ("    | " : Text).count (.scalar '^') = 0 := by decide
  simp [caretRow, Text.copies, List.count_replicate, hbar]

theorem caretCount_of_same_line (h : span.start.line = span.stop.line) (line : Text) :
    caretCount span line = max 1 (span.stop.column - span.start.column) := by
  rw [caretCount, if_pos h]

/-! ## The margins -/

/-- The text of a diagnostic quotes a line behind a margin, in the second row below the header, and
has carets in the row under it. -/
structure Quotes (d : Diagnostic) (margin line carets : Text) : Prop where
  quoted : (d.render true).lines[d.header.lines.length + 1]? = some (margin ++ line)
  marked : (d.render true).lines[d.header.lines.length + 2]? = some carets

/-- The first caret has the index in its row that the start of the span has in the row above, where
the source line stands behind the margin.  Columns count from one, so column `c` of a line is
`c - 1` places behind its start. -/
def PointsAtSpan (d : Diagnostic) (line : Text) : Prop :=
  ∃ margin carets, d.Quotes margin line carets ∧
    carets.idxOf (.scalar '^') = margin.length + (d.span.start.column - 1)

theorem quotes_render (h : d.sourceLine = some line) (hfree : .scalar '\n' ∉ line) :
    d.Quotes (numberMargin d.span) line (caretRow d.span line) := by
  constructor
  · rw [lines_render h hfree, List.getElem?_append_right (by omega), Nat.add_sub_cancel_left]
    rfl
  · rw [lines_render h hfree, List.getElem?_append_right (by omega), Nat.add_sub_cancel_left]
    rfl

/-- There is one way only in which a line is quoted. -/
theorem Quotes.unique {margin' carets' : Text} (h : d.Quotes margin line carets)
    (h' : d.Quotes margin' line carets') : margin = margin' ∧ carets = carets' := by
  have hrow : margin ++ line = margin' ++ line :=
    Option.some.inj (h.quoted.symm.trans h'.quoted)
  exact ⟨List.append_cancel_right hrow, Option.some.inj (h.marked.symm.trans h'.marked)⟩

theorem length_numberMargin (span : Span) :
    (numberMargin span).length = max 3 (Text.ofNat span.start.line).length + 3 := by
  rw [numberMargin, List.length_append, Text.length_padLeft]
  rfl

/-- The carets start under the span as long as the number of the line has three digits at most. -/
theorem pointsAtSpan_iff_length (h : d.sourceLine = some line) (hfree : .scalar '\n' ∉ line) :
    d.PointsAtSpan line ↔ (Text.ofNat d.span.start.line).length ≤ 3 := by
  have hquotes := quotes_render h hfree
  have hcaret := idxOf_caretRow d.span line
  have hmargin := length_numberMargin d.span
  constructor
  · rintro ⟨margin, carets, hother, haligned⟩
    obtain ⟨rfl, rfl⟩ := hquotes.unique hother
    omega
  · intro hdigits
    refine ⟨numberMargin d.span, caretRow d.span line, hquotes, ?_⟩
    omega

theorem pointsAtSpan_iff_lt (h : d.sourceLine = some line) (hfree : .scalar '\n' ∉ line) :
    d.PointsAtSpan line ↔ d.span.start.line < 1000 :=
  (pointsAtSpan_iff_length h hfree).trans (Text.length_ofNat_le_iff (by decide) _)

/-- A diagnostic on the last code point of a line of five, below lines that are empty. -/
def belowEmptyLines (n : Nat) : Diagnostic where
  code := "E001"
  message := "invalid character '@'"
  span := ⟨⟨n + 1, 5, n + 4⟩, ⟨n + 1, 6, n + 5⟩⟩
  sourceLine := some "y = @"

/-- The carets under a line are as many as the span is wide, and at least one.  They start under the
span exactly if the line is one of the first 999, whose numbers fit into the margin. -/
theorem pointsAtSpan_iff (h : d.sourceLine = some line) (hfree : .scalar '\n' ∉ line)
    (hsame : d.span.start.line = d.span.stop.line) :
    (∃ margin carets, d.Quotes margin line carets ∧
        carets.count (.scalar '^') = max 1 (d.span.stop.column - d.span.start.column)) ∧
      (d.PointsAtSpan line ↔ d.span.start.line < 1000) := by
  refine ⟨⟨_, _, quotes_render h hfree, ?_⟩, pointsAtSpan_iff_lt h hfree⟩
  rw [count_caretRow, caretCount_of_same_line hsame]

/-- The caret in line 999 is in its place. -/
theorem pointsAtSpan_belowEmptyLines :
    let d := belowEmptyLines 998
    d.sourceLine = some "y = @" ∧ .scalar '\n' ∉ ("y = @" : Text) ∧
      d.span.start.line = d.span.stop.line ∧ d.PointsAtSpan "y = @" ∧
      ∃ margin carets, d.Quotes margin "y = @" carets ∧ carets.count (.scalar '^') = 1 := by
  intro d
  have hfree : .scalar '\n' ∉ ("y = @" : Text) := by decide
  obtain ⟨hcount, hpoints⟩ := pointsAtSpan_iff (d := d) rfl hfree rfl
  exact ⟨rfl, hfree, rfl, hpoints.2 (by decide), hcount⟩

/-- The caret in line 1000 stands under the code point in front of the span. -/
theorem not_pointsAtSpan_belowEmptyLines :
    let d := belowEmptyLines 999
    d.sourceLine = some "y = @" ∧ .scalar '\n' ∉ ("y = @" : Text) ∧
      d.span.start.line = d.span.stop.line ∧ d.span.start.column ≤ d.span.stop.column ∧
      ¬ d.PointsAtSpan "y = @" := by
  intro d
  have hfree : .scalar '\n' ∉ ("y = @" : Text) := by decide
  refine ⟨rfl, hfree, rfl, by decide, fun hpoints => ?_⟩
  exact absurd ((pointsAtSpan_iff_lt rfl hfree).1 hpoints) (by decide)

end Diagnostic

/-- The line that the diagnostic of a report quotes has no line feed in it, so that the carets start
under the span of the report unless it is below line 999 of the source. -/
theorem Report.pointsAtSpan_diagnostic {ε : Type} [Cause ε] {source line : Text} {r : Report ε}
    (h : source.line? r.span.start.line = some line) (file : Option Text) :
    (r.diagnostic file (some source)).PointsAtSpan line ↔ r.span.start.line < 1000 :=
  Diagnostic.pointsAtSpan_iff_lt h (Text.lineFeed_not_mem_of_line? h)

end WireScript
