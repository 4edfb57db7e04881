import Mathlib.Data.List.Induction
import WireScript.Script.Compile

/-!
# Places in a source

Where a place in a source is, and where it comes to be when more text stands in front.

* `Location.IsIn` says that a location is that of a place in a text: what `Location.past` makes of
  the text in front of it.  `Location.isIn_iff_locate` says that these are the locations that
  `locate` finds, so that stepping over a text and counting its line feeds come to the same.
* `Location.behind`, and with it `behind` of all that has locations, moves a location by the lines
  and the code points of a text that is put in front.
* `Text.line?_append` and the two lemmas behind it look up a line in a text made of two, the first
  of which ends with the end of a line.  The diagnostics of the parts are then those of the whole,
  with their locations moved.
-/

namespace WireScript

/-! ## Lines of a text -/

namespace Text

/-- The number of line feeds in a text. -/
def lineFeeds (t : Text) : Nat := t.countP (·.is '\n')

/-- A text that ends with the end of a line. -/
def EndsLine (t : Text) : Prop := ∃ u : Text, t = u ++ [.scalar '\n']

variable {t u front : Text}

@[simp] theorem lineFeeds_append (t u : Text) : lineFeeds (t ++ u) = t.lineFeeds + u.lineFeeds :=
  List.countP_append

theorem lineFeeds_lineFeed : lineFeeds [.scalar '\n'] = 1 := rfl

theorem lineFeeds_pos_of_mem (h : .scalar '\n' ∈ t) : 0 < t.lineFeeds :=
  List.countP_pos_iff.2 ⟨_, h, rfl⟩

theorem EndsLine.mem (h : t.EndsLine) : .scalar '\n' ∈ t := by
  obtain ⟨u, rfl⟩ := h
  simp

/-- What is left of a text that ends a line ends that line too, unless nothing is left. -/
theorem EndsLine.of_append (h : EndsLine (t ++ u)) (hu : u ≠ []) : u.EndsLine := by
  obtain ⟨v, hv⟩ := h
  obtain ⟨front, p, rfl⟩ := List.eq_nil_or_concat u |>.resolve_left hu
  rw [List.concat_eq_append, ← List.append_assoc] at hv
  obtain ⟨-, hp⟩ := List.append_inj' hv rfl
  exact ⟨front, by rw [List.concat_eq_append, hp]⟩

/-- A separator between two texts separates their pieces. -/
theorem pieces_append_separator (c : Char) (t u : Text) :
    pieces c (t ++ .scalar c :: u) = pieces c t ++ pieces c u := by
  induction t with
  | nil => simp [pieces, CodePoint.is]
  | cons p t ih =>
    rw [List.cons_append, pieces, pieces, ih]
    split
    · rfl
    · cases hpieces : pieces c t with
      | nil => exact absurd hpieces (pieces_ne_nil c t)
      | cons piece rest => rfl

/-- A text without the separator is one piece. -/
theorem pieces_of_not_mem {c : Char} (h : .scalar c ∉ t) : pieces c t = [t] := by
  induction t with
  | nil => rfl
  | cons p t ih =>
    have hp : p.is c = false := by
      simpa [CodePoint.is] using (List.ne_of_not_mem_cons h).symm
    rw [pieces, hp, ih (List.not_mem_of_not_mem_cons h)]
    rfl

/-- The separator is in none of the pieces. -/
theorem not_mem_of_mem_pieces {c : Char} {piece : Text} (h : piece ∈ pieces c t) :
    .scalar c ∉ piece := by
  induction t generalizing piece with
  | nil =>
    obtain rfl := List.mem_singleton.1 h
    exact List.not_mem_nil
  | cons p t ih =>
    rw [pieces] at h
    split at h
    · rcases List.mem_cons.1 h with rfl | h
      · exact List.not_mem_nil
      · exact ih h
    · next hp =>
      have hne : .scalar c ≠ p := fun heq => hp (by simp [CodePoint.is, heq])
      cases hpieces : pieces c t with
      | nil => exact absurd hpieces (pieces_ne_nil c t)
      | cons first rest =>
        rw [hpieces] at h ih
        rcases List.mem_cons.1 h with rfl | h
        · exact List.not_mem_cons_of_ne_of_not_mem hne (ih List.mem_cons_self)
        · exact ih (List.mem_cons_of_mem _ h)

/-- A line of a text has no line feed in it. -/
theorem lineFeed_not_mem_of_line? {n : Nat} {line : Text} (h : t.line? n = some line) :
    .scalar '\n' ∉ line := by
  unfold line? at h
  split at h
  · cases h
  · obtain ⟨piece, hpiece, rfl⟩ := Option.map_eq_some_iff.1 h
    have hshort : dropTrailing (·.is '\r') piece <+: piece := dropTrailing_prefix piece
    intro hmem
    exact not_mem_of_mem_pieces (List.mem_of_getElem? hpiece) (hshort.subset hmem)

/-- The lines of texts that are put one below the other. -/
theorem lines_join {ts : List Text} (h : ts ≠ []) : (join "\n" ts).lines = ts.flatMap lines := by
  induction ts with
  | nil => exact absurd rfl h
  | cons t ts ih =>
    cases ts with
    | nil => simp [join]
    | cons u ts =>
      have hjoin : join "\n" (t :: u :: ts) = t ++ .scalar '\n' :: join "\n" (u :: ts) :=
        List.append_assoc t _ _
      rw [hjoin, List.flatMap_cons, ← ih (List.cons_ne_nil u ts)]
      exact pieces_append_separator '\n' t _

theorem length_lines (t : Text) : t.lines.length = t.lineFeeds + 1 := by
  unfold lines lineFeeds
  induction t with
  | nil => rfl
  | cons p t ih =>
    rw [pieces, List.countP_cons]
    split
    · rw [List.length_cons, ih]
    · cases hpieces : pieces '\n' t with
      | nil => exact absurd hpieces (pieces_ne_nil '\n' t)
      | cons piece rest => simpa [hpieces] using ih

/-- The lines of a text that ends a line: the last of them is empty. -/
theorem EndsLine.exists_lines (h : front.EndsLine) :
    ∃ ls : List Text, ls.length = front.lineFeeds ∧ front.lines = ls ++ [[]] ∧
      ∀ back, lines (front ++ back) = ls ++ back.lines := by
  obtain ⟨t, rfl⟩ := h
  refine ⟨t.lines, ?_, pieces_append_separator '\n' t [], fun back => ?_⟩
  · rw [length_lines, lineFeeds_append, lineFeeds_lineFeed]
  · rw [List.append_assoc]
    exact pieces_append_separator '\n' t back

/-- A line of the first part. -/
theorem line?_append_of_le (h : front.EndsLine) (back : Text) {n : Nat}
    (hn : n ≤ front.lineFeeds) : line? (front ++ back) n = front.line? n := by
  obtain ⟨ls, hlength, hfront, hwhole⟩ := h.exists_lines
  unfold line?
  split
  · rfl
  · rw [hfront, hwhole, List.getElem?_append_left (by omega), List.getElem?_append_left (by omega)]

/-- A line of the second part. -/
theorem line?_append_add (h : front.EndsLine) (back : Text) {n : Nat} (hn : 0 < n) :
    line? (front ++ back) (n + front.lineFeeds) = back.line? n := by
  obtain ⟨ls, hlength, -, hwhole⟩ := h.exists_lines
  have hindex : n + front.lineFeeds - 1 - ls.length = n - 1 := by omega
  rw [line?, line?, if_neg (by omega), if_neg (by omega), hwhole,
    List.getElem?_append_right (by omega), hindex]

end Text

/-! ## Places -/

namespace Location

variable {source t u : Text} {here : Location}

/-- A location is that of a place in a text. -/
def IsIn (source : Text) (here : Location) : Prop :=
  ∃ t u, source = t ++ u ∧ here = first.past t

theorem line_next (here : Location) (p : CodePoint) :
    (here.next p).line = here.line + Text.lineFeeds [p] := by
  unfold next Text.lineFeeds
  cases h : p.is '\n' <;> simp [h]

theorem line_past (here : Location) (t : Text) : (here.past t).line = here.line + t.lineFeeds := by
  induction t generalizing here with
  | nil => rfl
  | cons p t ih =>
    rw [past_cons, ih, line_next, Nat.add_assoc, ← Text.lineFeeds_append, List.singleton_append]

/-- A text without a line feed stays on its line. -/
theorem line_past_of_not_mem (here : Location) (h : .scalar '\n' ∉ t) :
    (here.past t).line = here.line := by
  have hnone : t.lineFeeds = 0 := by
    refine List.countP_eq_zero.2 fun p hp hfeed => h ?_
    rwa [eq_of_beq hfeed] at hp
  rw [line_past, hnone, Nat.add_zero]

/-- The offset behind a text is its length. -/
theorem offset_first_past (t : Text) : (first.past t).offset = t.length :=
  (offset_past first t).trans (Nat.zero_add _)

theorem past_concat (here : Location) (t : Text) (p : CodePoint) :
    here.past (t ++ [p]) = (here.past t).next p :=
  past_append here t [p]

/-- The column behind a text counts the code points behind its last line feed. -/
theorem column_past (t : Text) :
    (first.past t).column = (t.reverse.takeWhile fun p => !p.is '\n').length + 1 := by
  induction t using List.reverseRecOn with
  | nil => rfl
  | append_singleton t p ih =>
    rw [past_concat, List.reverse_append, List.reverse_singleton, List.singleton_append]
    unfold next
    cases h : p.is '\n' <;> simp [h, ih]

/-- Counting line feeds in front of a place finds the location that stepping over them leads to. -/
theorem locate_past (t u : Text) : locate (t ++ u) (first.past t).offset = first.past t := by
  have hoffset := offset_first_past t
  have hline : (first.past t).line = t.countP (·.is '\n') + 1 :=
    (line_past first t).trans (Nat.add_comm _ _)
  have hbefore : (t ++ u).take (first.past t).offset = t := by rw [hoffset, List.take_left]
  rw [locate, Int.toNat_natCast, hbefore, ← hline, ← column_past t, ← hoffset]

/-- The locations in a text are those that `locate` finds for the offsets in it. -/
theorem isIn_iff_locate :
    here.IsIn source ↔ here.offset ≤ source.length ∧ here = locate source here.offset := by
  constructor
  · rintro ⟨t, u, rfl, rfl⟩
    refine ⟨?_, (locate_past t u).symm⟩
    rw [offset_first_past, List.length_append]
    exact Nat.le_add_right _ _
  · rintro ⟨hle, hlocate⟩
    refine ⟨source.take here.offset, source.drop here.offset, (List.take_append_drop _ _).symm, ?_⟩
    have hpast := locate_past (source.take here.offset) (source.drop here.offset)
    have hoffset : (first.past (source.take here.offset)).offset = here.offset := by
      rw [offset_first_past, List.length_take, Nat.min_eq_left hle]
    rw [List.take_append_drop, hoffset, ← hlocate] at hpast
    exact hpast

theorem IsIn.offset_le (h : here.IsIn source) : here.offset ≤ source.length :=
  (isIn_iff_locate.1 h).1

/-- The place behind a text is one of its places. -/
theorem isIn_past (source : Text) : (first.past source).IsIn source :=
  ⟨source, [], (List.append_nil source).symm, rfl⟩

/-- A later place is on the same line or a later one. -/
theorem IsIn.line_mono {there : Location} (h : here.IsIn source) (hthere : there.IsIn source)
    (hle : here.offset ≤ there.offset) : here.line ≤ there.line := by
  rw [(isIn_iff_locate.1 h).2, (isIn_iff_locate.1 hthere).2]
  have hfront : (source.take here.offset).Sublist (source.take there.offset) :=
    List.take_sublist_take_left hle
  exact Nat.succ_le_succ hfront.countP_le

theorem IsIn.line_pos (h : here.IsIn source) : 0 < here.line := by
  obtain ⟨t, u, -, rfl⟩ := h
  rw [line_past]
  exact Nat.lt_of_lt_of_le Nat.zero_lt_one (Nat.le_add_right _ _)

theorem IsIn.line_le (h : here.IsIn source) : here.line ≤ source.lineFeeds + 1 := by
  obtain ⟨t, u, rfl, rfl⟩ := h
  rw [line_past, Text.lineFeeds_append]
  show 1 + t.lineFeeds ≤ t.lineFeeds + u.lineFeeds + 1
  omega

/-- There is a line at every place, and it is found without the carriage returns at its end. -/
theorem IsIn.exists_line? (h : here.IsIn source) :
    ∃ line, source.lines[here.line - 1]? = some line ∧
      source.line? here.line = some (line.dropTrailing (·.is '\r')) := by
  have hpos := h.line_pos
  have hlt : here.line - 1 < source.lines.length := by
    rw [Text.length_lines]
    have hle := h.line_le
    omega
  have hline := List.getElem?_eq_getElem hlt
  refine ⟨_, hline, ?_⟩
  rw [Text.line?, if_neg (Nat.pos_iff_ne_zero.1 hpos), hline]
  rfl

/-! ## Text in front -/

/-- Where a location comes to be when a text is put in front. -/
def behind (front : Text) (here : Location) : Location :=
  ⟨here.line + front.lineFeeds, here.column, here.offset + front.length⟩

variable {front : Text}

theorem next_behind (here : Location) (p : CodePoint) :
    (here.behind front).next p = (here.next p).behind front := by
  unfold next behind
  cases p.is '\n' with
  | true => simp [Nat.add_right_comm]
  | false => simp [Nat.add_right_comm]

theorem past_behind (here : Location) (t : Text) :
    (here.behind front).past t = (here.past t).behind front := by
  induction t generalizing here with
  | nil => rfl
  | cons p t ih => rw [past_cons, past_cons, next_behind, ih]

@[simp] theorem behind_nil (here : Location) : here.behind [] = here := rfl

/-- Behind a text that ends a line everything starts over in the first column. -/
theorem behind_first (h : front.EndsLine) : first.behind front = first.past front := by
  have hoffset := offset_first_past front
  have hline := line_past first front
  obtain ⟨t, rfl⟩ := h
  have hcolumn : (first.past (t ++ [.scalar '\n'])).column = 1 := by
    rw [past_concat]
    rfl
  unfold behind
  rw [← hoffset]
  show Location.mk (first.line + _) 1 (0 + _) = _
  rw [← hline, ← hcolumn, Nat.zero_add]

end Location

namespace Span

/-- Where a stretch of source comes to be when a text is put in front. -/
def behind (front : Text) (span : Span) : Span :=
  ⟨span.start.behind front, span.stop.behind front⟩

/-- A stretch of source runs from one place in a text to the same or a later one. -/
structure IsIn (source : Text) (span : Span) : Prop where
  start : span.start.IsIn source
  stop : span.stop.IsIn source
  le : span.start.offset ≤ span.stop.offset

end Span

/-! ## Diagnostics -/

/-- Where a report comes to be when a text is put in front. -/
def Report.behind {ε : Type} (front : Text) (r : Report ε) : Report ε :=
  { r with span := r.span.behind front }

/-- Where a diagnostic comes to be when a text is put in front. -/
def Diagnostic.behind (front : Text) (d : Diagnostic) : Diagnostic :=
  { d with span := d.span.behind front }

section Diagnose

variable {ε : Type} [Cause ε] {front : Text} {r : Report ε}

/-- What is reported on the first part of a source says the same about the whole. -/
theorem Source.diagnose_front (h : front.EndsLine) (back : Text) (file : Option Text)
    (hr : r.span.start.line ≤ front.lineFeeds) :
    Source.diagnose ⟨front ++ back, file⟩ r = Source.diagnose ⟨front, file⟩ r := by
  have hline := Text.line?_append_of_le h back hr
  simp only [diagnose, Report.diagnostic, Option.bind_some, hline]

/-- What is reported on the second part of a source says the same about the whole, but elsewhere. -/
theorem Source.diagnose_behind (h : front.EndsLine) (back : Text) (file : Option Text)
    (hr : 0 < r.span.start.line) :
    Source.diagnose ⟨front ++ back, file⟩ (r.behind front) =
      (Source.diagnose ⟨back, file⟩ r).behind front := by
  have hline : Text.line? (front ++ back) (r.span.behind front).start.line =
      back.line? r.span.start.line := Text.line?_append_add h back hr
  simp only [diagnose, Report.diagnostic, Report.behind, Diagnostic.behind, Option.bind_some,
    hline]

end Diagnose

end WireScript
