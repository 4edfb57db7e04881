import WireScript.Proofs.Grammar.Layout
import WireScript.Proofs.Run.Place
import WireScript.Proofs.Source.Append
import WireScript.Run.Report

/-!
# Positions are true

Every location that a source leads to is the one that `locate` finds for its offset: in its tokens,
in the diagnostics on them, in every node of the script and in the diagnostics of its runs.

* The tokens stand in the source, one behind the other (`inOrder_tokens`).
* What is parsed has no locations but those of the tokens (`Source.parse_located`), and the ends of
  every stretch are in order (`Source.parse_forward`).
* A run fails at a note of its script, so `Source.positions_located` puts these together.
-/

namespace WireScript

/-! ## True positions -/

/-- The two ends of a stretch are the locations of offsets in a source, in order. -/
structure Span.Located (source : Text) (a : Span) : Prop where
  start : a.start = locate source a.start.offset
  stop : a.stop = locate source a.stop.offset
  forward : a.start.offset ≤ a.stop.offset
  stop_le : a.stop.offset ≤ source.length

/-- A diagnostic has the name of the source, a stretch in it, and the line of source on which the
stretch starts, without the carriage returns at its end. -/
structure Diagnostic.Located (source : Source) (d : Diagnostic) : Prop where
  file : d.file = source.file
  span : d.span.Located source.text
  line : ∃ line, source.text.lines[d.span.start.line - 1]? = some line ∧
    d.sourceLine = some (line.dropTrailing (·.is '\r'))

theorem Span.IsIn.located {source : Text} {a : Span} (h : a.IsIn source) : a.Located source :=
  ⟨(Location.isIn_iff_locate.1 h.start).2, (Location.isIn_iff_locate.1 h.stop).2, h.le,
    h.stop.offset_le⟩

theorem Source.located_diagnose {ε : Type} [Cause ε] (source : Source) {r : Report ε}
    (h : r.span.IsIn source.text) : (source.diagnose r).Located source :=
  ⟨rfl, h.located, h.start.exists_line?⟩

/-! ## Tokens -/

/-- The tokens of a source stand one behind the other. -/
theorem inOrder_tokens (source : Text) : InOrder (scan source).tokens :=
  ⟨fun _ ht => (isIn_of_mem_tokens ht).le, pairwise_scanFrom (.ofText source)⟩

/-- Tokens in order stand between the first and the last of them. -/
theorem InOrder.within {ts : List Token} (h : InOrder ts) {t u : Token} (ht : t ∈ ts)
    (hu : u ∈ ts) (stop : Token) :
    Span.Within ⟨t.span.start, u.span.stop⟩
      ⟨(ts.headD stop).span.start, (ts.getLast?.getD stop).span.stop⟩ := by
  constructor
  · cases ts with
    | nil => cases ht
    | cons first ts =>
      rcases List.mem_cons.1 ht with rfl | ht
      · exact Nat.le_refl _
      · have hbefore := (List.pairwise_cons.1 h.before).1 t ht
        exact Nat.le_trans (h.forward first List.mem_cons_self) hbefore
  · rcases List.eq_nil_or_concat ts with rfl | ⟨front, last, rfl⟩
    · cases hu
    · rw [List.concat_eq_append] at h hu ⊢
      rw [List.getLast?_concat, Option.getD_some]
      rcases List.mem_append.1 hu with hu | hu
      · have hbefore := (List.pairwise_append.1 h.before).2.2 u hu last (List.mem_singleton_self _)
        exact Nat.le_trans hbefore (h.forward last (List.mem_append_right _ List.mem_cons_self))
      · rw [List.mem_singleton.1 hu]

/-- The stretch from the first to the last of some tokens. -/
theorem InOrder.forward_headD {ts : List Token} {stop : Token} (h : InOrder (ts ++ [stop])) :
    Span.Forward ⟨(ts.headD stop).span.start, (ts.getLast?.getD stop).span.stop⟩ := by
  cases ts with
  | nil => exact h.forward stop List.mem_cons_self
  | cons t ts =>
    have ht := h.forward t List.mem_cons_self
    have hfront := h.sublist (List.sublist_append_left (t :: ts) [stop])
    exact (hfront.within List.mem_cons_self List.mem_cons_self stop).forward ht

/-! ## What is parsed -/

namespace Source

variable {source : Source} {script : Script Span}

/-- What is parsed has no locations but those of the tokens. -/
theorem parse_located (source : Source) :
    (∀ s ∈ source.statements, ∀ a ∈ s.notes,
        a.start.IsIn source.text ∧ a.stop.IsIn source.text) ∧
      ∀ r ∈ source.parsed.reports,
        r.span.start.IsIn source.text ∧ r.span.stop.IsIn source.text := by
  have hend := Location.isIn_past source.text
  have hs : (Likeness.moved id (Location.IsIn source.text) (Location.IsIn source.text)
      fun _ => id).Slices source.text source.text := by
    rintro a _ b _ ⟨rfl, -⟩ ⟨rfl, -⟩
    rfl
  obtain ⟨⟨-, hnotes⟩, -, hreports⟩ := Likeness.parse_moved
    (.atEnd (Location.first.past source.text)) hs ⟨hend, hend⟩
    (fun t ht => (isIn_of_mem_body ht).start) (fun t ht => (isIn_of_mem_body ht).stop)
    fun t ht _ => (isIn_of_mem_body ht).stop
  rw [source.parsed_eq.1, source.parsed_eq.2]
  exact ⟨hnotes, hreports⟩

/-- The tokens of a line are in order, and the line ends with the end of a line or of the input. -/
theorem inOrder_of_mem_lines {line : Line} (h : line ∈ source.lines) :
    InOrder (line.tokens ++ [line.stop]) ∧
      (line.stop.kind = .newline ∨ line.stop.kind = .endOfInput) := by
  obtain ⟨hsublist, hstop⟩ := Line.of_mem_filled h
  have horder : InOrder source.tokens := inOrder_tokens source.text
  rw [tokens_eq] at horder
  exact ⟨horder.sublist hsublist, hstop.imp_right fun heq => by rw [heq]; rfl⟩

/-- Every line of a source is read in order. -/
theorem parse_orderly (source : Source) {line : Line} (h : line ∈ source.lines) :
    (∀ r ∈ (line.parse (some source.text)).2, r.span.Forward) ∧
      ((line.parse (some source.text)).2 = [] →
        (line.parse (some source.text)).1.Nested) := by
  obtain ⟨horder, hstop⟩ := inOrder_of_mem_lines h
  exact Line.parse_orderly _ hstop horder

/-- The reports on a source have their ends in order, and so have the nodes of its statements if
there is no report. -/
theorem parse_forward (source : Source) :
    (∀ r ∈ source.parsed.reports, r.span.Forward) ∧
      (source.parsed.reports = [] → ∀ s ∈ source.statements, s.Nested) := by
  obtain ⟨hstatements, hreports⟩ := source.parsed_eq
  rw [hstatements, hreports]
  constructor
  · intro r hr
    obtain ⟨line, hline, hr⟩ := List.mem_flatMap.1 hr
    exact (source.parse_orderly hline).1 r hr
  · intro hnil s hs
    obtain ⟨line, hline, rfl⟩ := List.mem_map.1 hs
    exact (source.parse_orderly hline).2 (List.flatMap_eq_nil_iff.1 hnil line hline)

theorem isIn_of_mem_parsed {r : Report SyntaxError} (h : r ∈ source.parsed.reports) :
    r.span.IsIn source.text :=
  ⟨(source.parse_located.2 r h).1, (source.parse_located.2 r h).2, source.parse_forward.1 r h⟩

/-- A script stands on the stretch from its first token to its last. -/
theorem note_parsed (source : Source) :
    let stop : Token := .atEnd (Location.first.past source.text)
    source.parsed.script.note =
      ⟨((scan source.text).body.headD stop).span.start,
        ((scan source.text).body.getLast?.getD stop).span.stop⟩ := by
  intro stop
  have hfind : source.tokens.find? (·.isEnd) = some stop := by
    rw [tokens_eq, List.find?_append, List.find?_eq_none.2 fun t ht => by
      rw [not_isEnd_of_mem_body ht]
      exact Bool.false_ne_true]
    rfl
  simp only [parsed, parse, hfind, Option.getD_some]
  rfl

/-- Every node of a script stands in the source. -/
theorem isIn_of_mem_notes (h : source.compile = .script script) :
    ∀ a ∈ script.notes, a.IsIn source.text := by
  obtain ⟨-, -, hsyntax, rfl⟩ := compile_eq_script_iff.1 h
  refine List.forall_mem_cons.2 ⟨?_, fun a ha => ?_⟩
  · have horder : InOrder source.tokens := inOrder_tokens source.text
    have hmem (t) (ht : t ∈ source.tokens) : t.span.IsIn source.text := isIn_of_mem_tokens ht
    rw [tokens_eq] at horder hmem
    rw [note_parsed]
    refine ⟨(hmem _ ?_).start, (hmem _ ?_).stop, horder.forward_headD⟩
    · cases (scan source.text).body with
      | nil => exact List.mem_cons_self
      | cons t ts => exact List.mem_cons_self
    · cases hlast : (scan source.text).body.getLast? with
      | none => exact List.mem_append_right _ List.mem_cons_self
      | some t => exact List.mem_append_left _ (List.mem_of_getLast? hlast)
  · obtain ⟨s, hs, ha⟩ := List.mem_flatMap.1 ha
    obtain ⟨hstart, hstop⟩ := source.parse_located.1 s hs a ha
    have hnested := source.parse_forward.2 (List.map_eq_nil_iff.1 hsyntax) s hs
    exact ⟨hstart, hstop, hnested.forall_notes a ha⟩

/-- Every position that is reported is true: in the tokens of a source, in the diagnostics on them,
in every node of the script, and in the diagnostic with which a run of the script fails. -/
theorem positions_located (source : Source) :
    (∀ t ∈ source.tokens, t.span.Located source.text) ∧
      (∀ d ∈ source.lexicalDiagnostics, d.Located source) ∧
      (∀ d ∈ source.syntaxDiagnostics, d.Located source) ∧
      ∀ script, source.compile = .script script →
        (∀ a ∈ script.notes, a.Located source.text) ∧
          ∀ (clock : Clock) (w : World) (bindings : Bindings),
            ∀ r ∈ source.result (script.execute clock w).1 bindings,
              ∀ d ∈ r.diagnostic, d.Located source := by
  refine ⟨fun t ht => (isIn_of_mem_tokens ht).located,
    List.forall_mem_map.2 fun r hr => source.located_diagnose (isIn_of_mem_reports hr),
    List.forall_mem_map.2 fun r hr => source.located_diagnose (isIn_of_mem_parsed hr),
    fun script hscript => ⟨fun a ha => (isIn_of_mem_notes hscript a ha).located, ?_⟩⟩
  intro clock w bindings r hr d hd
  unfold result at hr
  split at hr
  · cases hr
    cases hd
  · next error span hhalt =>
    cases hr
    cases hd
    obtain ⟨s, hs, hspan⟩ := Script.mem_notes_of_halt hhalt
    exact source.located_diagnose (isIn_of_mem_notes hscript span (Script.mem_notes hs hspan))
  · cases hr

/-- A run that fails on the second line of a source with carriage returns. -/
theorem positions_located_assertion :
    let source : Source := ⟨"x = 1\r\n~ x == :a\r\r\n", some "s.pest"⟩
    let ending := (source.parsed.script.execute (fun _ => 0) {}).1
    let d := source.failure (.assertionFailed "x == :a") ⟨⟨2, 1, 7⟩, ⟨2, 12, 18⟩⟩
    source.compile = .script source.parsed.script ∧
      (source.result ending []).bind (·.diagnostic) = some d ∧ d.Located source ∧
      d.sourceLine = some ("~ x == :a" : Text) := by
  intro source ending d
  have hscript : source.compile = .script source.parsed.script :=
    compile_eq_script_iff.2 ⟨by decide +kernel, by decide +kernel, by decide +kernel, rfl⟩
  have hhalt : ending.halt =
      some (.failed (.assertionFailed "x == :a") ⟨⟨2, 1, 7⟩, ⟨2, 12, 18⟩⟩) := by decide +kernel
  have hresult : source.result ending [] =
      some ⟨false, ending.completed, some d.message, some d, []⟩ := by rw [result, hhalt]
  have hlocated := ((positions_located source).2.2.2 _ hscript).2 (fun _ => 0) {} [] _ hresult d rfl
  refine ⟨hscript, ?_, hlocated, by decide +kernel⟩
  rw [hresult]
  rfl

end Source

end WireScript
