import WireScript.Proofs.Grammar.Passes
import WireScript.Proofs.Source.Cover
import WireScript.Proofs.Source.Located

/-!
# Spans nest

In a source that compiles, every node stands within the node above it, on the line of its statement,
and a name stands where it is spelled.

* Along a line of source: `Covers.onLine` says that tokens which do not end lines have one line
  number, as white space and lexemes without a line feed lead from one to the next.
* From tokens to statements: `Line.parse_within` says that a statement reaches from a token of its
  line to a token of its line, and `Line.exists_name` that its names are tokens of the line.
* Lines follow each other as their tokens do (`Line.flatMap_filled_sublist`), and
  `script_spans_nest` puts these together.
-/

namespace WireScript

/-! ## Along a line of source -/

/-- A token starts and ends on a line of source. -/
def Token.OnLine (n : Nat) (t : Token) : Prop := t.span.start.line = n ∧ t.span.stop.line = n

theorem not_lineFeed_mem_gap {gap : Text} (hgap : ∀ p ∈ gap, isSpacing p) :
    .scalar '\n' ∉ gap :=
  fun hmem => absurd (hgap _ hmem) (by decide)

namespace Covers

variable {c : Cursor} {t : Token} {tokens ts us : List Token}

/-- The first token is on the line where the text starts, if it does not end that, and behind it
there are the other tokens. -/
theorem uncons (h : Covers c (t :: tokens)) :
    t.span.start.line = c.here.line ∧ (t.kind ≠ .newline → t.span.stop.line = c.here.line) ∧
      (tokens ≠ [] → ∃ d, Covers d tokens ∧ d.here = t.span.stop) := by
  cases h with
  | @stop here gap hgap =>
    have hline := here.line_past_of_not_mem (not_lineFeed_mem_gap hgap)
    exact ⟨hline, fun _ => hline, absurd rfl⟩
  | @token here gap lexeme rest kind tokens hgap hlexeme hkind hfeed h =>
    have hline := here.line_past_of_not_mem (not_lineFeed_mem_gap hgap)
    refine ⟨hline, fun hkind => ?_, fun _ => ⟨_, h, rfl⟩⟩
    exact ((here.past gap).line_past_of_not_mem (hfeed hkind)).trans hline

/-- Behind some of the tokens there are the others. -/
theorem exists_behind (h : Covers c (ts ++ us)) (hus : us ≠ []) : ∃ d, Covers d us := by
  induction ts generalizing c with
  | nil => exact ⟨c, h⟩
  | cons t ts ih =>
    obtain ⟨-, -, hothers⟩ := h.uncons
    obtain ⟨d, hd, -⟩ := hothers (List.append_ne_nil_of_right_ne_nil ts hus)
    exact ih hd

/-- Tokens that do not end lines are on the line where the text starts, and there the token behind
them starts. -/
theorem onLine (h : Covers c (ts ++ t :: us)) (hts : ∀ t ∈ ts, t.kind ≠ .newline) :
    (∀ t ∈ ts, t.OnLine c.here.line) ∧ t.span.start.line = c.here.line := by
  induction ts generalizing c with
  | nil => exact ⟨List.forall_mem_nil _, h.uncons.1⟩
  | cons u ts ih =>
    obtain ⟨hu, hts⟩ := List.forall_mem_cons.1 hts
    obtain ⟨hstart, hstop, hothers⟩ := h.uncons
    obtain ⟨d, hd, hhere⟩ := hothers (List.append_ne_nil_of_right_ne_nil ts (List.cons_ne_nil t us))
    have hsame : d.here.line = c.here.line := by rw [hhere, hstop hu]
    rw [← hsame] at hstart hstop ⊢
    obtain ⟨hothers, ht⟩ := ih hd hts
    exact ⟨List.forall_mem_cons.2 ⟨⟨hstart, hstop hu⟩, hothers⟩, ht⟩

end Covers

namespace Line

/-- The tokens of a line are on one line of source, and there its end starts. -/
theorem exists_onLine {c : Cursor} {ts : List Token} {stop : Token}
    (h : Covers c (ts ++ [stop])) {line : Line} (hline : line ∈ filled stop ts) :
    ∃ n, (∀ t ∈ line.tokens, t.OnLine n) ∧ line.stop.span.start.line = n := by
  induction ts using Line.induction generalizing c with
  | empty => cases hline
  | blank t ts ht ih =>
    rw [filled_blank ht] at hline
    have hsplit : Covers c ([t] ++ (ts ++ [stop])) := h
    obtain ⟨d, hd⟩ := hsplit.exists_behind (List.append_ne_nil_of_right_ne_nil ts (by simp))
    exact ih hd hline
  | last ts hts hne =>
    rw [filled_last hts hne] at hline
    obtain rfl := List.mem_singleton.1 hline
    exact ⟨_, h.onLine hts⟩
  | line ts t rest hts hne ht ih =>
    rw [filled_line hts hne ht] at hline
    rw [List.append_assoc] at h
    rcases List.mem_cons.1 hline with rfl | hline
    · exact ⟨_, h.onLine hts⟩
    · rw [List.cons_append, ← List.singleton_append, ← List.append_assoc] at h
      obtain ⟨d, hd⟩ := h.exists_behind (List.append_ne_nil_of_right_ne_nil rest (by simp))
      exact ih hd hline

/-- The tokens of the lines are tokens, in their order. -/
theorem flatMap_filled_sublist (stop : Token) (ts : List Token) :
    ((filled stop ts).flatMap (·.tokens)).Sublist ts := by
  induction ts using Line.induction with
  | empty => exact .refl _
  | blank t ts ht ih =>
    rw [filled_blank ht]
    exact ih.cons t
  | last ts hts hne =>
    rw [filled_last hts hne, List.flatMap_singleton]
  | line ts t rest hts hne ht ih =>
    rw [filled_line hts hne ht, List.flatMap_cons]
    exact (List.Sublist.refl ts).append (ih.cons t)

end Line

/-! ## Names -/

/-- What is read for a name is the name. -/
theorem textTo_of_name {opening : Cursor} {p : CodePoint} {x : Text}
    (h : (tokenKind opening p).value = .name x) :
    opening.textTo (tokenKind opening p).after = x := by
  revert h
  apply tokenKind_cases p (motive := fun read =>
    (read opening).value = .name x → opening.textTo (read opening).after = x)
  all_goals dsimp only
  case name =>
    rintro - ⟨⟩
    have hreads := Cursor.reaches_skip (fun p => p.isLetter || p.isDigit) opening
    have hsplit := hreads.textTo_append
    exact List.append_cancel_right (hsplit.symm.trans (List.takeWhile_append_dropWhile).symm)
  case integer => exact fun _ h => nomatch h
  case string => exact fun _ h => nomatch h
  case segment =>
    intro kind hkind h
    rcases hkind.kind_eq with rfl | rfl <;> cases h
  case double =>
    intro mark alone _ h
    rcases doubled_cases opening p mark alone with hvalue | hvalue <;> cases hvalue.symm.trans h
  case single =>
    rintro kind hkind rfl
    rcases singleMark_cases hkind with hvalue | ⟨mark, hvalue⟩ <;> cases hvalue
  case pair =>
    intro alone withEquals _ h
    split at h <;> cases h
  case invalid => exact fun h => nomatch h

theorem lexeme_of_name {c : Cursor} {t : Token} {x : Text} (ht : t ∈ (scanFrom c).tokens)
    (h : t.kind = .name x) : t.lexeme = x := by
  rcases mem_tokens_scanFrom ht with ⟨here, -, rfl⟩ | ⟨here, p, rest, -, rfl, -⟩
  · cases h
  · exact textTo_of_name h

/-! ## The statement on a line -/

section Line

variable {line : Line}

/-- A statement that is read without a report is nested, and reaches from a token of its line to a
token of its line. -/
theorem Line.parse_within (source : Option Text) (hne : line.tokens ≠ [])
    (hstop : line.stop.kind = .newline ∨ line.stop.kind = .endOfInput)
    (hline : InOrder (line.tokens ++ [line.stop])) (hclean : (line.parse source).2 = []) :
    ∃ t ∈ line.tokens, ∃ u ∈ line.tokens,
      (line.parse source).1.note.Within ⟨t.span.start, u.span.stop⟩ := by
  have horderly : (LineParser.ofLine line).Orderly := ⟨hstop, hline, List.forall_mem_nil _⟩
  obtain ⟨-, hwithin⟩ := (horderly.statement source).2 (by simpa [Line.parse] using hclean)
  obtain ⟨ts, hpasses, -⟩ := LineParser.takes_statement horderly.bounded source
  obtain ⟨u, hu, hlast⟩ := hpasses.exists_lastStop rfl hne
  obtain ⟨t, others, htokens⟩ := List.exists_cons_of_ne_nil hne
  have hfirst : (LineParser.ofLine line).current = t := by
    rw [LineParser.current, LineParser.ofLine, htokens]
    rfl
  rw [LineParser.spanFrom, hfirst, hlast] at hwithin
  exact ⟨t, htokens ▸ List.mem_cons_self, u, hu, hwithin⟩

/-- The names in a statement are tokens of its line. -/
theorem Line.exists_name (source : Option Text)
    (hstop : line.stop.kind = .newline ∨ line.stop.kind = .endOfInput) {a : Span} {x : Text}
    (h : (a, x) ∈ (line.parse source).1.operand.names) :
    ∃ t ∈ line.tokens, t.kind = .name x ∧ t.span = a := by
  have hbounded : (LineParser.ofLine line).Bounded := hstop
  obtain ⟨ts, hpasses, hnames⟩ := LineParser.takes_statement hbounded source
  obtain ⟨t, ht, hname⟩ := List.mem_filterMap.1 (hnames h)
  have hmem : t ∈ line.tokens := by
    have hahead : line.tokens = ts ++ _ := hpasses.ahead
    rw [hahead]
    exact List.mem_append_left _ ht
  unfold Token.name? at hname
  split at hname
  · next x' hkind =>
    cases hname
    exact ⟨t, hmem, hkind, rfl⟩
  · cases hname

end Line

/-! ## The statements of a script -/

/-- Every statement stands within the script and every node of its operand within the node above it,
and the statements stand one behind the other. -/
structure Script.Nested (script : Script Span) : Prop where
  within : ∀ s ∈ script.statements, s.Nested ∧ s.note.Within script.note
  before : script.statements.Pairwise fun s t => s.note.Before t.note

/-- A stretch within another one that is on one line of source. -/
theorem Span.Within.line_eq {source : Text} {a b : Span} (h : a.Within b) (ha : a.IsIn source)
    (hstart : b.start.IsIn source) (hstop : b.stop.IsIn source)
    (hline : b.start.line = b.stop.line) : a.start.line = a.stop.line := by
  have hfirst := hstart.line_mono ha.start h.start
  have hinside := ha.start.line_mono ha.stop ha.le
  have hlast := ha.stop.line_mono hstop h.stop
  omega

namespace Source

variable {source : Source} {line : Line}

theorem subset_body_of_mem_lines (h : line ∈ source.lines) :
    line.tokens ⊆ (scan source.text).body := by
  have hsublist := Line.flatMap_filled_sublist (.atEnd (Location.first.past source.text))
    (scan source.text).body
  exact fun t ht => hsublist.subset (List.mem_flatMap.2 ⟨line, h, ht⟩)

theorem inOrder_body (source : Source) : InOrder (scan source.text).body :=
  (inOrder_tokens source.text).sublist (List.takeWhile_sublist _)

/-- The lines of a source stand one behind the other. -/
theorem pairwise_lines (source : Source) :
    source.lines.Pairwise fun l m => ∀ t ∈ l.tokens, ∀ u ∈ m.tokens, t.span.Before u.span := by
  have hsublist := Line.flatMap_filled_sublist (.atEnd (Location.first.past source.text))
    (scan source.text).body
  exact (List.pairwise_flatMap.1 (source.inOrder_body.before.sublist hsublist)).2

/-- In a source without syntax errors a statement reaches from a token of its line to a token of
its line. -/
theorem exists_within (hclean : source.parsed.reports = []) (h : line ∈ source.lines) :
    ∃ t ∈ line.tokens, ∃ u ∈ line.tokens,
      (line.parse (some source.text)).1.note.Within ⟨t.span.start, u.span.stop⟩ := by
  obtain ⟨horder, hstop⟩ := inOrder_of_mem_lines h
  rw [source.parsed_eq.2] at hclean
  exact Line.parse_within _ (Line.ne_nil_of_mem_filled h) hstop horder
    (List.flatMap_eq_nil_iff.1 hclean line h)

/-- A name stands where it is spelled. -/
theorem slice_of_mem_names (h : line ∈ source.lines) {a : Span} {x : Text}
    (hname : (a, x) ∈ (line.parse (some source.text)).1.operand.names) :
    source.text.slice a.start.offset a.stop.offset = x := by
  obtain ⟨t, ht, hkind, rfl⟩ :=
    Line.exists_name (some source.text) (inOrder_of_mem_lines h).2 hname
  have hmem : t ∈ source.tokens :=
    (List.takeWhile_subset _) (subset_body_of_mem_lines h ht)
  have hlexeme := (source.covers_tokens.slices [] rfl rfl).1 t hmem
  exact hlexeme.symm.trans (lexeme_of_name hmem hkind)

/-- The tokens of a line are on one line of source, and there its end starts. -/
theorem exists_onLine_of_mem_lines (h : line ∈ source.lines) :
    ∃ n, (∀ t ∈ line.tokens, t.OnLine n) ∧ line.stop.span.start.line = n := by
  have hcovers := source.covers_tokens
  rw [tokens_eq] at hcovers
  exact Line.exists_onLine hcovers h

/-- Spans nest in a source that compiles.  Every node stands within the node above it, the left one
of two in front of the right one, and the statements stand in order within the script.  Each of them
is on one line, and every name stands where it is spelled. -/
theorem script_spans_nest {script : Script Span} (h : source.compile = .script script) :
    script.Nested ∧
      ∀ s ∈ script.statements, s.note.start.line = s.note.stop.line ∧
        ∀ name ∈ s.operand.names,
          source.text.slice name.1.start.offset name.1.stop.offset = name.2 := by
  have hnotes := isIn_of_mem_notes h
  obtain ⟨-, -, hsyntax, rfl⟩ := compile_eq_script_iff.1 h
  have hclean := List.map_eq_nil_iff.1 hsyntax
  have hnested := source.parse_forward.2 hclean
  have hscript := source.note_parsed
  have hstatements : source.parsed.script.statements = _ := source.parsed_eq.1
  constructor
  · constructor
    · intro s hs
      refine ⟨hnested s hs, ?_⟩
      rw [hstatements] at hs
      obtain ⟨line, hline, rfl⟩ := List.mem_map.1 hs
      obtain ⟨t, ht, u, hu, hwithin⟩ := exists_within hclean hline
      have hbody := subset_body_of_mem_lines hline
      rw [hscript]
      exact hwithin.trans (source.inOrder_body.within (hbody ht) (hbody hu) _)
    · rw [hstatements, List.pairwise_map]
      refine source.pairwise_lines.imp_of_mem fun {l m} hl hm hbefore => ?_
      obtain ⟨_, _, u, hu, hfirst⟩ := exists_within hclean hl
      obtain ⟨t, ht, _, _, hsecond⟩ := exists_within hclean hm
      exact Nat.le_trans hfirst.stop (Nat.le_trans (hbefore u hu t ht) hsecond.start)
  · intro s hs
    have hnote := hnotes s.note (Script.mem_notes hs List.mem_cons_self)
    rw [hstatements] at hs
    obtain ⟨line, hline, rfl⟩ := List.mem_map.1 hs
    obtain ⟨t, ht, u, hu, hwithin⟩ := exists_within hclean hline
    obtain ⟨n, hn, -⟩ := exists_onLine_of_mem_lines hline
    have hbody := subset_body_of_mem_lines hline
    refine ⟨?_, fun name hname => slice_of_mem_names hline hname⟩
    exact hwithin.line_eq hnote (isIn_of_mem_body (hbody ht)).start
      (isIn_of_mem_body (hbody hu)).stop ((hn t ht).1.trans (hn u hu).2.symm)

/-- A group, a sign, a negated comparison and a template, each on a line of its own. -/
theorem script_spans_nest_lowered :
    let source : Source := ⟨"n = (1 + -2)\n~ n <= 3\n\n> :a\x7bn\x7db", none⟩
    let script := source.parsed.script
    source.compile = .script script ∧ script.Nested ∧
      script.statements.map (fun s => (s.note.start.offset, s.note.stop.offset)) =
        [(0, 12), (13, 21), (23, 31)] ∧
      ∀ s ∈ script.statements, s.note.start.line = s.note.stop.line ∧
        ∀ name ∈ s.operand.names,
          source.text.slice name.1.start.offset name.1.stop.offset = name.2 := by
  intro source script
  have hscript : source.compile = .script script :=
    compile_eq_script_iff.2 ⟨by decide +kernel, by decide +kernel, by decide +kernel, rfl⟩
  obtain ⟨hnested, hplaces⟩ := script_spans_nest hscript
  exact ⟨hscript, hnested, by decide +kernel, hplaces⟩

end Source

end WireScript
