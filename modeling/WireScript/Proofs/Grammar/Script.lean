import WireScript.Proofs.Grammar.Complete
import WireScript.Proofs.Grammar.Sound
import WireScript.Proofs.Token.Breakage
import WireScript.Script.Compile

/-!
# The parser accepts exactly its grammar

From expressions to scripts: `Line.derives_iff` says that a line is read without a report if and
only if its tokens make a statement, and `parse_iff_derivesScript` says it of all tokens up to the
end of the input.

The lines of a list of tokens are found by `Line.split`; `Line.split_last` and `Line.split_line` are
its two rules in the form in which the grammar speaks of lines, and `Line.induction` is the
induction that goes with them.
-/

namespace WireScript

open Grammar LineParser

variable {source : Option Text} {p q : LineParser} {ts us : List Token} {t stop : Token} {e : Tree}
  {s : Stmt Unit}

/-! ## Statements -/

namespace LineParser

theorem finish_reports_eq_nil_iff : p.finish.reports = [] ↔ p.reports = [] ∧ p.ahead = [] := by
  have hreports := reports_unexpected_ne_nil p .newline
  unfold finish
  split
  · next h =>
    have hdone : p.ahead = [] ∨ p.reports ≠ [] := by simpa using h
    exact ⟨fun hnil => ⟨hnil, hdone.resolve_right (not_not_intro hnil)⟩, fun hnil => hnil.1⟩
  · next h =>
    have hmore : p.ahead ≠ [] ∧ p.reports = [] := by simpa using h
    exact ⟨fun hnil => absurd hnil hreports, fun hnil => absurd hnil.2 hmore.1⟩

theorem finish_of_ahead_eq_nil (h : p.ahead = []) : p.finish = p := by
  simp [finish, h]

theorem Bounded.current_kind (hq : q.Bounded) (h : q.ahead = []) :
    q.current.kind = .newline ∨ q.current.kind = .endOfInput := by
  rw [current, h]
  exact hq

/-- Reading has come to the end of the last token that was read. -/
theorem getLast?_of_reads (h : Reads ts p q) (hts : ts ≠ []) :
    ts.getLast? = some (q.consumed.headD q.current) := by
  rw [h.consumed]
  have hne : ts.reverse ≠ [] := by simpa using hts
  obtain ⟨t, us, hrev⟩ := List.exists_cons_of_ne_nil hne
  rw [← List.head?_reverse, hrev]
  rfl

/-- The text of an operand depends only on the tokens that were read. -/
theorem operandText_of_reads (h : Reads ts p q) (hts : ts ≠ []) :
    operandText source p q = remembered source ts := by
  have hlast := getLast?_of_reads h hts
  have hfirst : ts.head? = some p.current := by
    obtain ⟨t, us, rfl⟩ := List.exists_cons_of_ne_nil hts
    rw [h.current_eq]
    rfl
  cases source with
  | some source => simp [operandText, remembered, hfirst, hlast, lastStop]
  | none => simp [operandText, remembered, h.ahead]

/-- An operand that fills the rest of a line is read. -/
theorem operand_of_derives (h : Derives .expression ts e) (hreads : Reads ts p q)
    (hq : q.ahead = []) (hp : p.Bounded) : ∃ e', p.operand = (e', q) ∧ bare e' = e := by
  have hstop := (hp.of_reads hreads).current_kind hq
  have hahead : p.ahead = ts := by rw [hreads.ahead, hq, List.append_nil]
  apply h.isRead p.depth p q hreads
  · exact Nat.le_of_eq (by rw [depth, hahead])
  · rcases hstop with hkind | hkind <;> simp [Token.operator?, hkind]
  · rcases hstop with hkind | hkind <;> simp [Token.isMark, hkind]

/-- What a reader has taken that left nothing of the line and nothing to report. -/
theorem ahead_of_took {P : List Token → Prop} (htook : Took p q P) (h : q.finish.reports = []) :
    Reads p.ahead p q ∧ P p.ahead := by
  obtain ⟨hnil, hahead⟩ := finish_reports_eq_nil_iff.1 h
  obtain ⟨ts, hreads, hts⟩ := htook.2 hnil
  have hts_eq : p.ahead = ts := by rw [hreads.ahead, hahead, List.append_nil]
  rw [hts_eq]
  exact ⟨hreads, hts⟩

/-- The operand of a statement with a sign, if the line is read without a report. -/
theorem derives_behind_sign (source : Option Text) (hp : p.Bounded) {m : Mark}
    (hkind : p.current.kind = .mark m) (h : p.advance.operand.2.finish.reports = []) :
    ∃ us, p.ahead = p.current :: us ∧ Derives .expression us (bare p.advance.operand.1) ∧
      operandText source p.advance p.advance.operand.2 = remembered source us ∧
      ∀ t, us.getLast? = some t → t.span.stop = p.advance.operand.2.lastStop := by
  have hoperand := took_operand (bounded_advance.2 hp)
  have htook := Took.over hp (by simp [hkind]) (by simp [hkind]) hoperand
  obtain ⟨hreads, us, htokens, hus⟩ := ahead_of_took htook h
  rw [htokens] at hreads
  obtain ⟨_, _, rfl, -⟩ := hus.exists_head (by simp)
  have hlast := getLast?_of_reads hreads.advance (List.cons_ne_nil _ _)
  refine ⟨_, htokens, hus, operandText_of_reads hreads.advance (by simp), fun t ht => ?_⟩
  rw [lastStop, ← Option.some.inj (ht.symm.trans hlast)]

/-- A line that is read without a report is a statement. -/
theorem derives_of_statement (hp : p.Bounded) (h : (p.statement source).2.reports = []) :
    DerivesStatement source p.ahead ((p.statement source).1.map fun _ => ()) := by
  unfold statement at h ⊢
  dsimp only at h ⊢
  split at h
  · next hkind =>
    obtain ⟨us, htokens, hus, -⟩ := derives_behind_sign source hp hkind h
    rw [htokens]
    exact .send hkind hus
  · next hkind =>
    obtain ⟨us, htokens, hus, htext, -⟩ := derives_behind_sign source hp hkind h
    rw [htokens, Stmt.map, htext]
    exact .receive hkind hus
  · next hkind =>
    obtain ⟨us, htokens, hus, htext, -⟩ := derives_behind_sign source hp hkind h
    rw [htokens, Stmt.map, htext]
    exact .assert hkind hus
  · exact .expr (ahead_of_took (took_operand hp) h).2

/-- An operand that fills the rest of a line behind a sign is read. -/
theorem operand_behind_sign (source : Option Text) (h : Derives .expression ts e)
    (hreads : Reads (t :: ts) p q) (hq : q.ahead = []) (hp : p.Bounded) :
    ∃ e', p.advance.operand = (e', q) ∧ bare e' = e ∧
      operandText source p.advance q = remembered source ts := by
  obtain ⟨e', hoperand, he⟩ := operand_of_derives h hreads.advance hq (bounded_advance.2 hp)
  obtain ⟨_, _, rfl, -⟩ := h.exists_head (by simp)
  exact ⟨e', hoperand, he, operandText_of_reads hreads.advance (by simp)⟩

/-- A statement that fills the rest of a line is read. -/
theorem statement_of_derives (h : DerivesStatement source ts s) (hreads : Reads ts p q)
    (hq : q.ahead = []) (hp : p.Bounded) :
    ∃ s', p.statement source = (s', q) ∧ s'.map (fun _ => ()) = s := by
  have hfinish := finish_of_ahead_eq_nil hq
  cases h with
  | send ht h =>
    obtain ⟨e', hoperand, rfl, -⟩ := operand_behind_sign source h hreads hq hp
    refine ⟨.send (q.spanFrom p.current) e', ?_, rfl⟩
    simp only [statement, hreads.current_eq, ht, hoperand, hfinish]
  | receive ht h =>
    obtain ⟨e', hoperand, rfl, htext⟩ := operand_behind_sign source h hreads hq hp
    rw [← htext]
    refine ⟨.receive (q.spanFrom p.current) e' (operandText source p.advance q), ?_, rfl⟩
    simp only [statement, hreads.current_eq, ht, hoperand, hfinish]
  | assert ht h =>
    obtain ⟨e', hoperand, rfl, htext⟩ := operand_behind_sign source h hreads hq hp
    rw [← htext]
    refine ⟨.assert (q.spanFrom p.current) e' (operandText source p.advance q), ?_, rfl⟩
    simp only [statement, hreads.current_eq, ht, hoperand, hfinish]
  | expr h =>
    obtain ⟨e', hoperand, rfl⟩ := operand_of_derives h hreads hq hp
    obtain ⟨t, us, rfl, ht⟩ := h.exists_head (by simp)
    refine ⟨.expr e'.note e', ?_, rfl⟩
    -- no operand starts with one of the signs that make another statement
    unfold statement
    dsimp only
    rw [hreads.current_eq]
    split
    · next hkind => simp [hkind, opensOperand] at ht
    · next hkind => simp [hkind, opensOperand] at ht
    · next hkind => simp [hkind, opensOperand] at ht
    · simp only [hoperand, hfinish]

end LineParser

/-- A line is read without a report if and only if its tokens make a statement, and then as that
statement. -/
theorem Line.derives_iff (line : Line)
    (hstop : line.stop.kind = .newline ∨ line.stop.kind = .endOfInput) :
    DerivesStatement source line.tokens s ↔
      (line.parse source).2 = [] ∧ (line.parse source).1.map (fun _ => ()) = s := by
  have hp : (ofLine line).Bounded := hstop
  constructor
  · intro h
    have hreads : Reads line.tokens (ofLine line) ⟨line.tokens.reverse, [], line.stop, []⟩ :=
      ⟨by simp [ofLine], by simp [ofLine], rfl, rfl⟩
    obtain ⟨s', hstatement, hs⟩ := statement_of_derives h hreads rfl hp
    rw [Line.parse, hstatement]
    exact ⟨rfl, hs⟩
  · rintro ⟨hreports, rfl⟩
    apply derives_of_statement hp
    simpa [Line.parse] using hreports

/-! ## Lines -/

namespace Line

/-- Tokens without the end of a line are one line. -/
theorem split_last (h : ∀ t ∈ ts, t.kind ≠ .newline) : split stop ts = [⟨ts, stop⟩] := by
  induction ts with
  | nil => rfl
  | cons t ts ih =>
    rw [split, ih fun t ht => h t (List.mem_cons_of_mem _ ht)]
    have ht := h t List.mem_cons_self
    simp [Token.isNewline, ht]

/-- Tokens in front of the first end of a line are the first line. -/
theorem split_line (h : ∀ t ∈ ts, t.kind ≠ .newline) (ht : t.kind = .newline) :
    split stop (ts ++ t :: us) = ⟨ts, t⟩ :: split stop us := by
  induction ts with
  | nil => simp [split, Token.isNewline, ht]
  | cons t' ts ih =>
    rw [List.cons_append, split, ih fun t ht => h t (List.mem_cons_of_mem _ ht)]
    have ht' := h t' List.mem_cons_self
    simp [Token.isNewline, ht']

/-- The lines that have tokens. -/
def filled (stop : Token) (tokens : List Token) : List Line :=
  (split stop tokens).filter fun line => !line.tokens.isEmpty

theorem filled_blank (ht : t.kind = .newline) : filled stop (t :: us) = filled stop us := by
  have hsplit : split stop ([] ++ t :: us) = _ := split_line (List.forall_mem_nil _) ht
  rw [List.nil_append] at hsplit
  rw [filled, hsplit]
  rfl

theorem filled_last (h : ∀ t ∈ ts, t.kind ≠ .newline) (hts : ts ≠ []) :
    filled stop ts = [⟨ts, stop⟩] := by
  rw [filled, split_last h]
  simp [hts]

theorem filled_line (h : ∀ t ∈ ts, t.kind ≠ .newline) (hts : ts ≠ []) (ht : t.kind = .newline) :
    filled stop (ts ++ t :: us) = ⟨ts, t⟩ :: filled stop us := by
  rw [filled, split_line h ht]
  simp [hts, filled]

/-- Induction over the lines of a list of tokens. -/
theorem induction {motive : List Token → Prop} (empty : motive [])
    (blank : ∀ t us, t.kind = .newline → motive us → motive (t :: us))
    (last : ∀ ts, (∀ t ∈ ts, t.kind ≠ .newline) → ts ≠ [] → motive ts)
    (line : ∀ ts t us, (∀ t ∈ ts, t.kind ≠ .newline) → ts ≠ [] → t.kind = .newline → motive us →
      motive (ts ++ t :: us)) (tokens : List Token) : motive tokens := by
  -- what stands in front is the beginning of a line that has not ended yet
  have hbegun (ts : List Token) (hts : ∀ t ∈ ts, t.kind ≠ .newline) : motive (ts ++ tokens) := by
    induction tokens generalizing ts with
    | nil =>
      rw [List.append_nil]
      by_cases hne : ts = []
      · exact hne ▸ empty
      · exact last ts hts hne
    | cons t tokens ih =>
      by_cases ht : t.kind = .newline
      · have hrest := ih [] (List.forall_mem_nil _)
        by_cases hne : ts = []
        · exact hne ▸ blank t tokens ht hrest
        · exact line ts t tokens hts hne ht hrest
      · rw [List.append_cons]
        apply ih
        simpa [or_imp, forall_and] using ⟨hts, ht⟩
  exact hbegun [] (List.forall_mem_nil _)

/-- The tokens of a line stand one behind the other. -/
theorem infix_of_mem_filled {line : Line} (h : line ∈ filled stop ts) : line.tokens <:+: ts := by
  induction ts using Line.induction with
  | empty => cases h
  | blank t us ht ih =>
    rw [filled_blank ht] at h
    exact (ih h).trans (List.suffix_cons t us).isInfix
  | last ts hts hne =>
    rw [filled_last hts hne] at h
    obtain rfl := List.mem_singleton.1 h
    exact List.infix_refl ts
  | line ts t us hts hne ht ih =>
    rw [filled_line hts hne ht] at h
    rcases List.mem_cons.1 h with rfl | h
    · exact (List.prefix_append ts (t :: us)).isInfix
    · exact (ih h).trans ⟨ts ++ [t], [], by simp⟩

end Line

/-! ## Scripts -/

/-- The statement on a line, without its positions. -/
def Line.bareStatement (source : Option Text) (line : Line) : Stmt Unit :=
  (line.parse source).1.map fun _ => ()

/-- Tokens make a script if and only if each of their lines is read without a report, and then the
script of the statements on these lines. -/
theorem derivesScript_iff {tokens : List Token} {ss : List (Stmt Unit)}
    (hstop : stop.kind = .endOfInput) :
    DerivesScript source tokens ss ↔
      (∀ line ∈ Line.filled stop tokens, (line.parse source).2 = []) ∧
        (Line.filled stop tokens).map (Line.bareStatement source) = ss := by
  constructor
  · intro h
    induction h with
    | empty => exact ⟨List.forall_mem_nil _, rfl⟩
    | blank ht _ ih => rwa [Line.filled_blank ht]
    | @last ts s h =>
      have hline := (Line.derives_iff ⟨ts, stop⟩ (Or.inr hstop)).1 h
      rw [Line.filled_last h.not_newline h.ne_nil]
      exact ⟨by simp [hline.1], by simp [Line.bareStatement, hline.2]⟩
    | @line t ts us s ss h ht _ ih =>
      have hline := (Line.derives_iff ⟨ts, t⟩ (Or.inl ht)).1 h
      rw [Line.filled_line h.not_newline h.ne_nil ht]
      exact ⟨by simpa [hline.1] using ih.1, by simp [Line.bareStatement, hline.2, ih.2]⟩
  · rintro ⟨hreports, rfl⟩
    induction tokens using Line.induction with
    | empty => exact .empty
    | blank t us ht ih =>
      rw [Line.filled_blank ht] at hreports ⊢
      exact .blank ht (ih hreports)
    | last ts hts hne =>
      rw [Line.filled_last hts hne] at hreports ⊢
      have hline := hreports _ List.mem_cons_self
      exact .last ((Line.derives_iff _ (Or.inr hstop)).2 ⟨hline, rfl⟩)
    | line ts t us hts hne ht ih =>
      rw [Line.filled_line hts hne ht] at hreports ⊢
      have hline := hreports _ List.mem_cons_self
      have hrest := ih fun line hmem => hreports line (List.mem_cons_of_mem _ hmem)
      exact .line ((Line.derives_iff _ (Or.inl ht)).2 ⟨hline, rfl⟩) ht hrest

/-- What parsing comes to: the tokens in front of the end of the input make a script if and only if
there is no report, and then the script that parsing returns. -/
theorem derivesScript_iff_parse {tokens : List Token} {ss : List (Stmt Unit)} :
    DerivesScript source (tokens.takeWhile fun t => !t.isEnd) ss ↔
      (parse source tokens).reports = [] ∧
        (parse source tokens).script.statements.map (Stmt.map fun _ => ()) = ss := by
  have hstop (here : Location) :
      ((tokens.find? (·.isEnd)).getD (.atEnd here)).kind = .endOfInput := by
    cases hfind : tokens.find? (·.isEnd) with
    | none => rfl
    | some t => simpa [Token.isEnd] using List.find?_some hfind
  rw [derivesScript_iff (hstop _)]
  apply and_congr
  · exact List.flatMap_eq_nil_iff.trans List.forall_mem_map |>.symm
  · dsimp only [parse]
    rw [List.map_map, List.map_map]
    rfl

/-- The parser accepts exactly its grammar: there is no report if and only if the tokens in front of
the end of the input make a script, and then the statements are those of every derivation. -/
theorem parse_accepts_grammar (source : Option Text) (tokens : List Token) :
    ((parse source tokens).reports = [] ↔
        ∃ ss, DerivesScript source (tokens.takeWhile fun t => !t.isEnd) ss) ∧
      ∀ ss, DerivesScript source (tokens.takeWhile fun t => !t.isEnd) ss →
        (parse source tokens).script.map (fun _ => ()) = ⟨(), ss⟩ := by
  constructor
  · constructor
    · intro h
      exact ⟨_, derivesScript_iff_parse.2 ⟨h, rfl⟩⟩
    · intro h
      obtain ⟨ss, hss⟩ := h
      exact (derivesScript_iff_parse.1 hss).1
  · intro ss hss
    rw [Script.map, (derivesScript_iff_parse.1 hss).2]

/-- A token that stands nowhere. -/
def unplaced (kind : TokenKind) : Token :=
  ⟨kind, [], .empty .first⟩

/-- Differences associate to the left. -/
theorem parse_accepts_differences :
    (parse none ([.name "a", .mark .minus, .name "b", .mark .minus, .integer 1, .endOfInput].map
        unplaced)).reports = [] ∧
      (parse none ([.name "a", .mark .minus, .name "b", .mark .minus, .integer 1, .endOfInput].map
          unplaced)).script.map (fun _ => ()) =
        ⟨(), [.expr () (.binary () .sub (.binary () .sub (.name () "a") (.name () "b"))
          (.integer () 1))]⟩ := by
  have hname (x : Text) : Derives .product [unplaced (.name x)] (.name () x) :=
    .ofUnary (.ofAtom (.name rfl))
  have hone : Derives .product [unplaced (.integer 1)] (.integer () 1) :=
    .ofUnary (.ofAtom (.integer rfl))
  have hinner := Derives.add (.ofProduct (hname "a"))
    (rfl : (unplaced (.mark .minus)).kind = .mark .minus) rfl (hname "b")
  have houter := Derives.add hinner
    (rfl : (unplaced (.mark .minus)).kind = .mark .minus) rfl hone
  have hscript : DerivesScript none _ _ :=
    .last (.expr (.ofDisjunction (.ofConjunction (.ofComparison (.ofSum houter)))))
  have hparse := parse_accepts_grammar none
    ([.name "a", .mark .minus, .name "b", .mark .minus, .integer 1, .endOfInput].map unplaced)
  exact ⟨hparse.1.2 ⟨_, hscript⟩, hparse.2 _ hscript⟩

theorem Token.isEnd_eq_false_iff : t.isEnd = false ↔ t.kind ≠ .endOfInput := by
  simp [isEnd]

/-- What stands in front of the end of the input. -/
theorem takeWhile_atEnd (hts : ∀ t ∈ ts, t.isEnd = false) (here : Location) :
    (ts ++ [Token.atEnd here]).takeWhile (fun t => !t.isEnd) = ts := by
  rw [List.takeWhile_append_of_pos fun t ht => by simp [hts t ht]]
  exact List.append_nil ts

namespace Source

variable {source : Source} {script : Script Span}

/-- A source compiles to what is parsed from its tokens if nothing is reported, and no string keeps
a token from being made; then no integer does. -/
theorem compile_eq_script_iff_parse :
    source.compile = .script script ↔
      (scan source.text).isEncodable = true ∧ (scan source.text).reports = [] ∧
        (parse (some source.text) (scan source.text).tokens).reports = [] ∧
        (parse (some source.text) (scan source.text).tokens).script = script := by
  constructor
  · intro h
    unfold compile at h
    split at h
    · cases h
    · next hresult =>
      obtain ⟨rfl, hencodable, -⟩ := tokenize_eq_ok_iff.1 hresult
      dsimp only at h
      split at h
      · cases h
      · split at h
        · cases h
        · simp_all
  · rintro ⟨hencodable, hreports, hclean, rfl⟩
    rw [compile, tokenize_of_reports hencodable hreports]
    simp [hreports, hclean]

/-- A source whose tokens make a script compiles to it. -/
theorem compile_of_derives (source : Source) {ss : List (Stmt Unit)}
    (hencodable : (scan source.text).isEncodable) (hreports : (scan source.text).reports = [])
    (h : DerivesScript (some source.text)
      ((scan source.text).tokens.takeWhile fun t => !t.isEnd) ss) :
    ∃ script, source.compile = .script script ∧ script.map (fun _ => ()) = ⟨(), ss⟩ := by
  obtain ⟨hclean, hstatements⟩ := derivesScript_iff_parse.1 h
  refine ⟨_, compile_eq_script_iff_parse.2 ⟨hencodable, hreports, hclean, rfl⟩, ?_⟩
  rw [Script.map, hstatements]

/-- A source that is scanned without a report compiles to the script that its tokens make. -/
theorem compile_of_scan (source : Source) {ts : List Token} {stop : Location}
    {ss : List (Stmt Unit)} (hscan : scan source.text = ⟨ts ++ [.atEnd stop], []⟩)
    (hencodable : (scan source.text).isEncodable) (hends : ∀ t ∈ ts, t.kind ≠ .endOfInput)
    (h : DerivesScript (some source.text) ts ss) :
    ∃ script, source.compile = .script script ∧ script.map (fun _ => ()) = ⟨(), ss⟩ := by
  have hbody := takeWhile_atEnd (fun t ht => Token.isEnd_eq_false_iff.2 (hends t ht)) stop
  exact source.compile_of_derives hencodable (by rw [hscan]) (by rw [hscan, hbody]; exact h)

end Source

end WireScript
