import WireScript.Proofs.Grammar.Layout
import WireScript.Proofs.Grammar.Written
import WireScript.Proofs.Source.Cover
import WireScript.Proofs.Token.Rescan

/-!
# The remembered text is the operand

A receive remembers its pattern, and an assertion its condition, as it is written in the source.
The remembered text is compiled on its own to the same tree.

* `LineParser.remembered_of_statement` says which tokens the text is remembered of: those of the
  operand, which ends where the statement ends.
* `Lexes.exists_remembered` finds the text in the source, and `Lexes.scans_stripped` scans it again.
  `Lexes.scans_spaced` does so for the text that is put together without a source.
* What tokens derive depends on their kinds only, so a text that is scanned into the same kinds of
  tokens compiles to the same tree (`Text.compilesTo_of_scans`).

The text is stripped, so a pattern that ends in white space is remembered without it.  There is such
a pattern only where a template is last.
-/

namespace WireScript

open Grammar

/-- The text that a statement remembers of its operand, if it remembers one. -/
def Stmt.remembered? {α : Type} : Stmt α → Option Text
  | .receive _ _ text | .assert _ _ text => some text
  | .send .. | .expr .. => none

/-- A text is compiled on its own to one expression statement of the given tree, and there is no
diagnostic. -/
def Text.CompilesTo (x : Text) (e : Tree) : Prop :=
  ∀ file, ∃ script, Source.compile ⟨x, file⟩ = .script script ∧
    script.map (fun _ => ()) = ⟨(), [.expr () e]⟩

variable {x text : Text} {e : Tree} {ts us : List Token} {c d : Cursor}

/-! ## What is remembered -/

namespace LineParser

variable {p : LineParser}

/-- A statement that remembers a text remembers it of the tokens behind its sign, up to its end. -/
theorem remembered_of_statement (source : Option Text) (hp : p.Bounded)
    (hreports : (p.statement source).2.reports = [])
    (htext : (p.statement source).1.remembered? = some text) :
    ∃ sign us, p.ahead = sign :: us ∧
      Derives .expression us (bare (p.statement source).1.operand) ∧
      text = remembered source us ∧
      ∀ t, us.getLast? = some t → t.span.stop = (p.statement source).1.note.stop := by
  revert hreports htext
  unfold statement
  dsimp only
  split
  · rintro - ⟨⟩
  · next hkind =>
    rintro hreports ⟨⟩
    obtain ⟨us, htokens, hus⟩ := derives_behind_sign source hp hkind hreports
    exact ⟨_, us, htokens, hus⟩
  · next hkind =>
    rintro hreports ⟨⟩
    obtain ⟨us, htokens, hus⟩ := derives_behind_sign source hp hkind hreports
    exact ⟨_, us, htokens, hus⟩
  · rintro - ⟨⟩

/-- The source is only looked at for the text that is remembered. -/
theorem statement_without_source (source : Option Text) (p : LineParser) :
    (p.statement none).2 = (p.statement source).2 ∧
      (p.statement none).1.operand = (p.statement source).1.operand := by
  unfold statement
  dsimp only
  split <;> exact ⟨rfl, rfl⟩

end LineParser

theorem Line.parse_without_source (source : Option Text) (line : Line) :
    (line.parse none).2 = (line.parse source).2 ∧
      (line.parse none).1.operand = (line.parse source).1.operand := by
  obtain ⟨hparser, hoperand⟩ := (LineParser.ofLine line).statement_without_source source
  exact ⟨congrArg (·.reports.reverse) hparser, hoperand⟩

/-! ## Compiling it again -/

/-- A text that is scanned into tokens of the same kinds as an expression compiles to the tree of
the expression. -/
theorem Text.compilesTo_of_scans {stop : Location} (hts : Derives .expression ts e)
    (hencodable : ∀ t ∈ ts, ∀ v, t.kind = .string v → v.isEncodable)
    (hkinds : us.map (·.kind) = ts.map (·.kind))
    (hscans : (Cursor.ofText x).Scans us [] ⟨stop, []⟩) : x.CompilesTo e := by
  have hscan : scan x = ⟨us ++ [.atEnd stop], []⟩ := hscans.scanFrom_eq
  have hus : Derives .expression us e := by
    rw [derives_iff_written, hkinds]
    exact derives_iff_written.1 hts
  have hstrings : ∀ t ∈ us, ∀ v, t.kind = .string v → v.isEncodable := by
    intro t ht v hv
    have hmem : t.kind ∈ us.map (·.kind) := List.mem_map_of_mem ht
    rw [hkinds] at hmem
    obtain ⟨t', ht', hkind⟩ := List.mem_map.1 hmem
    exact hencodable t' ht' v (hkind.trans hv)
  intro file
  refine Source.compile_of_scan _ hscan ?_ (fun t ht => (hus.inside t ht).2) (.last (.expr hus))
  rw [Scan.isEncodable_iff, hscan]
  exact List.forall_mem_append.2 ⟨hstrings, List.forall_mem_singleton.2 fun v hv => nomatch hv⟩

/-- The stretch of a source that is remembered of some tokens. -/
theorem Lexes.exists_remembered {source : Text} (hreach : (Cursor.ofText source).Reaches c)
    (h : Lexes c ts d) (hts : ts ≠ []) (hline : ∀ t ∈ ts, t.kind ≠ .newline) :
    ∃ e x, Lexes e ts d ∧ e.rest = x ++ d.rest ∧ remembered (some source) ts = x.stripped ∧
      ∀ p, e.rest.head? = some p → p.isBlank = false := by
  obtain ⟨t, us, rfl⟩ := List.exists_cons_of_ne_nil hts
  obtain ⟨e, hgap, hstart, he, hvisible⟩ := h.exists_start (hline t List.mem_cons_self)
  obtain ⟨front, hsource, hfront⟩ := hreach.trans hgap
  obtain ⟨x, hx, hbehind⟩ := he.reaches
  have hlast := List.getLast?_eq_some_getLast (List.cons_ne_nil t us)
  have hstop := he.stop_eq hlast
  refine ⟨e, x, he, hx, ?_, hvisible⟩
  have hoffset : t.span.start.offset = front.length := by
    rw [← hstart, hfront, Location.offset_past]
    exact Nat.zero_add _
  obtain rfl : source = front ++ e.rest := hsource
  rw [remembered, hlast]
  simp only [List.head?_cons, Option.map_some, Option.getD_some, hstop, hbehind, hstart,
    Location.offset_past, hx, Text.slice_middle hoffset]

/-- The text that is remembered from a source compiles to the tree of the operand, unless the
operand ends in white space. -/
theorem Lexes.compilesTo_remembered {source : Text} (hreach : (Cursor.ofText source).Reaches c)
    (h : Lexes c ts d) (hts : Derives .expression ts e)
    (hencodable : ∀ t ∈ ts, ∀ v, t.kind = .string v → v.isEncodable)
    (hblank : ∀ t, ts.getLast? = some t → t.kind.endsInBlank = false) :
    (remembered (some source) ts).CompilesTo e := by
  have hline : ∀ t ∈ ts, t.kind ≠ .newline := fun t ht => (hts.inside t ht).1
  obtain ⟨_, _, rfl, -⟩ := hts.exists_head (by simp)
  obtain ⟨front, x, hagain, hx, hremembered, hvisible⟩ :=
    h.exists_remembered hreach (List.cons_ne_nil _ _) hline
  obtain ⟨us, hkinds, hscans⟩ := hagain.scans_stripped hx hvisible hline hblank .first
  rw [hremembered]
  exact Text.compilesTo_of_scans hts hencodable hkinds hscans

/-- So does the text that is put together from the lexemes, whatever the operand ends in. -/
theorem Lexes.compilesTo_remembered_none (h : Lexes c ts d) (hts : Derives .expression ts e)
    (hencodable : ∀ t ∈ ts, ∀ v, t.kind = .string v → v.isEncodable) :
    (remembered none ts).CompilesTo e := by
  obtain ⟨us, stop, hkinds, hscans⟩ := h.scans_spaced (fun t ht => (hts.inside t ht).1) .first
  exact Text.compilesTo_of_scans hts hencodable hkinds hscans

namespace Source

variable {source : Source} {script : Script Span}

/-- A line of a source that compiles is parsed without a report, also without the source. -/
theorem parse_of_mem_lines (h : source.compile = .script script) {line : Line}
    (hline : line ∈ source.lines) (remembering : Option Text) :
    (line.parse remembering).2 = [] := by
  obtain ⟨-, -, hsyntax, -⟩ := compile_eq_script_iff.1 h
  have hreports : source.parsed.reports = [] := List.map_eq_nil_iff.1 hsyntax
  rw [source.parsed_eq.2] at hreports
  have hline := List.flatMap_eq_nil_iff.1 hreports line hline
  rw [← (line.parse_without_source remembering).1, (line.parse_without_source _).1]
  exact hline

/-- The operand of a statement that remembers a text, where it stands in the source. -/
theorem exists_operand (h : source.compile = .script script) {line : Line}
    (hline : line ∈ source.lines) {remembering : Option Text}
    (htext : (line.parse remembering).1.remembered? = some text) :
    ∃ c us d, (Cursor.ofText source.text).Reaches c ∧ Lexes c us d ∧ us ⊆ source.tokens ∧
      Derives .expression us (bare (line.parse remembering).1.operand) ∧
      text = remembered remembering us ∧
      ∀ t, us.getLast? = some t → t.span.stop = (line.parse remembering).1.note.stop := by
  obtain ⟨hencodable, hlexical, -, -⟩ := compile_eq_script_iff.1 h
  obtain ⟨d, hd⟩ := exists_lexes (.ofText source.text) (List.map_eq_nil_iff.1 hlexical)
    (Scan.isEncodable_iff.1 hencodable)
  have hclean := parse_of_mem_lines h hline remembering
  have hstop : (LineParser.ofLine line).Bounded :=
    (Line.of_mem_filled hline).2.imp_right (congrArg Token.kind)
  obtain ⟨sign, us, htokens, hoperand⟩ := LineParser.remembered_of_statement remembering hstop
    (List.reverse_eq_nil_iff.1 hclean) htext
  obtain ⟨front, back, hbody⟩ := Line.infix_of_mem_filled hline
  have hbody : (scan source.text).body = front ++ [sign] ++ (us ++ back) := by
    rw [← hbody, show line.tokens = sign :: us from htokens]
    simp
  have hus : us ⊆ (scan source.text).body := by
    rw [hbody]
    exact fun t ht => List.mem_append_right _ (List.mem_append_left back ht)
  rw [show (scanFrom (.ofText source.text)).body = _ from hbody] at hd
  obtain ⟨c, hfront, hbehind⟩ := hd.split
  obtain ⟨e, hlexes, -⟩ := hbehind.split
  exact ⟨c, us, e, hfront.reaches, hlexes, fun t ht => List.takeWhile_subset _ (hus ht), hoperand⟩

/-- A source that compiles can be parsed without the source, up to the texts that are remembered. -/
theorem parse_none (h : source.compile = .script script) :
    (parse none source.tokens).reports = [] ∧
      (parse none source.tokens).script.statements = source.lines.map (fun l => (l.parse none).1) ∧
      (parse none source.tokens).script.statements.map Stmt.operand =
        script.statements.map Stmt.operand := by
  have hbody : ∀ t ∈ (scan source.text).body, t.isEnd = false := fun _ => not_isEnd_of_mem_body
  obtain ⟨hstatements, hreports⟩ := parse_atEnd none hbody (Location.first.past source.text)
  rw [← source.tokens_eq] at hstatements hreports
  obtain ⟨-, -, -, rfl⟩ := compile_eq_script_iff.1 h
  refine ⟨?_, hstatements, ?_⟩
  · rw [hreports]
    exact List.flatMap_eq_nil_iff.2 fun line hline => parse_of_mem_lines h hline none
  · have hsource : source.parsed.script.statements = _ := source.parsed_eq.1
    rw [hstatements, hsource, List.map_map, List.map_map]
    exact List.map_congr_left fun line _ => (line.parse_without_source _).2

/-- The remembered text of a receive or an assertion is its operand.  In a source that compiles, the
text compiles on its own to one expression statement with the tree of the pattern or condition,
unless the last token of the statement is a segment of a template whose text ends in white space.
The tokens can be parsed without the source as well, into statements with the same operands, and
then the remembered texts compile to the trees of the operands without that exception. -/
theorem remembered_text_recompiles (h : source.compile = .script script) :
    (∀ s ∈ script.statements, ∀ text, s.remembered? = some text →
        (∀ t ∈ source.tokens, t.span.stop = s.note.stop → t.kind.endsInBlank = false) →
        text.CompilesTo (bare s.operand)) ∧
      (parse none source.tokens).reports = [] ∧
      (parse none source.tokens).script.statements.map Stmt.operand =
        script.statements.map Stmt.operand ∧
      ∀ s ∈ (parse none source.tokens).script.statements, ∀ text, s.remembered? = some text →
        text.CompilesTo (bare s.operand) := by
  obtain ⟨hencodable, -, -, hscript⟩ := compile_eq_script_iff.1 h
  obtain ⟨hreports, hstatements, hoperands⟩ := parse_none h
  have hstrings := Scan.isEncodable_iff.1 hencodable
  refine ⟨fun s hs text htext hblank => ?_, hreports, hoperands, fun s hs text htext => ?_⟩
  · rw [← hscript, show source.parsed.script.statements = _ from source.parsed_eq.1] at hs
    obtain ⟨line, hline, rfl⟩ := List.mem_map.1 hs
    obtain ⟨c, us, d, hreach, hlexes, hus, hderives, rfl, hlast⟩ := exists_operand h hline htext
    exact hlexes.compilesTo_remembered hreach hderives (fun t ht => hstrings t (hus ht))
      fun t ht => hblank t (hus (List.mem_of_getLast? ht)) (hlast t ht)
  · rw [hstatements] at hs
    obtain ⟨line, hline, rfl⟩ := List.mem_map.1 hs
    obtain ⟨c, us, d, -, hlexes, hus, hderives, rfl, -⟩ := exists_operand h hline htext
    exact hlexes.compilesTo_remembered_none hderives fun t ht => hstrings t (hus ht)

/-- An assertion with an octal integer, an escape, signs of two characters and a template. -/
theorem remembered_text_recompiles_template :
    let source : Source := ⟨"~ y=\"\\101\"  !=:a\x7b x<=01 \x7db\r\n", none⟩
    let e : Tree := .assign () () "y" (.not () (.binary () .eq (.string () "A")
      (.concat () (.string () "a") (.concat ()
        (.not () (.binary () .gt (.name () "x") (.integer () 1)))
        (.concat () (.string () "b") (.string () [.scalar '\r', .scalar '\n']))))))
    source.compile = .script source.parsed.script ∧
      Text.CompilesTo "y=\"\\101\"  !=:a\x7b x<=01 \x7db" e ∧
      Text.CompilesTo "y = \"\\101\" != :a\x7b x <= 01 \x7db\r" e := by
  intro source e
  have hscript : source.compile = .script source.parsed.script :=
    compile_eq_script_iff.2 ⟨by decide +kernel, by decide +kernel, by decide +kernel, rfl⟩
  obtain ⟨hsource, -, -, hnone⟩ := remembered_text_recompiles hscript
  have hassert : ∃ s ∈ source.parsed.script.statements,
      s.remembered? = some ("y=\"\\101\"  !=:a\x7b x<=01 \x7db" : Text) ∧ bare s.operand = e ∧
        ∀ t ∈ source.tokens, t.span.stop = s.note.stop → t.kind.endsInBlank = false := by
    decide +kernel
  have hassertNone : ∃ s ∈ (parse none source.tokens).script.statements,
      s.remembered? = some ("y = \"\\101\" != :a\x7b x <= 01 \x7db\r" : Text) ∧
        bare s.operand = e := by
    decide +kernel
  obtain ⟨s, hs, htext, he, hblank⟩ := hassert
  obtain ⟨s', hs', htext', he'⟩ := hassertNone
  refine ⟨hscript, ?_, ?_⟩
  · rw [← he]
    exact hsource s hs _ htext hblank
  · rw [← he']
    exact hnone s' hs' _ htext'

/-- A pattern that ends in a space is remembered without it. -/
example : (Source.statements ⟨"< :a \n", none⟩).map (fun s => (s.remembered?, bare s.operand)) =
    [(some (":a" : Text),
      .concat () (.string () "a ") (.string () [.scalar '\r', .scalar '\n']))] := by
  decide +kernel

end Source

end WireScript
