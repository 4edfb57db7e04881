import WireScript.Proofs.Grammar.Places
import WireScript.Proofs.Token.Within

/-!
# Sources made of two

A source whose first part ends a line is scanned and parsed part by part.

* `Source.tokens`, `Source.lexicalDiagnostics`, `Source.statements` and `Source.syntaxDiagnostics`
  are what is found on a source, whether it has errors or not.
* `Line.filled_append` cuts tokens at the end of a line, and `Source.parse_front` and
  `Source.parse_behind` say that what is read from a part does not depend on the other one.
* `Source.findings_append` puts them together: what is found on the whole is what is found on the
  first part and then, with its locations moved, what is found on the second.
-/

namespace WireScript

/-! ## What is found on a source -/

namespace Source

/-- The tokens of a source. -/
def tokens (source : Source) : List Token := (scan source.text).tokens

/-- The diagnostics on the spelling of the tokens. -/
def lexicalDiagnostics (source : Source) : List Diagnostic :=
  (scan source.text).reports.map source.diagnose

/-- What parsing the tokens leads to, whatever is wrong with their spelling. -/
def parsed (source : Source) : Parsed := parse (some source.text) source.tokens

/-- The statements of a source. -/
def statements (source : Source) : List (Stmt Span) := source.parsed.script.statements

/-- The diagnostics on the order of the tokens. -/
def syntaxDiagnostics (source : Source) : List Diagnostic :=
  source.parsed.reports.map source.diagnose

variable {source : Source} {script : Script Span}

/-- A source compiles if its tokens have a form on the wire and nothing is found wrong with them. -/
theorem compile_eq_script_iff :
    source.compile = .script script ↔
      (scan source.text).isEncodable = true ∧ source.lexicalDiagnostics = [] ∧
        source.syntaxDiagnostics = [] ∧ source.parsed.script = script := by
  have hlexical : source.lexicalDiagnostics = [] ↔ (scan source.text).reports = [] :=
    List.map_eq_nil_iff
  have hsyntax : source.syntaxDiagnostics = [] ↔
      (parse (some source.text) (scan source.text).tokens).reports = [] :=
    List.map_eq_nil_iff
  rw [hlexical, hsyntax]
  exact compile_eq_script_iff_parse

end Source

/-! ## Lines of tokens -/

section Lines

variable {stop t : Token} {ts us : List Token}

/-- Tokens can be cut behind the end of a line. -/
theorem Line.filled_append (stop' : Token) (ht : t.kind = .newline) :
    filled stop (ts ++ t :: us) = filled stop' (ts ++ [t]) ++ filled stop us := by
  induction ts using Line.induction with
  | empty =>
    rw [List.nil_append, List.nil_append, filled_blank ht, filled_blank ht]
    rfl
  | blank t' us' ht' ih =>
    rw [List.cons_append, List.cons_append, filled_blank ht', filled_blank ht', ih]
  | last ts hts hne =>
    rw [filled_line hts hne ht, filled_line hts hne ht]
    rfl
  | line ts t' us' hts hne ht' ih =>
    rw [List.append_assoc, List.append_assoc, List.cons_append, List.cons_append,
      filled_line hts hne ht', filled_line hts hne ht', ih, List.cons_append]

end Lines

namespace Source

theorem tokens_eq (source : Source) :
    source.tokens =
      (scan source.text).body ++ [.atEnd (Location.first.past source.text)] :=
  tokens_scanFrom (.ofText source.text)

/-- The lines of a source that have tokens. -/
def lines (source : Source) : List Line :=
  Line.filled (.atEnd (Location.first.past source.text)) (scan source.text).body

/-- The statements of a source and the reports on them, line by line. -/
theorem parsed_eq (source : Source) :
    source.statements = source.lines.map (fun l => (l.parse (some source.text)).1) ∧
      source.parsed.reports = source.lines.flatMap (fun l => (l.parse (some source.text)).2) := by
  rw [statements, parsed, tokens_eq]
  exact parse_atEnd _ (fun _ => not_isEnd_of_mem_body) _

end Source

/-! ## Each part on its own -/

section Parts

variable {front : Text}

theorem isIn_of_mem_body {source : Text} {t : Token} (h : t ∈ (scan source).body) :
    t.span.IsIn source :=
  isIn_of_mem_tokens ((List.takeWhile_subset _) h)

theorem Text.slice_append_left {start stop : Nat} {t : Text} (hstart : start ≤ t.length)
    (hstop : stop ≤ t.length) (u : Text) : slice start stop (t ++ u) = slice start stop t := by
  rw [slice, slice, List.drop_append_of_le_length hstart, List.take_append_of_le_length]
  rw [List.length_drop]
  omega

theorem Text.slice_append_right (start stop : Nat) (t u : Text) :
    slice (start + t.length) (stop + t.length) (t ++ u) = slice start stop u := by
  rw [slice, slice, Nat.add_sub_add_right, Nat.add_comm start, List.drop_length_add_append]

/-- The places in a first part where something starts. -/
def InFront (front : Text) (here : Location) : Prop :=
  here.offset ≤ front.length ∧ here.line ≤ front.lineFeeds

/-- The lines of a first part do not depend on what is behind it. -/
theorem Source.exists_lines_front (h : front.EndsLine) (file : Option Text) :
    ∃ t ∈ (scan front).body, lines ⟨front, file⟩ = Line.filled t (scan front).body ∧
      ∀ stop us, Line.filled stop ((scan front).body ++ us) =
        lines ⟨front, file⟩ ++ Line.filled stop us := by
  obtain ⟨ts, t, hbody, ht⟩ := body_of_endsLine (.ofText front) h
  replace hbody : (scan front).body = ts ++ [t] := hbody
  have hcut (stop : Token) (us : List Token) : Line.filled stop ((scan front).body ++ us) =
      Line.filled t (scan front).body ++ Line.filled stop us := by
    rw [hbody, List.append_assoc]
    exact Line.filled_append t ht
  have hlines : lines ⟨front, file⟩ = Line.filled t (scan front).body := by
    have hlast := hcut (.atEnd (Location.first.past front)) []
    rwa [List.append_nil, show Line.filled _ [] = [] from rfl, List.append_nil] at hlast
  refine ⟨t, ?_, hlines, fun stop us => hlines ▸ hcut stop us⟩
  rw [hbody]
  exact List.mem_append_right _ List.mem_cons_self

/-- What is read from a first part does not depend on what is behind it. -/
theorem Source.parse_front (h : front.EndsLine) (back : Text) (file : Option Text) :
    let first : Source := ⟨front, file⟩
    (first.lines.map (fun l => (l.parse (some (front ++ back))).1) = first.statements ∧
        ∀ s ∈ first.statements, ∀ a ∈ s.notes, a.start.line ≤ front.lineFeeds) ∧
      first.lines.flatMap (fun l => (l.parse (some (front ++ back))).2) = first.parsed.reports ∧
        ∀ r ∈ first.parsed.reports, r.span.start.line ≤ front.lineFeeds := by
  intro first
  -- nothing is moved here: tokens stand for themselves, in a likeness of the part with the whole
  have hs : (Likeness.moved id (InFront front) (fun _ => True) fun _ _ => trivial).Slices front
      (front ++ back) := by
    rintro a _ b _ ⟨rfl, ha⟩ ⟨rfl, hb⟩
    exact congrArg Text.stripped (Text.slice_append_left ha.1 hb.1 back).symm
  have hstart (t) (ht : t ∈ (scan front).body) : InFront front t.span.start :=
    ⟨(isIn_of_mem_body ht).start.offset_le, start_line_le h ht⟩
  obtain ⟨t, ht, hlines, -⟩ := exists_lines_front h file
  obtain ⟨⟨hstatements, hnotes⟩, hreports, hplaces⟩ := Likeness.parse_moved t hs
    ⟨hstart t ht, trivial⟩ hstart (fun _ _ => trivial)
    fun t ht hline => ⟨(isIn_of_mem_body ht).stop.offset_le, stop_line_le h ht hline⟩
  have hsame : (scan front).body.map (fun t => { t with span := t.span.moved id }) =
      (scan front).body := List.map_id _
  obtain ⟨hfirst, hfirstReports⟩ := first.parsed_eq
  rw [hsame] at hstatements hreports
  rw [hfirst, hfirstReports, show first.lines = _ from hlines]
  refine ⟨⟨hstatements.trans ?_, fun s hs a ha => (hnotes s hs a ha).1.2⟩, hreports.trans ?_,
    fun r hr => (hplaces r hr).1.2⟩
  · exact List.map_id'' Stmt.map_id _
  · exact List.map_id _

/-- What is read from a second part does not depend on the first, apart from where it stands. -/
theorem Source.parse_behind (front back : Text) (file : Option Text) :
    let second : Source := ⟨back, file⟩
    let lines := Line.filled (.atEnd ((Location.first.past back).behind front))
      ((scan back).body.map (Token.behind front))
    (lines.map (fun l => (l.parse (some (front ++ back))).1) =
          second.statements.map (Stmt.map (Span.behind front)) ∧
        ∀ s ∈ second.statements, ∀ a ∈ s.notes, 0 < a.start.line) ∧
      lines.flatMap (fun l => (l.parse (some (front ++ back))).2) =
          second.parsed.reports.map (Report.behind front) ∧
        ∀ r ∈ second.parsed.reports, 0 < r.span.start.line := by
  intro second lines
  have hs : (Likeness.moved (Location.behind front) (0 < ·.line) (fun _ => True)
      fun _ _ => trivial).Slices back (front ++ back) := by
    rintro a _ b _ ⟨rfl, -⟩ ⟨rfl, -⟩
    exact congrArg Text.stripped (Text.slice_append_right _ _ front back).symm
  obtain ⟨⟨hstatements, hnotes⟩, hreports, hplaces⟩ :=
    Likeness.parse_moved (.atEnd (Location.first.past back)) hs
      ⟨(Location.isIn_past back).line_pos, trivial⟩
      (fun t ht => (isIn_of_mem_body ht).start.line_pos) (fun _ _ => trivial)
      fun t ht _ => (isIn_of_mem_body ht).stop.line_pos
  obtain ⟨hsecond, hsecondReports⟩ := second.parsed_eq
  rw [hsecond, hsecondReports]
  exact ⟨⟨hstatements, fun s hs a ha => (hnotes s hs a ha).1⟩, hreports,
    fun r hr => (hplaces r hr).1⟩

end Parts

/-! ## The parts together -/

namespace Source

variable {front : Text}

theorem body_append (h : front.EndsLine) (back : Text) :
    (scan (front ++ back)).body =
      (scan front).body ++ (scan back).body.map (Token.behind front) := by
  have hwhole : (scan (front ++ back)).tokens = _ := tokens_scanFrom (.ofText (front ++ back))
  have hsecond : (scan back).tokens = _ := tokens_scanFrom (.ofText back)
  have hscan := congrArg Scan.tokens (scan_append h back)
  dsimp only at hscan
  rw [hwhole, hsecond, List.map_append, ← List.append_assoc] at hscan
  exact (List.append_inj' hscan rfl).1

/-- What is read from a source is what is read from its parts. -/
theorem parsed_append (h : front.EndsLine) (back : Text) (file : Option Text) :
    let first : Source := ⟨front, file⟩
    let second : Source := ⟨back, file⟩
    let whole : Source := ⟨front ++ back, file⟩
    whole.statements =
        first.statements ++ second.statements.map (Stmt.map (Span.behind front)) ∧
      whole.parsed.reports =
        first.parsed.reports ++ second.parsed.reports.map (Report.behind front) := by
  intro first second whole
  obtain ⟨-, -, -, hcut⟩ := exists_lines_front h file
  have hstop : Location.first.past (front ++ back) = (Location.first.past back).behind front := by
    rw [Location.past_append, ← Location.behind_first h, Location.past_behind]
  have hlines : whole.lines = first.lines ++ Line.filled
      (.atEnd ((Location.first.past back).behind front))
      ((scan back).body.map (Token.behind front)) := by
    rw [lines, show whole.text = front ++ back from rfl, hstop, body_append h, hcut]
  obtain ⟨⟨hfront, -⟩, hfrontReports, -⟩ := parse_front h back file
  obtain ⟨⟨hbehind, -⟩, hbehindReports, -⟩ := parse_behind front back file
  obtain ⟨hstatements, hreports⟩ := whole.parsed_eq
  rw [hstatements, hreports, hlines, List.map_append, List.flatMap_append]
  exact ⟨congrArg₂ (· ++ ·) hfront hbehind, congrArg₂ (· ++ ·) hfrontReports hbehindReports⟩

section Diagnose

variable {ε : Type} [Cause ε] {first second : List (Report ε)}

/-- The diagnostics of the parts are those of the whole. -/
theorem map_diagnose_append (h : front.EndsLine) (back : Text) (file : Option Text)
    (hfirst : ∀ r ∈ first, r.span.start.line ≤ front.lineFeeds)
    (hsecond : ∀ r ∈ second, 0 < r.span.start.line) :
    (first ++ second.map (Report.behind front)).map (diagnose ⟨front ++ back, file⟩) =
      first.map (diagnose ⟨front, file⟩) ++
        (second.map (diagnose ⟨back, file⟩)).map (Diagnostic.behind front) := by
  rw [List.map_append, List.map_map, List.map_map]
  refine congrArg₂ (· ++ ·) (List.map_congr_left ?_) (List.map_congr_left ?_)
  · exact fun r hr => diagnose_front h back file (hfirst r hr)
  · exact fun r hr => diagnose_behind h back file (hsecond r hr)

end Diagnose

/-- The tokens of a source are those of its parts, without the end of the input in the first. -/
theorem tokens_append (h : front.EndsLine) (back : Text) (file : Option Text) :
    tokens ⟨front ++ back, file⟩ =
      (scan front).body ++ (tokens ⟨back, file⟩).map (Token.behind front) :=
  congrArg Scan.tokens (scan_append h back)

/-- A source made of two can be sent if both can. -/
theorem isEncodable_append (h : front.EndsLine) (back : Text) :
    (scan (front ++ back)).isEncodable = ((scan front).isEncodable && (scan back).isEncodable) := by
  have hfirst : (scan front).tokens = _ := tokens_scanFrom (.ofText front)
  rw [Scan.isEncodable, Scan.isEncodable, scan_append h, hfirst, List.all_append, List.all_append,
    List.all_map]
  exact congrArg (· && _) (Bool.and_true _).symm

/-- What keeps a token of a source made of two from being made is in the first part, or else in the
second. -/
theorem breakage?_append (h : front.EndsLine) (back : Text) :
    (scan (front ++ back)).breakage? = (scan front).breakage?.or (scan back).breakage? := by
  have hfirst : (scan front).tokens = _ := tokens_scanFrom (.ofText front)
  have hend (here : Location) : [Token.atEnd here].findSome? Token.breakage? = none := rfl
  rw [Scan.breakage?, Scan.breakage?, scan_append h, hfirst, List.findSome?_append,
    List.findSome?_append, hend, Option.or_none, List.findSome?_map]
  rfl

theorem lexicalDiagnostics_append (h : front.EndsLine) (back : Text) (file : Option Text) :
    lexicalDiagnostics ⟨front ++ back, file⟩ = lexicalDiagnostics ⟨front, file⟩ ++
      (lexicalDiagnostics ⟨back, file⟩).map (Diagnostic.behind front) := by
  rw [lexicalDiagnostics, scan_append h]
  exact map_diagnose_append h back file (fun r hr => report_line_le h hr)
    fun r hr => (isIn_of_mem_reports hr).start.line_pos

theorem syntaxDiagnostics_append (h : front.EndsLine) (back : Text) (file : Option Text) :
    syntaxDiagnostics ⟨front ++ back, file⟩ = syntaxDiagnostics ⟨front, file⟩ ++
      (syntaxDiagnostics ⟨back, file⟩).map (Diagnostic.behind front) := by
  rw [syntaxDiagnostics, (parsed_append h back file).2]
  exact map_diagnose_append h back file (parse_front h back file).2.2
    (parse_behind front back file).2.2

/-- Errors stay on their line: the tokens, the statements and the diagnostics of a source whose
first part ends a line are those of the first part, without the end of the input, and then those of
the second, with their locations moved. -/
theorem findings_append (h : front.EndsLine) (back : Text) (file : Option Text) :
    let first : Source := ⟨front, file⟩
    let second : Source := ⟨back, file⟩
    let whole : Source := ⟨front ++ back, file⟩
    (∃ ts, first.tokens = ts ++ [.atEnd (Location.first.past front)] ∧
        whole.tokens = ts ++ second.tokens.map (Token.behind front)) ∧
      whole.lexicalDiagnostics =
        first.lexicalDiagnostics ++ second.lexicalDiagnostics.map (Diagnostic.behind front) ∧
      whole.statements =
        first.statements ++ second.statements.map (Stmt.map (Span.behind front)) ∧
      whole.syntaxDiagnostics =
        first.syntaxDiagnostics ++ second.syntaxDiagnostics.map (Diagnostic.behind front) := by
  intro first second whole
  refine ⟨⟨(scan front).body, first.tokens_eq, ?_⟩, ?_, ?_, ?_⟩
  · exact tokens_append h back file
  · exact lexicalDiagnostics_append h back file
  · exact (parsed_append h back file).1
  · exact syntaxDiagnostics_append h back file

/-- Two lines with errors of both kinds in front of two others. -/
theorem findings_append_bad_lines :
    let front : Text := "> \"ab\n< (1\n"
    let back : Text := "~ 1 +\n> a & b"
    let whole : Source := ⟨front ++ back, some "s.pest"⟩
    front.EndsLine ∧
      whole.lexicalDiagnostics.map (·.code) = ["E002", "E006"] ∧
      whole.lexicalDiagnostics.map (·.span.start.line) = [1, 4] ∧
      whole.syntaxDiagnostics.map (·.code) = ["E104", "E101", "E101"] ∧
      whole.syntaxDiagnostics.map (·.span.start.line) = [2, 3, 4] := by
  intro front back whole
  have h : front.EndsLine := ⟨"> \"ab\n< (1", by decide +kernel⟩
  obtain ⟨-, hlexical, -, hsyntax⟩ := findings_append h back (some "s.pest")
  rw [hlexical, hsyntax]
  exact ⟨h, by decide +kernel, by decide +kernel, by decide +kernel, by decide +kernel⟩

end Source

end WireScript
