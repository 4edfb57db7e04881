import WireScript.Proofs.Source.Append
import WireScript.Proofs.Token.LineEnd

/-!
# Carriage returns at the ends of lines

A source with carriage returns in front of its line feeds means the same as the source without them.

* `Source.Agree` says that two sources lead to diagnostics with the same codes and, if their tokens
  are spelled without a fault, to the same statements.
* `Source.agree_line` says this of one line with either end, and `Source.Agree.append` of lines
  behind each other.  `Source.agree_crlf` follows by induction over the lines of a text
  (`Text.induction_lines`), and then `Source.crlf_findings`.
* Remembered text agrees because it is stripped: `Text.stripped_slice_append` says that white space
  behind a text does not matter to stripped slices of it.
-/

namespace WireScript

/-! ## Stripped slices -/

namespace Text

variable {t w : Text}

theorem slice_min (start stop : Nat) (t : Text) :
    slice (min start t.length) (min stop t.length) t = slice start stop t := by
  unfold slice
  rcases Nat.le_total t.length start with hstart | hstart
  · rw [Nat.min_eq_right hstart, List.drop_length, List.drop_eq_nil_of_le hstart, List.take_nil,
      List.take_nil]
  · rw [Nat.min_eq_left hstart, List.take_eq_take_iff, List.length_drop]
    omega

/-- Slices of a text with white space behind it end in white space where they go beyond it. -/
theorem stripped_slice_append (start stop : Nat) (t : Text) (hw : ∀ p ∈ w, p.isBlank = true) :
    stripped (slice start stop (t ++ w)) =
      stripped (slice (min start t.length) (min stop t.length) t) := by
  rw [slice_min, slice, slice, List.drop_append, List.take_append]
  exact stripped_append _ fun p hp => hw p (List.drop_subset _ _ (List.take_subset _ _ hp))

end Text

/-! ## One line -/

/-- Places in lines with different ends, of which some strings may be broken. -/
def Likeness.lineEnd (n : Nat) (broken : Prop) : Likeness where
  start here there := place n here = place n there
  stop _ _ := True
  text t u := t = u ∨ broken
  stop_of_start _ := trivial
  text_refl _ := Or.inl rfl

theorem map_eq_of_forall₂ {α β γ : Type} {r : α → β → Prop} {f : α → γ} {g : β → γ}
    (hfg : ∀ x y, r x y → f x = g y) {xs : List α} {ys : List β} (h : List.Forall₂ r xs ys) :
    xs.map f = ys.map g := by
  rw [← List.forall₂_eq_eq_eq]
  exact List.rel_map (fun x y => hfg x y) h

theorem forall₂_concat {α β : Type} {r : α → β → Prop} {xs : List α} {ys : List β} {x : α} {y : β}
    (h : List.Forall₂ r (xs ++ [x]) (ys ++ [y])) : List.Forall₂ r xs ys ∧ r x y := by
  rw [← List.forall₂_reverse_iff, List.reverse_concat, List.reverse_concat, List.forall₂_cons,
    List.forall₂_reverse_iff] at h
  exact h.symm

section Line

variable {n : Nat} {broken : Prop} {t : Text}

theorem TokenTwins.among {t u : Token} (h : TokenTwins n broken t u) :
    (Likeness.lineEnd n broken).Among t u := by
  refine ⟨⟨?_, h.describe, h.start, trivial⟩, fun _ => h.stop⟩
  refine h.kind.imp_right fun hstring => ?_
  obtain ⟨hbroken, v, w, ht, hu, -⟩ := hstring
  exact ⟨v, w, ht, hu, Or.inr hbroken⟩

/-- Tokens that stand for each other can both be made, or neither can for the same reason. -/
theorem TokenTwins.breakage?_eq {t u : Token} (h : TokenTwins n broken t u) :
    t.breakage? = u.breakage? := by
  unfold Token.breakage?
  rcases h.kind with hkind | ⟨-, v, w, ht, hu, hencodable⟩
  · rw [hkind]
    cases hu : u.kind with
    | integer k =>
      -- an integer is described by its lexeme
      have hlexeme := h.describe
      simp only [Token.describe, hkind, hu, List.append_cancel_left_eq] at hlexeme
      rw [hlexeme]
    | _ => rfl
  · rw [ht, hu]
    exact congrArg (fun sent : Bool => if sent then none else some Breakage.unencodable) hencodable

theorem breakage?_of_twins {s s' : Scan}
    (h : List.Forall₂ (TokenTwins n broken) s.tokens s'.tokens) :
    s.breakage? = s'.breakage? := by
  unfold Scan.breakage?
  generalize s.tokens = ts at h ⊢
  generalize s'.tokens = us at h ⊢
  induction h with
  | nil => rfl
  | cons hhead _ ih => rw [List.findSome?_cons, List.findSome?_cons, hhead.breakage?_eq, ih]

/-- Remembered text does not depend on the end of the line. -/
theorem slices_lineEnd {w v : Text} (hw : ∀ p ∈ w, p.isBlank = true)
    (hv : ∀ p ∈ v, p.isBlank = true) :
    (Likeness.lineEnd t.length broken).Slices (t ++ w) (t ++ v) := by
  intro a a' b b' ha hb
  rw [Text.stripped_slice_append _ _ t hw, Text.stripped_slice_append _ _ t hv]
  exact congrArg₂ (fun start stop => Text.stripped (Text.slice start stop t)) ha hb

theorem code_diagnose {ε : Type} [Cause ε] (source : Source) (rs : List (Report ε)) :
    (rs.map source.diagnose).map (·.code) = rs.map fun r => Cause.code r.cause :=
  List.map_map

end Line

/-- Two sources lead to diagnostics with the same codes.  The tokens of both can be made or those of
neither can, and the sources have the same statements if there is no diagnostic on the spelling of
their tokens. -/
structure Source.Agree (first second : Source) : Prop where
  lexical : first.lexicalDiagnostics.map (·.code) = second.lexicalDiagnostics.map (·.code)
  syntactic : first.syntaxDiagnostics.map (·.code) = second.syntaxDiagnostics.map (·.code)
  breakage : (scan first.text).breakage? = (scan second.text).breakage?
  statements : first.lexicalDiagnostics = [] →
    first.statements.map (Stmt.map fun _ => ()) = second.statements.map (Stmt.map fun _ => ())

namespace Source

variable {t : Text}

/-- Sources agree if their tokens stand for each other and their slices are the same. -/
theorem agree_of_twins {n : Nat} {first second : Source}
    (hcodes : codes (scan first.text).reports = codes (scan second.text).reports)
    (htokens : List.Forall₂ (TokenTwins n ((scan first.text).reports ≠ [])) first.tokens
      second.tokens)
    (hslices : (Likeness.lineEnd n ((scan first.text).reports ≠ [])).Slices first.text
      second.text) :
    first.Agree second := by
  have hbreakage : (scan first.text).breakage? = (scan second.text).breakage? :=
    breakage?_of_twins htokens
  rw [tokens_eq, tokens_eq] at htokens
  obtain ⟨hbody, hend⟩ := forall₂_concat htokens
  have hlines := Likeness.forall₂_filled hend.among.toTokens (hbody.imp fun _ _ => TokenTwins.among)
  obtain ⟨hstatements, hreports⟩ :=
    Likeness.forall₂_statements hslices (fun _ => Line.ne_nil_of_mem_filled) hlines
  obtain ⟨hfirst, hfirstReports⟩ := first.parsed_eq
  obtain ⟨hsecond, hsecondReports⟩ := second.parsed_eq
  refine ⟨?_, ?_, hbreakage, fun hlexical => ?_⟩
  · rw [lexicalDiagnostics, lexicalDiagnostics, code_diagnose, code_diagnose]
    exact hcodes
  · rw [syntaxDiagnostics, syntaxDiagnostics, code_diagnose, code_diagnose, hfirstReports,
      hsecondReports]
    exact map_eq_of_forall₂ (fun r s hr => congrArg Cause.code hr.cause) hreports
  · rw [hfirst, hsecond]
    have hclean : (scan first.text).reports = [] := List.map_eq_nil_iff.1 hlexical
    refine map_eq_of_forall₂ (fun s s' hs => hs.map_eq (fun _ _ _ => rfl) fun t u htext => ?_)
      hstatements
    -- no string is broken, so a text stands for itself only
    exact htext.resolve_right fun hbroken => hbroken hclean

/-- A line agrees with the one that has a carriage return in front of its end. -/
theorem agree_line (ht : t.IsPlain) (file : Option Text) :
    Agree ⟨t ++ [lineFeed], file⟩ ⟨t ++ [carriageReturn, lineFeed], file⟩ := by
  have hlines : Cursor.Twin t.length (.ofText (t ++ [lineFeed]))
      (.ofText (t ++ [carriageReturn, lineFeed])) := .ahead (.mk .first t ht (Nat.zero_add _))
  obtain ⟨hcodes, htokens⟩ := twins_scanFrom hlines
  exact agree_of_twins hcodes htokens (slices_lineEnd (by decide) (by decide))

/-! ## Lines behind each other -/

section Append

variable {front front' back back' : Text} {file : Option Text}

theorem Agree.append (h : front.EndsLine) (h' : front'.EndsLine)
    (hfront : Agree ⟨front, file⟩ ⟨front', file⟩) (hback : Agree ⟨back, file⟩ ⟨back', file⟩) :
    Agree ⟨front ++ back, file⟩ ⟨front' ++ back', file⟩ := by
  refine ⟨?_, ?_, ?_, fun hlexical => ?_⟩
  · rw [lexicalDiagnostics_append h, lexicalDiagnostics_append h', List.map_append,
      List.map_append, List.map_map, List.map_map]
    exact congrArg₂ (· ++ ·) hfront.lexical hback.lexical
  · rw [syntaxDiagnostics_append h, syntaxDiagnostics_append h', List.map_append,
      List.map_append, List.map_map, List.map_map]
    exact congrArg₂ (· ++ ·) hfront.syntactic hback.syntactic
  · rw [breakage?_append h, breakage?_append h']
    exact congrArg₂ Option.or hfront.breakage hback.breakage
  · rw [lexicalDiagnostics_append h, List.append_eq_nil_iff, List.map_eq_nil_iff] at hlexical
    rw [(parsed_append h back file).1, (parsed_append h' back' file).1, List.map_append,
      List.map_append, List.map_map, List.map_map]
    simp only [Function.comp_def, Stmt.map_map]
    exact congrArg₂ (· ++ ·) (hfront.statements hlexical.1) (hback.statements hlexical.2)

end Append

end Source

/-! ## Whole sources -/

/-- What compiling leads to is the same up to where things stand: the statements of a script with
the text that they remember, or the codes of the diagnostics, or why a token cannot be made. -/
inductive Compiled.Agree : Compiled → Compiled → Prop where
  | script {first second : Script Span}
      (h : first.statements.map (Stmt.map fun _ => ()) =
        second.statements.map (Stmt.map fun _ => ())) :
      Agree (.script first) (.script second)
  | rejected {first second : List Diagnostic} (h : first.map (·.code) = second.map (·.code)) :
      Agree (.rejected first) (.rejected second)
  | broken (cause : Breakage) : Agree (.broken cause) (.broken cause)

namespace Text

variable {t : Text}

/-- A text with a carriage return in front of each of its line feeds. -/
def crlf (t : Text) : Text :=
  t.flatMap fun p => if p = lineFeed then [carriageReturn, lineFeed] else [p]

theorem crlf_of_not_mem (ht : lineFeed ∉ t) : t.crlf = t := by
  have hkept (p : CodePoint) (hp : p ∈ t) :
      (if p = lineFeed then [carriageReturn, lineFeed] else [p]) = [p] := by
    have hne : p ≠ lineFeed := fun hline => ht (hline ▸ hp)
    exact if_neg hne
  rw [crlf, List.flatMap_congr hkept, List.flatMap_singleton']

theorem crlf_line (ht : lineFeed ∉ t) (u : Text) :
    crlf (t ++ lineFeed :: u) = t ++ [carriageReturn, lineFeed] ++ u.crlf := by
  have hsplit : crlf (t ++ lineFeed :: u) = t.crlf ++ ([carriageReturn, lineFeed] ++ u.crlf) :=
    List.flatMap_append
  rw [hsplit, crlf_of_not_mem ht, List.append_assoc]

/-- A text is its last line, or a line in front of a text. -/
theorem induction_lines {motive : Text → Prop} (last : ∀ t, lineFeed ∉ t → motive t)
    (line : ∀ t u, lineFeed ∉ t → motive u → motive (t ++ lineFeed :: u)) (t : Text) :
    motive t := by
  induction hlength : t.length using Nat.strong_induction_on generalizing t with
  | _ length ih =>
  by_cases hline : lineFeed ∈ t
  · obtain ⟨u, v, rfl, hu⟩ := List.eq_append_cons_of_mem hline
    refine line u v hu (ih _ ?_ v rfl)
    rw [← hlength, List.length_append, List.length_cons]
    omega
  · exact last t hline

end Text

namespace Source

variable {first second : Source} {text : Text}

/-- Sources that agree are compiled alike. -/
theorem Agree.compile (h : first.Agree second) : first.compile.Agree second.compile := by
  have hlexical : (scan first.text).reports.isEmpty = (scan second.text).reports.isEmpty := by
    have hcodes := congrArg List.isEmpty h.lexical
    simpa only [lexicalDiagnostics, List.isEmpty_map] using hcodes
  have hsyntax : first.parsed.reports.isEmpty = second.parsed.reports.isEmpty := by
    have hcodes := congrArg List.isEmpty h.syntactic
    simpa only [syntaxDiagnostics, List.isEmpty_map] using hcodes
  unfold parsed tokens at hsyntax
  unfold Source.compile tokenize Scan.check
  rw [← h.breakage]
  cases (scan first.text).breakage? with
  | some cause => exact .broken cause
  | none =>
    dsimp only
    rw [← hlexical, ← hsyntax]
    split
    · exact .rejected h.lexical
    split
    · exact .rejected h.syntactic
    · next hclean _ =>
      refine .script (h.statements ?_)
      simpa [lexicalDiagnostics] using hclean

/-- A source agrees with the one that has a carriage return in front of each line feed. -/
theorem agree_crlf (h : carriageReturn ∉ text) (file : Option Text) :
    Agree ⟨text, file⟩ ⟨text.crlf, file⟩ := by
  induction text using Text.induction_lines with
  | last t ht =>
    rw [Text.crlf_of_not_mem ht]
    exact ⟨rfl, rfl, rfl, fun _ => rfl⟩
  | line t u ht ih =>
    have hplain : t.IsPlain := ⟨ht, fun hmem => h (List.mem_append_left _ hmem)⟩
    have hothers := ih fun hmem => h (List.mem_append_right _ (List.mem_cons_of_mem _ hmem))
    rw [Text.crlf_line ht, List.append_cons]
    refine (agree_line hplain file).append ⟨t, rfl⟩ ⟨t ++ [carriageReturn], ?_⟩ hothers
    rw [List.append_assoc]
    rfl

/-- Carriage returns in front of line feeds make no difference: the same codes are reported on the
spelling and on the order of the tokens, and the statements are the same, with the text that they
remember, if every token is spelled well.  So both sources are compiled alike. -/
theorem crlf_findings (h : carriageReturn ∉ text) (file : Option Text) :
    let lf : Source := ⟨text, file⟩
    let crlf : Source := ⟨text.crlf, file⟩
    lf.lexicalDiagnostics.map (·.code) = crlf.lexicalDiagnostics.map (·.code) ∧
      lf.syntaxDiagnostics.map (·.code) = crlf.syntaxDiagnostics.map (·.code) ∧
      (lf.lexicalDiagnostics = [] → lf.statements.map (Stmt.map fun _ => ()) =
        crlf.statements.map (Stmt.map fun _ => ())) ∧
      lf.compile.Agree crlf.compile := by
  intro lf crlf
  have hagree : lf.Agree crlf := agree_crlf h file
  exact ⟨hagree.lexical, hagree.syntactic, hagree.statements, hagree.compile⟩

/-- Lines that remember text, one with a segment up to its end, and lines that are broken at their
ends. -/
theorem crlf_findings_lines :
    let text : Text := "< :a {1} b\n~ 1 == 1 \n"
    let broken : Text := "> \"a\\\n~ :b \x7b1 \n< (1\n"
    carriageReturn ∉ text ∧ carriageReturn ∉ broken ∧
      (Source.mk text.crlf none).statements.map (Stmt.map fun _ => ()) =
        [.receive () (.concat () (.string () "a ") (.concat () (.integer () 1)
            (.concat () (.string () " b") (.string () "\r\n")))) ":a {1} b",
          .assert () (.binary () .eq (.integer () 1) (.integer () 1)) "1 == 1"] ∧
      (Source.mk broken.crlf none).lexicalDiagnostics.map (·.code) = ["E003", "E002"] ∧
      (Source.mk broken.crlf none).syntaxDiagnostics.map (·.code) = ["E105", "E104"] := by
  intro text broken
  have htext : carriageReturn ∉ text := by decide
  have hbroken : carriageReturn ∉ broken := by decide
  obtain ⟨-, -, hstatements, -⟩ := crlf_findings htext none
  obtain ⟨hlexical, hsyntax, -⟩ := crlf_findings hbroken none
  rw [← hstatements (by decide +kernel), ← hlexical, ← hsyntax]
  exact ⟨htext, hbroken, by decide +kernel, by decide +kernel, by decide +kernel⟩

end Source

end WireScript
