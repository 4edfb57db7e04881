import Mathlib.Algebra.Order.BigOperators.Group.List
import Mathlib.Algebra.Order.Ring.Nat
import WireScript.Proofs.Grammar.Recovery
import WireScript.Proofs.Source.Nested

/-!
# Reports on statements

What is wrong with a statement is reported on its line, and its line has one report if it has one
fault.

* `Line.parse_onLine` says that a statement and the reports on it start on one line of source: they
  have no locations but those of the tokens of the line and of its end.
* `reports_of_faults` adds how many reports there are.  A statement has several of them exactly if
  the scanner counts several faults in its line, as in a group around an assignment.
-/

namespace WireScript

/-- Every location where a stretch may start stands for itself if it is on a line. -/
def Likeness.onLine (n : Nat) : Likeness :=
  .moved id (fun here => here.line = n) (fun _ => True) fun _ _ => trivial

/-- A statement starts on the line of source where its tokens are, and so do the reports on it. -/
theorem Line.parse_onLine (source : Text) {line : Line} {n : Nat} (hne : line.tokens ≠ [])
    (htokens : ∀ t ∈ line.tokens, t.OnLine n) (hstop : line.stop.span.start.line = n) :
    (line.parse (some source)).1.note.start.line = n ∧
      ∀ r ∈ (line.parse (some source)).2, r.span.start.line = n := by
  have hs : (Likeness.onLine n).Slices source source := by
    rintro a _ b _ ⟨rfl, -⟩ ⟨rfl, -⟩
    rfl
  have htoken {t : Token} (ht : t.span.start.line = n) : (Likeness.onLine n).Tokens t t :=
    Likeness.tokens_moved ht trivial
  have hlines : (Likeness.onLine n).Lines line line := by
    refine ⟨List.forall₂_same.2 fun t ht => ?_, htoken hstop⟩
    exact ⟨htoken (htokens t ht).1, rfl, (htokens t ht).2⟩
  obtain ⟨hstatement, hreports⟩ := hlines.parse hs hne
  constructor
  · exact (hstatement.eq_moved.2 _ List.mem_cons_self).1
  · exact fun r hr => (List.forall₂_same.1 hreports r hr).eq_moved.2.1

namespace Source

/-- Every report starts on the line of its statement, and a statement has one of them unless there
are several faults in its line. -/
theorem reports_of_faults (source : Source) :
    source.parsed.script.statements =
        source.lines.map (fun line => (line.parse (some source.text)).1) ∧
      source.parsed.reports =
        source.lines.flatMap (fun line => (line.parse (some source.text)).2) ∧
      (∀ line ∈ source.lines,
        ((line.parse (some source.text)).2.length ≤ 1 ↔ line.faults ≤ 1) ∧
          ∀ r ∈ (line.parse (some source.text)).2,
            r.span.start.line = (line.parse (some source.text)).1.note.start.line) ∧
      ((∀ line ∈ source.lines, line.faults ≤ 1) →
        source.parsed.reports.length ≤ source.parsed.script.statements.length) := by
  have hstop {line : Line} (hline : line ∈ source.lines) := (inOrder_of_mem_lines hline).2
  refine ⟨source.parsed_eq.1, source.parsed_eq.2, fun line hline => ⟨?_, ?_⟩, fun hfaults => ?_⟩
  · exact line.length_reports_le_one_iff _ (hstop hline)
  · obtain ⟨n, htokens, hend⟩ := exists_onLine_of_mem_lines hline
    obtain ⟨hstatement, hreports⟩ :=
      line.parse_onLine source.text (Line.ne_nil_of_mem_filled hline) htokens hend
    exact fun r hr => (hreports r hr).trans hstatement.symm
  · have hlength : ∀ n ∈ source.lines.map fun line => (line.parse (some source.text)).2.length,
        n ≤ 1 := by
      rw [List.forall_mem_map]
      exact fun line hline =>
        (line.length_reports_le_one_iff _ (hstop hline)).2 (hfaults line hline)
    have hsum := List.sum_le_card_nsmul _ 1 hlength
    rw [source.parsed_eq.2, List.length_flatMap,
      show source.parsed.script.statements = _ from source.parsed_eq.1, List.length_map]
    simpa using hsum

/-- A group that is not closed, around an assignment to a number, is one statement with two
reports. -/
theorem reports_of_two_faults :
    let source : Source := ⟨"(1 = 2\n", none⟩
    (scan source.text).reports = [] ∧ source.parsed.script.statements.length = 1 ∧
      source.parsed.reports.map (·.cause) = [.assignmentTarget, .unclosedGroup] := by
  decide +kernel

/-- A bad statement with one fault has one report, however it goes on. -/
theorem reports_of_faults_skipped :
    let source : Source := ⟨"> ) ) )\n~ ) )\nx = (1 + 2\n", none⟩
    (∀ line ∈ source.lines, line.faults ≤ 1) ∧
      source.parsed.reports.length ≤ source.parsed.script.statements.length ∧
      source.parsed.reports.length = 3 := by
  intro source
  have hfaults : ∀ line ∈ source.lines, line.faults ≤ 1 := by decide +kernel
  exact ⟨hfaults, source.reports_of_faults.2.2.2 hfaults, by decide +kernel⟩

end Source

end WireScript
