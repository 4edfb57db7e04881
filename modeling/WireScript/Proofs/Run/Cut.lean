import WireScript.Proofs.Run.Place
import WireScript.Proofs.Source.Append
import WireScript.Run.Report

/-!
# Cutting a script at a line

A script can be cut at the end of any line: running the whole is running the first part and, if that
ends well, the second part on the world that the first one leaves.

* `executeFrom_append_of_halt` and `executeFrom_append_of_completed` say this of lists of
  statements.
* `Source.compile_append` says that a source made of two compiles if its parts do, and to which
  statements.
* `Source.result_front` and `Source.result_behind` say that the results of the parts, with their
  diagnostics, are those of the whole.  `Source.execute_append` puts all of this together.
-/

namespace WireScript

/-! ## Statements -/

section Statements

variable {α : Type}

/-- Statements behind others that end the run are not looked at. -/
theorem executeFrom_append_of_halt {clock : Clock} {completed : Nat} {ss : List (Stmt α)}
    {w : World} (h : (executeFrom clock completed ss w).1.halt ≠ none) (others : List (Stmt α)) :
    executeFrom clock completed (ss ++ others) w = executeFrom clock completed ss w := by
  induction ss generalizing completed w with
  | nil => exact absurd rfl h
  | cons s ss ih =>
    rw [executeFrom] at h
    rw [List.cons_append, executeFrom, executeFrom]
    cases hs : s.execute clock w with
    | ok u w' =>
      rw [hs] at h
      exact ih h
    | error halt w' => rfl

/-- Statements behind others that complete run where these left off. -/
theorem executeFrom_append_of_completed {clock : Clock} {completed : Nat} {ss : List (Stmt α)}
    {w : World} (h : (executeFrom clock completed ss w).1.halt = none) (others : List (Stmt α)) :
    executeFrom clock completed (ss ++ others) w =
      executeFrom clock (executeFrom clock completed ss w).1.completed others
        (executeFrom clock completed ss w).2 := by
  induction ss generalizing completed w with
  | nil => rfl
  | cons s ss ih =>
    rw [executeFrom] at h
    rw [List.cons_append, executeFrom, executeFrom]
    cases hs : s.execute clock w with
    | ok u w' =>
      rw [hs] at h
      exact ih h
    | error halt w' =>
      rw [hs] at h
      cases h

/-- The number of statements that completed before is added to those that complete. -/
theorem executeFrom_eq (clock : Clock) (completed : Nat) (ss : List (Stmt α)) (w : World) :
    executeFrom clock completed ss w =
      (⟨completed + (executeFrom clock 0 ss w).1.completed, (executeFrom clock 0 ss w).1.halt⟩,
        (executeFrom clock 0 ss w).2) := by
  induction ss generalizing completed w with
  | nil => rfl
  | cons s ss ih =>
    rw [executeFrom, executeFrom]
    cases s.execute clock w with
    | ok u w' =>
      dsimp only
      rw [ih, ih (0 + 1), Nat.add_assoc, Nat.zero_add]
    | error halt w' => rfl

end Statements

/-! ## Sources -/

/-- The result of a run behind another one, of which some statements completed. -/
def RunResult.behind (front : Text) (completed : Nat) (r : RunResult) : RunResult :=
  { r with
    completed := completed + r.completed
    diagnostic := r.diagnostic.map (Diagnostic.behind front) }

/-- The end of a run behind another one, of which some statements completed. -/
def Ending.behind (front : Text) (completed : Nat) (ending : Ending Span) : Ending Span :=
  ⟨completed + ending.completed, ending.halt.map (Halt.map (Span.behind front))⟩

namespace Source

variable {front back : Text} {file : Option Text} {first second : Script Span}

/-- A source made of two compiles if its parts do. -/
theorem compile_append (h : front.EndsLine) (hfirst : compile ⟨front, file⟩ = .script first)
    (hsecond : compile ⟨back, file⟩ = .script second) :
    ∃ whole, compile ⟨front ++ back, file⟩ = .script whole ∧
      whole.statements =
        first.statements ++ second.statements.map (Stmt.map (Span.behind front)) := by
  obtain ⟨hencodable, hlexical, hsyntax, rfl⟩ := compile_eq_script_iff.1 hfirst
  obtain ⟨hencodable', hlexical', hsyntax', rfl⟩ := compile_eq_script_iff.1 hsecond
  refine ⟨_, compile_eq_script_iff.2 ⟨?_, ?_, ?_, rfl⟩, (parsed_append h back file).1⟩
  · rw [isEncodable_append h, hencodable, hencodable']
    rfl
  · rw [lexicalDiagnostics_append h, hlexical, hlexical']
    rfl
  · rw [syntaxDiagnostics_append h, hsyntax, hsyntax']
    rfl

/-- The result of a run of the first part is one of the whole. -/
theorem result_front (h : front.EndsLine) (hfirst : compile ⟨front, file⟩ = .script first)
    (back : Text) (clock : Clock) (w : World) (bindings : Bindings) :
    result ⟨front ++ back, file⟩ (first.execute clock w).1 bindings =
      result ⟨front, file⟩ (first.execute clock w).1 bindings := by
  obtain ⟨-, -, -, rfl⟩ := compile_eq_script_iff.1 hfirst
  unfold result
  split
  · rfl
  · next error span hhalt =>
    obtain ⟨s, hs, hspan⟩ := Script.mem_notes_of_halt hhalt
    have hline := (parse_front h back file).1.2 s hs span hspan
    rw [failure, failure, diagnose_front h back file hline]
  · rfl

/-- The result of a run of the second part is one of the whole, with its locations moved. -/
theorem result_behind (h : front.EndsLine) (hsecond : compile ⟨back, file⟩ = .script second)
    (clock : Clock) (w : World) (completed : Nat) (bindings : Bindings) :
    result ⟨front ++ back, file⟩ ((second.execute clock w).1.behind front completed) bindings =
      (result ⟨back, file⟩ (second.execute clock w).1 bindings).map
        (RunResult.behind front completed) := by
  obtain ⟨-, -, -, rfl⟩ := compile_eq_script_iff.1 hsecond
  cases hhalt : (Script.execute clock (parsed ⟨back, file⟩).script w).1.halt with
  | none => simp only [result, Ending.behind, hhalt, Option.map_none, Option.map_some]; rfl
  | some halt =>
    cases halt with
    | unencodable => simp only [result, Ending.behind, hhalt, Option.map_some, Halt.map]; rfl
    | failed error span =>
      obtain ⟨s, hs, hspan⟩ := Script.mem_notes_of_halt hhalt
      have hline := (parse_behind front back file).1.2 s hs span hspan
      have hfailure : failure ⟨front ++ back, file⟩ error (span.behind front) =
          (failure ⟨back, file⟩ error span).behind front :=
        diagnose_behind h back file (r := ⟨error, span⟩) hline
      simp only [result, Ending.behind, hhalt, Option.map_some, Halt.map, hfailure]
      rfl

/-- A script can be cut at any line: a source made of two whose parts compile does, and running it
is running the first part and, if no statement of it ends the run, the second one on the world that
this leaves.  The result is that of the part in which the run ends, where the second one comes
behind the first. -/
theorem execute_append (h : front.EndsLine) (hfirst : compile ⟨front, file⟩ = .script first)
    (hsecond : compile ⟨back, file⟩ = .script second) :
    ∃ whole, compile ⟨front ++ back, file⟩ = .script whole ∧
      ∀ (clock : Clock) (w : World) (bindings : Bindings),
        let r := whole.execute clock w
        let r₁ := first.execute clock w
        let r₂ := second.execute clock r₁.2
        (r₁.1.halt ≠ none → r = r₁ ∧
          result ⟨front ++ back, file⟩ r.1 bindings = result ⟨front, file⟩ r₁.1 bindings) ∧
        (r₁.1.halt = none → r = (r₂.1.behind front r₁.1.completed, r₂.2) ∧
          result ⟨front ++ back, file⟩ r.1 bindings =
            (result ⟨back, file⟩ r₂.1 bindings).map (.behind front r₁.1.completed)) := by
  obtain ⟨whole, hwhole, hstatements⟩ := compile_append h hfirst hsecond
  refine ⟨whole, hwhole, fun clock w bindings => ?_⟩
  intro r r₁ r₂
  have hrun : r = executeFrom clock 0
      (first.statements ++ second.statements.map (Stmt.map (Span.behind front))) w :=
    congrArg (executeFrom clock 0 · w) hstatements
  constructor
  · intro hhalt
    rw [hrun, executeFrom_append_of_halt hhalt]
    exact ⟨rfl, result_front h hfirst back clock w bindings⟩
  · intro hhalt
    rw [hrun, executeFrom_append_of_completed hhalt, executeFrom_eq, executeFrom_map]
    exact ⟨rfl, result_behind h hsecond clock r₁.2 r₁.1.completed bindings⟩

/-- An assertion that fails on a line behind the assignment to its name. -/
theorem execute_append_assertion :
    let front : Text := "x = 1\n"
    let back : Text := "~ x == 2\n"
    front.EndsLine ∧ ∃ first second whole,
      compile ⟨front, none⟩ = .script first ∧ compile ⟨back, none⟩ = .script second ∧
      compile ⟨front ++ back, none⟩ = .script whole ∧
      (whole.execute (fun _ => 0) {}).1.completed = 1 ∧
      (result ⟨front ++ back, none⟩ (whole.execute (fun _ => 0) {}).1 []).map
        (fun r => r.diagnostic.map fun d => (d.span.start.line, d.sourceLine)) =
          some (some (2, some ("~ x == 2" : Text))) := by
  intro front back
  have h : front.EndsLine := ⟨"x = 1", by decide +kernel⟩
  have hfirst : compile ⟨front, none⟩ = .script (parsed ⟨front, none⟩).script :=
    compile_eq_script_iff.2 ⟨by decide +kernel, by decide +kernel, by decide +kernel, rfl⟩
  have hsecond : compile ⟨back, none⟩ = .script (parsed ⟨back, none⟩).script :=
    compile_eq_script_iff.2 ⟨by decide +kernel, by decide +kernel, by decide +kernel, rfl⟩
  obtain ⟨whole, hwhole, hrun⟩ := execute_append h hfirst hsecond
  obtain ⟨hexecute, hresult⟩ := (hrun (fun _ => 0) {} []).2 (by decide +kernel)
  refine ⟨h, _, _, whole, hfirst, hsecond, hwhole, ?_, ?_⟩
  · rw [hexecute]
    decide +kernel
  · rw [hresult]
    decide +kernel

end Source

end WireScript
