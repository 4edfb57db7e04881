import WireScript.Proofs.Run.Invariant

/-!
# How evaluation ends a run

An evaluation that ends the run with an error has come upon a name without a binding or has divided
by zero: `Expr.haltsOnly_eval`.  The errors of the statements themselves never come from the inside
of an expression.
-/

namespace WireScript

namespace Eval

variable {α β γ : Type} {P : RuntimeError → Prop}

/-- The errors with which a computation ends the run all satisfy a predicate. -/
def HaltsOnly (P : RuntimeError → Prop) (x : Eval α β) : Prop :=
  ∀ m error note m', x m = .error (.halt (.failed error note)) m' → P error

/-- The run does not end with any other error. -/
def Invariant.haltingOnly (P : RuntimeError → Prop) : Invariant α where
  memory _ := True
  value _ := True
  text _ := True
  stop e := ∀ error note, e = .halt (.failed error note) → P error

theorem Invariant.Holds.haltsOnly {x : Eval α β} {Q : β → Prop}
    (hx : (Invariant.haltingOnly P).Holds Q x) : HaltsOnly P x :=
  fun _ error note _ h => (hx.of_error trivial h).2 error note rfl

end Eval

/-- The errors that an expression can come upon. -/
def RuntimeError.IsOfExpr : RuntimeError → Prop
  | .unbound _ | .divisionByZero => True
  | _ => False

/-- The code of a line that is not what its pattern says belongs to no other error. -/
theorem RuntimeError.exists_mismatch_of_code {error : RuntimeError}
    (h : error.code = ("E406" : Text)) :
    ∃ received matched, error = .mismatch received matched := by
  cases error with
  | mismatch received matched => exact ⟨received, matched, rfl⟩
  | _ =>
    simp only [code] at h
    exact absurd h (by decide)

namespace Eval

variable {α : Type}

theorem lawful_haltingOnly :
    (Invariant.haltingOnly RuntimeError.IsOfExpr : Invariant α).Lawful where
  noMatch _ _ _ h := by cases h
  divisionByZero note error note' h := by
    cases h
    trivial
  ofInt _ := trivial
  bool _ := trivial
  join _ _ := trivial
  cut _ _ := ⟨trivial, trivial⟩
  ofText {t} _ := by
    unfold Eval.text
    split
    · exact Invariant.holds_pure trivial
    · exact Invariant.holds_throw fun _ _ h => by cases h
  lookup note x m _ := by
    cases hv : m.bindings.get? x with
    | some v =>
      rw [lookup_of_get? hv]
      exact ⟨trivial, trivial⟩
    | none =>
      rw [lookup_of_get?_none hv]
      refine ⟨trivial, fun error note' h => ?_⟩
      cases h
      trivial
  now _ _ _ := ⟨trivial, trivial⟩
  record _ _ _ := ⟨trivial, trivial⟩

end Eval

open Eval in
/-- Evaluation ends a run only for a name without a binding or a division by zero. -/
theorem Expr.haltsOnly_eval {α : Type} (clock : Clock) (e : Expr α) (context : Option Text) :
    HaltsOnly RuntimeError.IsOfExpr (e.eval clock context) :=
  have hassign (x : Text) (_ : x ∈ e.targets) (v : Value) (_ : True) :
      (Invariant.haltingOnly RuntimeError.IsOfExpr).Holds (fun _ => True)
        (Eval.assign x v : Eval α Unit) :=
    fun _ _ => ⟨trivial, trivial⟩
  (e.holds_eval clock lawful_haltingOnly (fun _ _ => trivial) hassign fun _ _ => trivial).haltsOnly

end WireScript
