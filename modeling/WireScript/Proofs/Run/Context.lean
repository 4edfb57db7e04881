import WireScript.Proofs.Run.Outcome

/-!
# Expressions that need no text

A text to match is there for the parts of an expression that have no value of their own.  An
expression that has a value without a text, or ends the run, takes the same steps when it is matched
against one: it comes to the same outcome and leaves the same memory (`Expr.eval_ignores_context`).

`Decides x y` says this of two computations, and it holds of compounds where it holds of their
parts.  A concatenation is the one compound whose parts are not evaluated against the text of the
whole: it tries them without a text first, and looks at the text only when one of them needs it.
-/

namespace WireScript

namespace Eval

variable {α β γ : Type}

/-- A computation has a value or ends the run. -/
def Suffices (x : Eval α β) (m : Memory) : Prop :=
  ∀ f m', x m ≠ .error (.noMatch f) m'

theorem suffices_pure (v : β) (m : Memory) : Suffices (pure v : Eval α β) m := by
  intro f m' h
  cases h

theorem suffices_fail (error : RuntimeError) (note : α) (m : Memory) :
    Suffices (fail error note : Eval α β) m := by
  intro f m' h
  cases h

theorem suffices_text (t : Text) (m : Memory) : Suffices (Eval.text t : Eval α Value) m :=
  fun f m' => text_ne_noMatch t m m' f

theorem suffices_bind {x : Eval α β} {f : β → Eval α γ} (hx : ∀ m, Suffices x m)
    (hf : ∀ v m, Suffices (f v) m) (m : Memory) : Suffices (x >>= f) m := by
  intro failure m' h
  rcases bind_eq_error_iff.1 h with h | ⟨v, m₁, -, h⟩
  · exact hx m failure m' h
  · exact hf v m₁ failure m' h

/-- Where one computation has a value or ends the run, the other one does the same. -/
def Decides (x y : Eval α β) : Prop :=
  ∀ m, Suffices x m → y m = x m

theorem Decides.refl (x : Eval α β) : Decides x x :=
  fun _ _ => rfl

theorem decides_noMatch (f : MatchFailure) (y : Eval α β) : Decides (noMatch f) y :=
  fun m hm => absurd rfl (hm f m)

theorem Decides.bind {x y : Eval α β} {f g : β → Eval α γ} (hx : Decides x y)
    (hf : ∀ v, Decides (f v) (g v)) : Decides (x >>= f) (y >>= g) := by
  intro m hm
  have hsame : y m = x m := hx m fun failure m' h => hm failure m' (bind_of_error h)
  cases h : x m with
  | ok v m₁ =>
    rw [bind_of_ok h, bind_of_ok (hsame.trans h)]
    exact hf v m₁ fun failure m' h' => hm failure m' ((bind_of_ok h).trans h')
  | error e m₁ => rw [bind_of_error h, bind_of_error (hsame.trans h)]

end Eval

open Eval

variable {α : Type}

namespace Matcher

variable {left right : Matcher α}

/-- Once the sides were tried, a text is asked for only if one of them needs it. -/
theorem decides_join (l r : Except MatchFailure Value) (context : Option Text) :
    Decides (join left right none l r) (join left right context l r) := by
  have hcontext : Decides (contextText none : Eval α Text) (contextText context) :=
    decides_noMatch _ _
  cases l with
  | ok l =>
    cases r with
    | ok r => exact .refl _
    | error f => exact hcontext.bind fun t => .refl _
  | error f =>
    cases r with
    | ok r => exact hcontext.bind fun t => .refl _
    | error f' => exact hcontext.bind fun t => .refl _

theorem decides_concat (context : Option Text) :
    Decides (concat left right none) (concat left right context) := by
  rw [concat_eq_join, concat_eq_join]
  exact (Decides.refl _).bind fun l => (Decides.refl _).bind fun r => decides_join l r context

end Matcher

namespace Expr

theorem decides_eval (clock : Clock) (e : Expr α) (context : Option Text) :
    Decides (e.eval clock none) (e.eval clock context) := by
  induction e with
  | integer a n => exact .refl _
  | string a t => exact .refl _
  | name a x => exact .refl _
  | dot a => exact decides_noMatch _ _
  | binary a op l r ihl ihr => exact ihl.bind fun v => ihr.bind fun w => .refl _
  | and a l r ihl ihr =>
    refine ihl.bind fun v => ?_
    split
    · exact ihr.bind fun w => .refl _
    · exact .refl _
  | or a l r ihl ihr =>
    refine ihl.bind fun v => ?_
    split
    · exact .refl _
    · exact ihr.bind fun w => .refl _
  | not a e ih => exact ih.bind fun v => .refl _
  | concat a l r => exact Matcher.decides_concat context
  | assign a b x e ih => exact ih.bind fun v => .refl _

/-- An expression that has a value without a text to match, or ends the run, does the same against
every text: the value or the error, the bindings, the readings of the clock and the trace are those
that there are without one. -/
theorem eval_ignores_context {clock : Clock} {e : Expr α} {m : Memory}
    (h : ∀ f m', e.eval clock none m ≠ .error (.noMatch f) m') (context : Option Text) :
    e.eval clock context m = e.eval clock none m :=
  e.decides_eval clock context m h

/-- A dot that is never looked at, behind an assignment that is. -/
theorem eval_ignores_context_short_circuit :
    let e : Expr Unit := .or () (.binary () .eq (.assign () () "x" (.name () "now"))
      (.integer () 7)) (.concat () (.dot ()) (.string () "!"))
    (∀ f m', e.eval (fun _ => 7) none {} ≠ .error (.noMatch f) m') ∧
      e.eval (fun _ => 7) (some "ab") {} =
        .ok (.bool true) ⟨[("x", .integer 7)], 1, [.assigned "x" (.integer 7)]⟩ := by
  intro e
  have hvalue : e.eval (fun _ => 7) none {} =
      .ok (.bool true) ⟨[("x", .integer 7)], 1, [.assigned "x" (.integer 7)]⟩ := rfl
  have hnone : ∀ f m', e.eval (fun _ => 7) none {} ≠ .error (.noMatch f) m' := by
    rw [hvalue]
    exact nofun
  exact ⟨hnone, (eval_ignores_context hnone (some "ab")).trans hvalue⟩

end Expr

end WireScript
