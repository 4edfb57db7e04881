import WireScript.Proofs.Run.Outcome
import WireScript.Run.Execute

/-!
# Notes in a run

A run looks at the notes of a script only to say where it failed: with other notes it does the same,
and fails at the other note (`Script.execute_map`).

`MapsErrors f x y` says that `y` does what `x` does, with the errors that `f` makes of those of `x`.
It holds of compounds where it holds of their parts, up to the search for a split, so that
evaluation and execution need a proof for the basic steps only.
-/

namespace WireScript

/-! ## Computations with other errors -/

section MapsErrors

variable {ε ε' σ γ δ : Type} {f : ε → ε'} {x : EStateM ε σ γ} {y : EStateM ε' σ γ}

/-- A computation does the same as another one, with other errors. -/
def MapsErrors (f : ε → ε') (x : EStateM ε σ γ) (y : EStateM ε' σ γ) : Prop :=
  y = x.adaptExcept f

theorem mapsErrors_pure (v : γ) :
    MapsErrors f (pure v : EStateM ε σ γ) (pure v : EStateM ε' σ γ) := rfl

theorem mapsErrors_throw (e : ε) :
    MapsErrors f (throw e : EStateM ε σ γ) (throw (f e) : EStateM ε' σ γ) := rfl

theorem mapsErrors_modify (g : σ → σ) :
    MapsErrors f (modify g : EStateM ε σ Unit) (modify g : EStateM ε' σ Unit) := rfl

theorem mapsErrors_get : MapsErrors f (get : EStateM ε σ σ) (get : EStateM ε' σ σ) := rfl

theorem mapsErrors_set (s : σ) :
    MapsErrors f (set s : EStateM ε σ PUnit) (set s : EStateM ε' σ PUnit) := rfl

theorem MapsErrors.bind {g : γ → EStateM ε σ δ} {g' : γ → EStateM ε' σ δ} (hx : MapsErrors f x y)
    (hg : ∀ v, MapsErrors f (g v) (g' v)) : MapsErrors f (x >>= g) (y >>= g') := by
  obtain rfl := hx
  obtain rfl : g' = fun v => (g v).adaptExcept f := funext hg
  funext s
  simp only [EStateM.adaptExcept, Bind.bind, EStateM.bind]
  cases x s <;> rfl

theorem MapsErrors.eq_ok {v : γ} {s s' : σ} (h : MapsErrors f x y) (hy : y s = .ok v s') :
    x s = .ok v s' := by
  rw [h, EStateM.adaptExcept] at hy
  split at hy <;> cases hy
  assumption

end MapsErrors

variable {α β γ : Type} {f : α → β}

/-- What ended a run, with another note. -/
def Halt.map (f : α → β) : Halt α → Halt β
  | .failed error note => .failed error (f note)
  | .unencodable => .unencodable

/-- What an expression has instead of a value, with another note. -/
def Stop.map (f : α → β) : Stop α → Stop β
  | .noMatch failure => .noMatch failure
  | .halt h => .halt (h.map f)

/-- The end of a run, with another note. -/
def Ending.map (f : α → β) (ending : Ending α) : Ending β :=
  ⟨ending.completed, ending.halt.map (Halt.map f)⟩

namespace Ending

variable {ending : Ending α} {completed : Nat}

theorem eq_of_map_none (h : ending.map f = ⟨completed, none⟩) : ending = ⟨completed, none⟩ := by
  obtain ⟨n, halt⟩ := ending
  cases halt with
  | none =>
    cases h
    rfl
  | some halt => cases h

theorem exists_of_map_failed {error : RuntimeError} {note : β}
    (h : ending.map f = ⟨completed, some (.failed error note)⟩) :
    ∃ note', f note' = note ∧ ending = ⟨completed, some (.failed error note')⟩ := by
  obtain ⟨n, halt⟩ := ending
  cases halt with
  | none => cases h
  | some halt =>
    cases halt with
    | failed error' note' =>
      cases h
      exact ⟨note', rfl, rfl⟩
    | unencodable => cases h

end Ending

/-! ## Evaluation -/

namespace Eval

theorem mapsErrors_text (t : Text) :
    MapsErrors (Stop.map f) (Eval.text t : Eval α Value) (Eval.text t) := by
  unfold Eval.text
  split
  · exact mapsErrors_pure _
  · exact mapsErrors_throw _

theorem mapsErrors_lookup (note : α) (x : Text) :
    MapsErrors (Stop.map f) (lookup note x) (lookup (f note) x) := by
  refine mapsErrors_get.bind fun m => ?_
  split
  · exact mapsErrors_pure _
  · exact mapsErrors_throw _

theorem mapsErrors_contextText (context : Option Text) :
    MapsErrors (Stop.map f) (contextText context : Eval α Text) (contextText context) := by
  cases context with
  | none => exact mapsErrors_throw _
  | some t => exact mapsErrors_pure t

theorem mapsErrors_attempt {x : Eval α γ} {y : Eval β γ} (h : MapsErrors (Stop.map f) x y) :
    MapsErrors (Stop.map f) x.attempt y.attempt := by
  obtain rfl := h
  funext m
  simp only [attempt, EStateM.adaptExcept]
  rcases x m with ⟨v, m'⟩ | ⟨e, m'⟩
  · rfl
  · cases e <;> rfl

end Eval

namespace Matcher

open Eval

/-- A part of an expression with other notes. -/
def MapsNotes (f : α → β) (part : Matcher α) (part' : Matcher β) : Prop :=
  ∀ context, MapsErrors (Stop.map f) (part context) (part' context)

variable {l r : Matcher α} {l' r' : Matcher β}

theorem mapsErrors_fits (hl : MapsNotes f l l') (hr : MapsNotes f r r') (t : Text) (k : Nat) :
    MapsErrors (Stop.map f) (fits l r t k) (fits l' r' t k) := by
  refine (mapsErrors_attempt (hl _)).bind fun v => ?_
  cases v with
  | error failure => exact mapsErrors_pure false
  | ok v =>
    refine (mapsErrors_attempt (hr _)).bind fun w => ?_
    cases w with
    | error failure => exact mapsErrors_pure false
    | ok w => exact mapsErrors_pure true

theorem mapsErrors_findSplit (hl : MapsNotes f l l') (hr : MapsNotes f r r') (t : Text)
    (found : Option Nat) (cuts : List Nat) :
    MapsErrors (Stop.map f) (findSplit l r t found cuts) (findSplit l' r' t found cuts) := by
  induction cuts generalizing found with
  | nil =>
    cases found with
    | none => exact mapsErrors_throw _
    | some k => exact mapsErrors_pure k
  | cons k cuts ih =>
    unfold findSplit
    refine (mapsErrors_fits hl hr t k).bind fun fit => ?_
    cases fit with
    | false => exact ih found
    | true =>
      cases found with
      | none => exact ih (some k)
      | some first => exact (mapsErrors_modify _).bind fun _ => mapsErrors_throw _

theorem mapsNotes_concat (hl : MapsNotes f l l') (hr : MapsNotes f r r') :
    MapsNotes f (concat l r) (concat l' r') := by
  intro context
  have hcontext := mapsErrors_contextText (f := f) context
  refine (mapsErrors_attempt (hl none)).bind fun v => ?_
  refine (mapsErrors_attempt (hr none)).bind fun w => ?_
  cases v with
  | ok v =>
    cases w with
    | ok w => exact mapsErrors_text _
    | error failure =>
      refine hcontext.bind fun t => ?_
      dsimp only
      split
      · exact (hr _).bind fun w => mapsErrors_text _
      · exact mapsErrors_throw _
  | error failure =>
    cases w with
    | ok w =>
      refine hcontext.bind fun t => ?_
      dsimp only
      split
      · exact (hl _).bind fun v => mapsErrors_text _
      · exact mapsErrors_throw _
    | error failure' =>
      refine hcontext.bind fun t => ?_
      refine (mapsErrors_findSplit hl hr t none _).bind fun k => ?_
      exact (hl _).bind fun v => (hr _).bind fun w => mapsErrors_text _

end Matcher

open Eval in
/-- An expression with other notes has the same value and stops for the same reason. -/
theorem Expr.eval_map (clock : Clock) (f : α → β) (e : Expr α) :
    Matcher.MapsNotes f (e.eval clock) ((e.map f).eval clock) := by
  induction e with
  | integer a n => exact fun _ => mapsErrors_pure _
  | string a t => exact fun _ => mapsErrors_text t
  | name a x =>
    intro context
    simp only [map, eval]
    split
    · exact mapsErrors_get.bind fun m => (mapsErrors_set _).bind fun _ => mapsErrors_pure _
    · exact mapsErrors_lookup a x
  | dot a =>
    intro context
    cases context with
    | none => exact mapsErrors_throw _
    | some t => exact mapsErrors_text t
  | binary a op l r ihl ihr =>
    intro context
    refine (ihl context).bind fun v => (ihr context).bind fun w => ?_
    split
    · exact mapsErrors_pure _
    · exact mapsErrors_throw _
  | and a l r ihl ihr =>
    intro context
    refine (ihl context).bind fun v => ?_
    split
    · exact (ihr context).bind fun w => mapsErrors_pure _
    · exact mapsErrors_pure _
  | or a l r ihl ihr =>
    intro context
    refine (ihl context).bind fun v => ?_
    split
    · exact mapsErrors_pure _
    · exact (ihr context).bind fun w => mapsErrors_pure _
  | not a e ih => exact fun context => (ih context).bind fun v => mapsErrors_pure _
  | concat a l r ihl ihr => exact Matcher.mapsNotes_concat ihl ihr
  | assign a b x e ih =>
    intro context
    refine (ih context).bind fun v => MapsErrors.bind ?_ fun _ => mapsErrors_pure v
    exact (mapsErrors_modify _).bind fun _ => mapsErrors_modify _

/-! ## Execution -/

namespace Exec

open Eval

theorem mapsErrors_evaluate {x : Eval α γ} {y : Eval β γ} (h : MapsErrors (Stop.map f) x y) :
    MapsErrors (Halt.map f) (evaluate x) (evaluate y) := by
  have hattempt : y.attempt = x.attempt.adaptExcept (Stop.map f) := mapsErrors_attempt h
  funext w
  simp only [evaluate, hattempt, EStateM.adaptExcept]
  rcases x.attempt w.memory with ⟨r, m⟩ | ⟨e, m⟩
  · rfl
  · cases e <;> rfl

theorem mapsErrors_fail (error : RuntimeError) (note : α) :
    MapsErrors (Halt.map f) (fail error note : Exec α γ) (fail error (f note)) := rfl

theorem mapsErrors_operandValue (clock : Clock) (note : α) (e : Expr α) :
    MapsErrors (Halt.map f) (operandValue clock note e)
      (operandValue clock (f note) (e.map f)) := by
  refine (mapsErrors_evaluate (e.eval_map clock f none)).bind fun r => ?_
  cases r with
  | ok v => exact mapsErrors_pure v
  | error failure => exact (mapsErrors_modify _).bind fun _ => mapsErrors_fail _ note

theorem mapsErrors_send (note : α) (t : Text) :
    MapsErrors (Halt.map f) (send note t) (send (f note) t) := by
  unfold send
  cases Utf8.encode t with
  | none => exact mapsErrors_throw _
  | some bytes =>
    refine mapsErrors_get.bind fun w => ?_
    cases w.channel.write bytes with
    | error reason => exact mapsErrors_fail _ note
    | ok channel => exact (mapsErrors_set _).bind fun _ => mapsErrors_modify _

theorem mapsErrors_receive (note : α) :
    MapsErrors (Halt.map f) (receive note) (receive (f note)) := by
  refine mapsErrors_get.bind fun w => (mapsErrors_set _).bind fun _ => ?_
  split
  · exact mapsErrors_fail _ note
  · exact (mapsErrors_modify _).bind fun _ => mapsErrors_pure _

end Exec

open Exec in
/-- A statement with other notes does the same, and fails at the other note. -/
theorem Stmt.execute_map (clock : Clock) (f : α → β) (s : Stmt α) :
    MapsErrors (Halt.map f) (s.execute clock) ((s.map f).execute clock) := by
  cases s with
  | send note e => exact (mapsErrors_operandValue clock note e).bind fun v => mapsErrors_send note _
  | receive note p source =>
    refine (mapsErrors_receive note).bind fun line => ?_
    refine (mapsErrors_evaluate (p.eval_map clock f _)).bind fun r => ?_
    cases r with
    | error failure =>
      dsimp only
      split
      · exact mapsErrors_fail _ note
      · exact mapsErrors_fail _ note
    | ok v =>
      dsimp only
      split
      · exact mapsErrors_pure _
      · exact mapsErrors_fail _ note
  | assert note e source =>
    refine (mapsErrors_operandValue clock note e).bind fun v => ?_
    split
    · exact mapsErrors_pure _
    · exact mapsErrors_fail _ note
  | expr note e => exact (mapsErrors_operandValue clock note e).bind fun v => mapsErrors_pure _

theorem executeFrom_map (clock : Clock) (f : α → β) (completed : Nat) (ss : List (Stmt α))
    (w : World) :
    executeFrom clock completed (ss.map (Stmt.map f)) w =
      ((executeFrom clock completed ss w).1.map f, (executeFrom clock completed ss w).2) := by
  induction ss generalizing completed w with
  | nil => rfl
  | cons s ss ih =>
    have hs : (s.map f).execute clock w = (s.execute clock).adaptExcept (Halt.map f) w :=
      congrFun (s.execute_map clock f) w
    rw [List.map_cons, executeFrom, executeFrom, hs, EStateM.adaptExcept]
    cases s.execute clock w with
    | ok u w' => exact ih (completed + 1) w'
    | error halt w' => rfl

/-- A script with other notes does the same, and fails at the other note. -/
theorem Script.execute_map (clock : Clock) (f : α → β) (script : Script α) (w : World) :
    (script.map f).execute clock w =
      ((script.execute clock w).1.map f, (script.execute clock w).2) :=
  executeFrom_map clock f 0 script.statements w

end WireScript
