import WireScript.Proofs.Pattern.Basic
import WireScript.Proofs.Run.Outcome

/-!
# Invariants of evaluation

An `Eval.Invariant` says what stays true in an evaluation: of the memory, of the values that come
up, of the texts that are made into values, and of what a computation stops with.  `Holds` says that
a computation keeps it.

The compounds of evaluation keep an invariant that their parts keep, up to the search for a split.
An invariant is `Lawful` if the basic steps keep it, and then every expression keeps it whose
literals and assignments do (`Expr.holds_eval`).  What evaluation leaves alone, which errors can end
it and that its values are well-formed are said by invariants of this kind, so that the evaluator is
gone through once for all of them.
-/

namespace WireScript

/-- An operator on integers has an integer or a Boolean as its value. -/
theorem IntOp.eq_ofInt_or_bool {op : IntOp} {m n : Int} {v : Value} (h : op.apply? m n = some v) :
    (∃ k, v = .ofInt k) ∨ ∃ b, v = .bool b := by
  cases op with
  | add | sub | mul =>
    cases h
    exact Or.inl ⟨_, rfl⟩
  | div | rem =>
    by_cases hn : n = 0
    · simp [ IntOp.apply?, hn] at h
    · simp only [ IntOp.apply?, if_neg hn, Option.some.injEq] at h
      exact Or.inl ⟨_, h.symm⟩
  | eq | lt | gt =>
    cases h
    exact Or.inr ⟨_, rfl⟩

namespace Eval

/-- What stays true in an evaluation. -/
structure Invariant (α : Type) where
  /-- What holds of the memory at any time. -/
  memory : Memory → Prop
  /-- What holds of every value. -/
  value : Value → Prop
  /-- What holds of every text that is matched or made into a value. -/
  text : Text → Prop
  /-- What holds of whatever an evaluation stops with instead of a value. -/
  stop : Stop α → Prop

namespace Invariant

variable {α β γ : Type} {I : Invariant α} {P : β → Prop} {Q : γ → Prop}

/-- A computation keeps an invariant, and its result has a property. -/
def Holds (I : Invariant α) (P : β → Prop) (x : Eval α β) : Prop :=
  ∀ m, I.memory m →
    match x m with
    | .ok v m' => I.memory m' ∧ P v
    | .error e m' => I.memory m' ∧ I.stop e

theorem Holds.of_ok {x : Eval α β} (hx : I.Holds P x) {m m' : Memory} {v : β} (hm : I.memory m)
    (h : x m = .ok v m') : I.memory m' ∧ P v := by
  have hkept := hx m hm
  rwa [h] at hkept

theorem Holds.of_error {x : Eval α β} (hx : I.Holds P x) {m m' : Memory} {e : Stop α}
    (hm : I.memory m) (h : x m = .error e m') : I.memory m' ∧ I.stop e := by
  have hkept := hx m hm
  rwa [h] at hkept

theorem holds_pure {v : β} (hv : P v) : I.Holds P (pure v : Eval α β) :=
  fun _ hm => ⟨hm, hv⟩

theorem holds_throw {e : Stop α} (he : I.stop e) : I.Holds P (throw e : Eval α β) :=
  fun _ hm => ⟨hm, he⟩

theorem Holds.bind {x : Eval α β} {f : β → Eval α γ} (hx : I.Holds P x)
    (hf : ∀ v, P v → I.Holds Q (f v)) : I.Holds Q (x >>= f) := by
  intro m hm
  cases h : x m with
  | ok v m₁ =>
    rw [bind_of_ok h]
    obtain ⟨hm₁, hv⟩ := hx.of_ok hm h
    exact hf v hv m₁ hm₁
  | error e m₁ =>
    rw [bind_of_error h]
    exact hx.of_error hm h

theorem Holds.attempt {x : Eval α β} (hx : I.Holds P x) :
    I.Holds (fun r => ∀ v, r = .ok v → P v) x.attempt := by
  intro m hm
  cases h : x m with
  | ok v m₁ =>
    rw [attempt_of_ok h]
    obtain ⟨hm₁, hv⟩ := hx.of_ok hm h
    refine ⟨hm₁, fun v' hv' => ?_⟩
    cases hv'
    exact hv
  | error e m₁ =>
    obtain ⟨hm₁, he⟩ := hx.of_error hm h
    cases e with
    | noMatch f =>
      rw [attempt_of_noMatch h]
      exact ⟨hm₁, fun v hv => by cases hv⟩
    | halt e =>
      simp only [Eval.attempt, h]
      exact ⟨hm₁, he⟩

/-- An invariant that the basic steps of evaluation keep, assignments apart. -/
structure Lawful (I : Invariant α) : Prop where
  noMatch : ∀ f, I.stop (.noMatch f)
  divisionByZero : ∀ note, I.stop (.halt (.failed .divisionByZero note))
  ofInt : ∀ n, I.value (.ofInt n)
  bool : ∀ b, I.value (.bool b)
  join : ∀ {v w}, I.value v → I.value w → I.text (v.toText ++ w.toText)
  cut : ∀ {t} k, I.text t → I.text (t.take k) ∧ I.text (t.drop k)
  ofText : ∀ {t}, I.text t → I.Holds I.value (Eval.text t)
  lookup : ∀ note x, I.Holds I.value (lookup note x)
  now : ∀ clock, I.Holds I.value (now clock)
  record : ∀ event, I.Holds (fun _ => True) (record event)

namespace Lawful

theorem holds_noMatch (hI : I.Lawful) (f : MatchFailure) :
    I.Holds P (Eval.noMatch f : Eval α β) :=
  holds_throw (hI.noMatch f)

theorem holds_contextText (hI : I.Lawful) (context : Option Text) :
    I.Holds (· ∈ context) (contextText context) := by
  cases context with
  | none => exact hI.holds_noMatch _
  | some t => exact holds_pure rfl

theorem holds_join (hI : I.Lawful) {v w : Value} (hv : I.value v) (hw : I.value w) :
    I.Holds I.value (Eval.text (v.toText ++ w.toText)) :=
  hI.ofText (hI.join hv hw)

theorem value_of_apply? (hI : I.Lawful) {op : IntOp} {m n : Int} {v : Value}
    (h : op.apply? m n = some v) : I.value v := by
  rcases IntOp.eq_ofInt_or_bool h with ⟨k, rfl⟩ | ⟨b, rfl⟩
  · exact hI.ofInt k
  · exact hI.bool b

end Lawful

end Invariant

end Eval

/-! ## Concatenations -/

namespace Matcher

open Eval

variable {α : Type} {I : Invariant α} {left right : Matcher α}

/-- Trying a cut keeps what trying the sides keeps. -/
theorem holds_fits {t : Text} {k : Nat} (hl : I.Holds I.value (left (some (t.take k))))
    (hr : I.Holds I.value (right (some (t.drop k)))) :
    I.Holds (fun _ => True) (fits left right t k) := by
  refine hl.attempt.bind fun l _ => ?_
  cases l with
  | error f => exact Invariant.holds_pure trivial
  | ok l =>
    refine hr.attempt.bind fun r _ => ?_
    cases r with
    | error f => exact Invariant.holds_pure trivial
    | ok r => exact Invariant.holds_pure trivial

/-- So does the search for a cut. -/
theorem holds_findSplit (hI : I.Lawful) {t : Text}
    (hl : ∀ k, I.Holds I.value (left (some (t.take k))))
    (hr : ∀ k, I.Holds I.value (right (some (t.drop k)))) (found : Option Nat) (cuts : List Nat) :
    I.Holds (fun _ => True) (findSplit left right t found cuts) := by
  induction cuts generalizing found with
  | nil =>
    cases found with
    | none => exact hI.holds_noMatch _
    | some k => exact Invariant.holds_pure trivial
  | cons k cuts ih =>
    unfold findSplit
    refine (holds_fits (hl k) (hr k)).bind fun fit _ => ?_
    cases fit with
    | false => exact ih found
    | true =>
      cases found with
      | none => exact ih (some k)
      | some first => exact (hI.record _).bind fun _ _ => hI.holds_noMatch _

/-- A concatenation tries its sides without a text and against the two ends of the text, if there is
one. -/
theorem holds_concat (hI : I.Lawful) {context : Option Text}
    (hl : I.Holds I.value (left none)) (hr : I.Holds I.value (right none))
    (htake : ∀ t ∈ context, ∀ k, I.Holds I.value (left (some (t.take k))))
    (hdrop : ∀ t ∈ context, ∀ k, I.Holds I.value (right (some (t.drop k)))) :
    I.Holds I.value (concat left right context) := by
  have hcontext := hI.holds_contextText context
  rw [concat_eq_join]
  refine hl.attempt.bind fun l hlv => hr.attempt.bind fun r hrv => ?_
  cases l with
  | ok l =>
    have hl' := hlv l rfl
    cases r with
    | ok r => exact hI.holds_join hl' (hrv r rfl)
    | error f =>
      refine hcontext.bind fun t ht => ?_
      split
      · exact (hdrop t ht _).bind fun r hr' => hI.holds_join hl' hr'
      · exact hI.holds_noMatch _
  | error f =>
    cases r with
    | ok r =>
      have hr' := hrv r rfl
      refine hcontext.bind fun t ht => ?_
      split
      · exact (htake t ht _).bind fun l hl' => hI.holds_join hl' hr'
      · exact hI.holds_noMatch _
    | error f' =>
      refine hcontext.bind fun t ht => ?_
      refine (holds_findSplit hI (htake t ht) (hdrop t ht) none _).bind fun k _ => ?_
      refine (htake t ht k).bind fun l hl' => ?_
      exact (hdrop t ht k).bind fun r hr' => hI.holds_join hl' hr'

end Matcher

/-! ## Expressions -/

open Eval in
/-- An expression keeps an invariant that its literals, its assignments and the text to match
allow. -/
theorem Expr.holds_eval {α : Type} {I : Invariant α} (clock : Clock) (hI : I.Lawful)
    (e : Expr α) (hliterals : ∀ t ∈ e.literals, I.text t)
    (hassign : ∀ x ∈ e.targets, ∀ v, I.value v → I.Holds (fun _ => True) (Eval.assign x v))
    {context : Option Text} (hcontext : ∀ t ∈ context, I.text t) :
    I.Holds I.value (e.eval clock context) := by
  induction e generalizing context with
  | integer a n => exact Invariant.holds_pure (hI.ofInt n)
  | string a t => exact hI.ofText (hliterals t List.mem_cons_self)
  | name a x =>
    unfold eval
    split
    · exact hI.now clock
    · exact hI.lookup a x
  | dot a =>
    cases context with
    | none => exact hI.holds_noMatch _
    | some t => exact hI.ofText (hcontext t rfl)
  | binary a op l r ihl ihr =>
    simp only [literals, targets, List.forall_mem_append] at hliterals hassign
    refine (ihl hliterals.1 hassign.1 hcontext).bind fun m _ => ?_
    refine (ihr hliterals.2 hassign.2 hcontext).bind fun n _ => ?_
    split
    · next v hv => exact Invariant.holds_pure (hI.value_of_apply? hv)
    · exact Invariant.holds_throw (hI.divisionByZero a)
  | and a l r ihl ihr =>
    simp only [literals, targets, List.forall_mem_append] at hliterals hassign
    refine (ihl hliterals.1 hassign.1 hcontext).bind fun m _ => ?_
    split
    · refine (ihr hliterals.2 hassign.2 hcontext).bind fun n _ => ?_
      exact Invariant.holds_pure (hI.bool _)
    · exact Invariant.holds_pure (hI.bool _)
  | or a l r ihl ihr =>
    simp only [literals, targets, List.forall_mem_append] at hliterals hassign
    refine (ihl hliterals.1 hassign.1 hcontext).bind fun m _ => ?_
    split
    · exact Invariant.holds_pure (hI.bool _)
    · refine (ihr hliterals.2 hassign.2 hcontext).bind fun n _ => ?_
      exact Invariant.holds_pure (hI.bool _)
  | not a e ih =>
    exact (ih hliterals hassign hcontext).bind fun v _ => Invariant.holds_pure (hI.bool _)
  | concat a l r ihl ihr =>
    simp only [literals, targets, List.forall_mem_append] at hliterals hassign
    have hl := @ihl hliterals.1 hassign.1
    have hr := @ihr hliterals.2 hassign.2
    have hnone : ∀ t ∈ (none : Option Text), I.text t := fun _ h => by cases h
    refine Matcher.holds_concat hI (hl hnone) (hr hnone) (fun t ht k => hl ?_) fun t ht k => hr ?_
    · rintro _ ⟨⟩
      exact (hI.cut k (hcontext t ht)).1
    · rintro _ ⟨⟩
      exact (hI.cut k (hcontext t ht)).2
  | assign a b x e ih =>
    simp only [targets, List.forall_mem_cons] at hassign
    refine (ih hliterals hassign.2 hcontext).bind fun v hv => ?_
    exact (hassign.1 v hv).bind fun _ _ => Invariant.holds_pure hv

end WireScript
