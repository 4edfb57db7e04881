import WireScript.Run.Eval

/-!
# Outcomes of evaluation

How the outcome of a computation on the memory of a run follows from the outcomes of its parts, and
what such a computation does to the memory whatever its outcome is.

There are three groups.

* Outcomes.  `bind_of_ok`, `attempt_of_ok` and their companions compute the outcome of a compound
  from the outcomes of its parts; the `iff` lemmas take an outcome apart again.
* Concatenations.  `Matcher.join` is what a concatenation does once both sides were tried without a
  text, and `Matcher.concat_of_attempts` reduces the concatenation to it.
* Memory.  `after` is the memory that a computation leaves, and `Keeps R` says that the memory
  before and the memory after are always related by `R`.
-/

namespace WireScript

/-! ## Outcomes -/

section Bind

variable {ε σ β γ : Type} {x : EStateM ε σ β} {f : β → EStateM ε σ γ} {s s' : σ}

theorem bind_of_ok {v : β} (h : x s = .ok v s') : (x >>= f) s = f v s' := by
  simp only [bind, EStateM.bind, h]

theorem bind_of_error {e : ε} (h : x s = .error e s') : (x >>= f) s = .error e s' := by
  simp only [bind, EStateM.bind, h]

theorem bind_eq_ok_iff {w : γ} :
    (x >>= f) s = .ok w s' ↔ ∃ v s₁, x s = .ok v s₁ ∧ f v s₁ = .ok w s' := by
  cases hx : x s with
  | ok v s₁ =>
    rw [bind_of_ok hx]
    constructor
    · intro h
      exact ⟨v, s₁, rfl, h⟩
    · rintro ⟨v', s', hv, h⟩
      cases hv
      exact h
  | error e s₁ =>
    rw [bind_of_error hx]
    constructor
    · intro h
      cases h
    · rintro ⟨v', s', hv, h⟩
      cases hv

theorem bind_eq_error_iff {e : ε} :
    (x >>= f) s = .error e s' ↔
      x s = .error e s' ∨ ∃ v s₁, x s = .ok v s₁ ∧ f v s₁ = .error e s' := by
  cases hx : x s with
  | ok v s₁ =>
    rw [bind_of_ok hx]
    constructor
    · intro h
      exact Or.inr ⟨v, s₁, rfl, h⟩
    · rintro (h | ⟨v', s', hv, h⟩)
      · cases h
      · cases hv
        exact h
  | error e₁ s₁ =>
    rw [bind_of_error hx]
    constructor
    · intro h
      cases h
      exact Or.inl rfl
    · rintro (h | ⟨v', s', hv, h⟩)
      · cases h
        rfl
      · cases hv

end Bind

end WireScript

namespace WireScript.Eval

variable {α β γ : Type}

theorem attempt_of_ok {x : Eval α β} {m m' : Memory} {v : β} (h : x m = .ok v m') :
    x.attempt m = .ok (.ok v) m' := by
  simp only [attempt, h]

theorem attempt_of_noMatch {x : Eval α β} {m m' : Memory} {f : MatchFailure}
    (h : x m = .error (.noMatch f) m') : x.attempt m = .ok (.error f) m' := by
  simp only [attempt, h]

theorem attempt_eq_ok_iff {x : Eval α β} {m m' : Memory} {r : Except MatchFailure β} :
    x.attempt m = .ok r m' ↔
      (∃ v, r = .ok v ∧ x m = .ok v m') ∨ ∃ f, r = .error f ∧ x m = .error (.noMatch f) m' := by
  cases hx : x m with
  | ok v m₁ =>
    rw [attempt_of_ok hx]
    constructor
    · intro h
      cases h
      exact Or.inl ⟨v, rfl, rfl⟩
    · rintro (⟨v', rfl, hv⟩ | ⟨f, rfl, hf⟩)
      · cases hv
        rfl
      · cases hf
  | error e m₁ =>
    cases e with
    | noMatch f =>
      rw [attempt_of_noMatch hx]
      constructor
      · intro h
        cases h
        exact Or.inr ⟨f, rfl, rfl⟩
      · rintro (⟨v', rfl, hv⟩ | ⟨f', rfl, hf⟩)
        · cases hv
        · cases hf
          rfl
    | halt h =>
      simp only [attempt, hx]
      constructor
      · intro h
        cases h
      · rintro (⟨v', rfl, hv⟩ | ⟨f', rfl, hf⟩)
        · cases hv
        · cases hf

theorem attempt_eq_ok {x : Eval α β} {m m' : Memory} {v : β} (h : x.attempt m = .ok (.ok v) m') :
    x m = .ok v m' := by
  rcases attempt_eq_ok_iff.1 h with ⟨v', hv, hx⟩ | ⟨e, he, _⟩
  · cases hv
    exact hx
  · cases he

/-- Computations that come to the same outcome come to the same outcome when they are tried. -/
theorem attempt_congr {x y : Eval α β} {m m' : Memory} (h : x m = y m') :
    x.attempt m = y.attempt m' := by
  simp only [attempt, h]

/-- Where a part of a computation has a value, trying the computation is trying the rest of it. -/
theorem attempt_bind_of_ok {x : Eval α β} {f : β → Eval α γ} {m m' : Memory} {v : β}
    (h : x.attempt m = .ok (.ok v) m') : (x >>= f : Eval α γ).attempt m = (f v).attempt m' := by
  simp only [attempt, bind_of_ok (attempt_eq_ok h)]

/-- Where it has none, the computation has none. -/
theorem attempt_bind_of_error {x : Eval α β} {f : β → Eval α γ} {m m' : Memory}
    {e : MatchFailure} (h : x.attempt m = .ok (.error e) m') :
    (x >>= f : Eval α γ).attempt m = .ok (.error e) m' := by
  rcases attempt_eq_ok_iff.1 h with ⟨v, hv, _⟩ | ⟨e', he, hx⟩
  · cases hv
  · cases he
    exact attempt_of_noMatch (bind_of_error hx)

/-- An attempt never stops for want of a value. -/
@[simp] theorem attempt_ne_noMatch (x : Eval α β) (m m' : Memory) (f : MatchFailure) :
    (x.attempt m = .error (.noMatch f) m') = False := by
  unfold attempt
  split <;> simp

theorem contextText_some (t : Text) (m : Memory) :
    (contextText (some t) : Eval α Text) m = .ok t m :=
  rfl

theorem text_ne_noMatch (t : Text) (m m' : Memory) (f : MatchFailure) :
    (Eval.text t : Eval α Value) m ≠ .error (.noMatch f) m' := by
  intro h
  cases hc : Value.ofText? t with
  | some v =>
    simp only [Eval.text, hc] at h
    cases h
  | none =>
    simp only [Eval.text, hc] at h
    cases h

theorem lookup_ne_noMatch (note : α) (x : Text) (m m' : Memory) (f : MatchFailure) :
    lookup note x m ≠ .error (.noMatch f) m' := by
  intro h
  rcases bind_eq_error_iff.1 h with h | ⟨m₁, m₂, _, h⟩
  · cases h
  · cases hv : m₁.bindings.get? x with
    | some v =>
      simp only [hv] at h
      cases h
    | none =>
      simp only [hv] at h
      cases h

theorem lookup_of_get? {x : Text} {v : Value} {m : Memory} (h : m.bindings.get? x = some v)
    (note : α) : lookup note x m = .ok v m := by
  unfold lookup
  rw [bind_of_ok (show (get : Eval α Memory) m = .ok m m from rfl)]
  simp only [h]
  rfl

theorem lookup_of_get?_none {x : Text} {m : Memory} (h : m.bindings.get? x = none) (note : α) :
    lookup note x m = .error (.halt (.failed (.unbound x) note)) m := by
  unfold lookup
  rw [bind_of_ok (show (get : Eval α Memory) m = .ok m m from rfl)]
  simp only [h]
  rfl

theorem text_of_canonical {t u : Text} (h : t.canonical = some u) (m : Memory) :
    (Eval.text t : Eval α Value) m = .ok (.text u) m := by
  simp [Eval.text, Value.ofText?, h, pure, EStateM.pure]

theorem text_of_not_canonical {t : Text} (h : t.canonical = none) (m : Memory) :
    (Eval.text t : Eval α Value) m = .error (.halt .unencodable) m := by
  have hnone : Value.ofText? t = none := congrArg (Option.map Value.text) h
  rw [Eval.text, hnone]
  rfl

theorem text_eq_ok_iff {t : Text} {v : Value} {m m' : Memory} :
    (Eval.text t : Eval α Value) m = .ok v m' ↔
      ∃ u, t.canonical = some u ∧ v = .text u ∧ m' = m := by
  cases h : t.canonical with
  | some u =>
    rw [text_of_canonical h]
    constructor
    · intro hv
      cases hv
      exact ⟨u, rfl, rfl, rfl⟩
    · rintro ⟨u', hu, rfl, rfl⟩
      cases hu
      rfl
  | none =>
    rw [text_of_not_canonical h]
    simp

end WireScript.Eval

namespace WireScript.Matcher

variable {α : Type} {left right : Matcher α}

/-! ## Concatenations -/

/-- What a concatenation does when it is known which of its sides have a value without a text. -/
def join (left right : Matcher α) (context : Option Text) :
    Except MatchFailure Value → Except MatchFailure Value → Eval α Value
  | .ok l, .ok r => .text (l.toText ++ r.toText)
  | .ok l, .error _ => do
    let t ← Eval.contextText context
    if l.toText.isPrefixOf t then
      let r ← right (some (t.drop l.toText.length))
      .text (l.toText ++ r.toText)
    else .noMatch (.notAtStart t l.toText)
  | .error _, .ok r => do
    let t ← Eval.contextText context
    if r.toText.isSuffixOf t then
      let l ← left (some (t.take (t.length - r.toText.length)))
      .text (l.toText ++ r.toText)
    else .noMatch (.notAtEnd t r.toText)
  | .error _, .error _ => do
    let t ← Eval.contextText context
    let k ← findSplit left right t none (List.range (t.length + 1))
    let l ← left (some (t.take k))
    let r ← right (some (t.drop k))
    .text (l.toText ++ r.toText)

theorem concat_eq_join (context : Option Text) :
    concat left right context =
      (left none).attempt >>= fun l => (right none).attempt >>= join left right context l := by
  unfold concat
  congr 1

theorem concat_of_attempts {context : Option Text} {l r : Except MatchFailure Value}
    {m m₁ m₂ : Memory} (hl : (left none).attempt m = .ok l m₁)
    (hr : (right none).attempt m₁ = .ok r m₂) :
    concat left right context m = join left right context l r m₂ := by
  rw [concat_eq_join, bind_of_ok hl, bind_of_ok hr]

/-- When trying the right side ends the run, so does the concatenation. -/
theorem concat_of_halt {context : Option Text} {l : Except MatchFailure Value} {e : Halt α}
    {m m₁ m₂ : Memory} (hl : (left none).attempt m = .ok l m₁)
    (hr : right none m₁ = .error (.halt e) m₂) :
    concat left right context m = .error (.halt e) m₂ := by
  have hattempt : (right none).attempt m₁ = .error (.halt e) m₂ := by
    simp only [Eval.attempt, hr]
  rw [concat_eq_join, bind_of_ok hl]
  exact bind_of_error hattempt

/-- A concatenation that has a value has tried both sides without a text. -/
theorem concat_eq_ok_iff {context : Option Text} {v : Value} {m m' : Memory} :
    concat left right context m = .ok v m' ↔
      ∃ l m₁, (left none).attempt m = .ok l m₁ ∧ ∃ r m₂, (right none).attempt m₁ = .ok r m₂ ∧
        join left right context l r m₂ = .ok v m' := by
  rw [concat_eq_join]
  simp only [bind_eq_ok_iff]

/-- So has one that has no value. -/
theorem concat_eq_noMatch_iff {context : Option Text} {f : MatchFailure} {m m' : Memory} :
    concat left right context m = .error (.noMatch f) m' ↔
      ∃ l m₁, (left none).attempt m = .ok l m₁ ∧ ∃ r m₂, (right none).attempt m₁ = .ok r m₂ ∧
        join left right context l r m₂ = .error (.noMatch f) m' := by
  rw [concat_eq_join]
  simp only [bind_eq_error_iff, Eval.attempt_ne_noMatch, false_or]

end WireScript.Matcher

namespace WireScript.Eval

variable {α β γ : Type}

/-! ## Memory -/

/-- The memory that a computation leaves, however it ends. -/
def after (x : Eval α β) (m : Memory) : Memory :=
  match x m with
  | .ok _ m' => m'
  | .error _ m' => m'

theorem after_of_ok {x : Eval α β} {m m' : Memory} {v : β} (h : x m = .ok v m') :
    x.after m = m' := by
  simp only [after, h]

theorem after_of_error {x : Eval α β} {m m' : Memory} {e : Stop α} (h : x m = .error e m') :
    x.after m = m' := by
  simp only [after, h]

/-- A computation has a value. -/
def Succeeds (x : Eval α β) (m : Memory) : Prop :=
  ∃ v m', x m = .ok v m'

theorem not_succeeds_of_error {x : Eval α β} {m m' : Memory} {e : Stop α}
    (h : x m = .error e m') : ¬ Succeeds x m := by
  rintro ⟨v, m₁, hv⟩
  rw [h] at hv
  cases hv

theorem Succeeds.of_bind {x : Eval α β} {f : β → Eval α γ} {m : Memory}
    (h : Succeeds (x >>= f) m) : ∃ v m', x m = .ok v m' ∧ Succeeds (f v) m' := by
  obtain ⟨w, m₂, hw⟩ := h
  obtain ⟨v, m₁, hv, hf⟩ := bind_eq_ok_iff.1 hw
  exact ⟨v, m₁, hv, w, m₂, hf⟩

theorem after_bind_of_ok {x : Eval α β} {f : β → Eval α γ} {m m' : Memory} {v : β}
    (h : x m = .ok v m') : (x >>= f).after m = (f v).after m' := by
  simp only [after, bind_of_ok h]

/-- Making a text of the value is no change of memory. -/
theorem after_bind_text (x : Eval α β) (g : β → Text) (m : Memory) :
    (x >>= fun v => Eval.text (g v) : Eval α Value).after m = x.after m := by
  cases h : x m with
  | ok v m' =>
    rw [after_bind_of_ok h, after_of_ok h]
    unfold Eval.text
    cases Value.ofText? (g v) with
    | some w => rfl
    | none => rfl
  | error e m' => rw [after_of_error (bind_of_error h), after_of_error h]

/-- The memory before a computation and the memory after it are always related. -/
def Keeps (R : Memory → Memory → Prop) (x : Eval α β) : Prop :=
  ∀ m, R m (x.after m)

/-- A relation between earlier and later memories that lasts from step to step. -/
structure Lasts (R : Memory → Memory → Prop) : Prop where
  refl : ∀ m, R m m
  trans : ∀ {m₁ m₂ m₃}, R m₁ m₂ → R m₂ m₃ → R m₁ m₃

section Keeps

variable {R : Memory → Memory → Prop}

theorem Keeps.of_ok {x : Eval α β} (hx : Keeps R x) {m m' : Memory} {v : β}
    (h : x m = .ok v m') : R m m' :=
  after_of_ok h ▸ hx m

theorem Keeps.of_error {x : Eval α β} (hx : Keeps R x) {m m' : Memory} {e : Stop α}
    (h : x m = .error e m') : R m m' :=
  after_of_error h ▸ hx m

theorem Keeps.of_attempt {x : Eval α β} (hx : Keeps R x) {m m' : Memory}
    {r : Except MatchFailure β} (h : x.attempt m = .ok r m') : R m m' := by
  rcases attempt_eq_ok_iff.1 h with ⟨v, _, hv⟩ | ⟨f, _, hf⟩
  · exact hx.of_ok hv
  · exact hx.of_error hf

theorem after_attempt (x : Eval α β) (m : Memory) : x.attempt.after m = x.after m := by
  unfold after attempt
  cases x m with
  | ok v m' => rfl
  | error e m' =>
    cases e with
    | noMatch f => rfl
    | halt e => rfl

theorem Keeps.attempt {x : Eval α β} (hx : Keeps R x) : Keeps R x.attempt := by
  intro m
  rw [after_attempt]
  exact hx m

theorem keeps_text (hR : Lasts R) (t : Text) : Keeps R (Eval.text t : Eval α Value) := by
  unfold Eval.text
  split
  · exact hR.refl
  · exact hR.refl

theorem keeps_lookup (hR : Lasts R) (note : α) (x : Text) : Keeps R (lookup note x) := by
  intro m
  cases hv : m.bindings.get? x with
  | some v =>
    rw [after_of_ok (lookup_of_get? hv note)]
    exact hR.refl m
  | none =>
    rw [after_of_error (lookup_of_get?_none hv note)]
    exact hR.refl m

end Keeps

end WireScript.Eval
