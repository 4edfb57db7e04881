import WireScript.Proofs.Template.Early

/-!
# Templates that read late

If a template reads a captured name after its first dot, then with suitable segments there is a line
that it spells in one way only and that a receive does not accept.  The line leaves every dot empty.
Take the last such name, put a mark on either side of it, and let it have a value that stands
nowhere else.  Then the parts from the first mark on, the *gate*, fit at one place of the line and
only as long as the name has that value.  The first trial that passes the gate captures the name and
so takes the value away, and the evaluation that would confirm the trial fails.

* `Tracked` and `Spent` are what is known about memory on the way: the name has its value or an
  empty one, and in the end an empty one.
* `Gated` says that whatever has a value spends the name, and that nothing has one when it is spent.
  `Takes.gated` is the case of the gate.
* `Gated.cons` puts a part without dots in front, and `Gated.dot` a dot.  With a dot in front there
  is no value at all, which is what `Closed` says.
-/

namespace WireScript.Template

open Eval Memory WireScript.Expr

variable {clock : Clock} {b : Bindings} {t line : Text} {ts names rest : List Text}
  {m m' : Memory} {x : Text} {stop : Location} {parts : List (Expr Span)} {q : Expr Span}

/-! ## A part in front of a template -/

/-- The match of a template against a text. -/
abbrev trial (clock : Clock) (stop : Location) (parts : List (Expr Span)) (t : Text) :
    Eval Span Value :=
  (pattern stop parts).eval clock (some t)

/-- Looking for a value of a template without a text binds nothing. -/
theorem keeps_eval_none (hparts : ∀ q ∈ parts, IsPart q) :
    Keeps (SameOff []) ((pattern stop parts).eval clock none) := by
  induction parts with
  | nil => exact keeps_text (lasts_sameOff []) _
  | cons q parts ih =>
    obtain ⟨hq, hrest⟩ := List.forall_mem_cons.1 hparts
    refine Matcher.sameOff_concat_none ?_ (ih hrest)
    by_cases hdots : q.dots = 0
    · have hkeeps : Keeps (SameOff q.targets) (q.eval clock none) := sameOff_eval q none
      rwa [hq.targets_eq_nil hdots] at hkeeps
    · intro m
      rw [after_of_error (eval_none_of_dots_ne_zero hq hdots m)]
      exact (lasts_sameOff []).refl m

/-- A template with a dot has no value without a text, whatever its names are bound to. -/
theorem exists_error_eval_none (hparts : ∀ q ∈ parts, IsPart q)
    (hdots : (pattern stop parts).dots ≠ 0) (m : Memory) :
    ∃ e m', (pattern stop parts).eval clock none m = .error e m' ∧ SameOff [] m m' := by
  have hoff : SameOff [] m (((pattern stop parts).eval clock none).after m) :=
    keeps_eval_none hparts m
  cases hr : (pattern stop parts).eval clock none m with
  | ok w m' => exact absurd hr (eval_none_ne_ok (isPattern_pattern hparts) hdots m m' w)
  | error e m' =>
    rw [after_of_error hr] at hoff
    exact ⟨e, m', rfl, hoff⟩

theorem fails_of_error {y : Eval Span Value} {e : Stop Span} (h : y m = .error e m')
    (hoff : SameOff names m m') : SameOff names m (y.after m) ∧ ¬ Succeeds y m := by
  rw [after_of_error h]
  exact ⟨hoff, not_succeeds_of_error h⟩

/-- A template that has to be matched, with a part in front that has a value: the match either fails
at once or goes on with what the text has after that value. -/
theorem front_cases (hparts : ∀ q ∈ parts, IsPart q) (hdots : (pattern stop parts).dots ≠ 0)
    {v : Value} (hq : q.eval clock none m = .ok v m) (t : Text) :
    (SameOff [] m ((trial clock stop (q :: parts) t).after m) ∧
        ¬ Succeeds (trial clock stop (q :: parts) t) m) ∨
      ∃ u m', t = v.toText ++ u ∧ SameOff [] m m' ∧
        (trial clock stop (q :: parts) t).after m = (trial clock stop parts u).after m' ∧
        (Succeeds (trial clock stop (q :: parts) t) m →
          Succeeds (trial clock stop parts u) m') := by
  obtain ⟨e, m', hr, hoff⟩ := @exists_error_eval_none clock stop parts hparts hdots m
  cases e with
  | halt e =>
    have hhalt : trial clock stop (q :: parts) t m = .error (.halt e) m' :=
      Matcher.concat_of_halt (attempt_of_ok hq) hr
    exact Or.inl (fails_of_error hhalt hoff)
  | noMatch f =>
    have hjoin : trial clock stop (q :: parts) t m = Matcher.join (q.eval clock)
        ((pattern stop parts).eval clock) (some t) (.ok v) (.error f) m' :=
      Matcher.concat_of_attempts (attempt_of_ok hq) (attempt_of_noMatch hr)
    rw [Matcher.join, bind_of_ok (contextText_some _ _)] at hjoin
    by_cases hpre : v.toText.isPrefixOf t
    · obtain ⟨u, rfl⟩ := List.isPrefixOf_iff_prefix.1 hpre
      rw [if_pos hpre, List.drop_left] at hjoin
      refine Or.inr ⟨u, m', rfl, hoff, ?_, ?_⟩
      · rw [← after_bind_text (trial clock stop parts u) (fun w => v.toText ++ w.toText) m']
        simp only [after, hjoin]
      · rintro ⟨w, m₂, hw⟩
        rw [hjoin] at hw
        obtain ⟨w', m₃, hw', _⟩ := Succeeds.of_bind ⟨w, m₂, hw⟩
        exact ⟨w', m₃, hw'⟩
    · rw [if_neg hpre] at hjoin
      have hfail : trial clock stop (q :: parts) t m =
          .error (.noMatch (.notAtStart t v.toText)) m' := hjoin
      exact Or.inl (fails_of_error hfail hoff)

theorem eval_none_of_dots_eq_zero {q : Expr Span} (hq : IsPart q) (hdots : q.dots = 0)
    (m : Memory) :
    (∃ v, q.eval clock none m = .ok v m) ∨ ∃ e, q.eval clock none m = .error (.halt e) m := by
  cases hq with
  | segment a s =>
    cases hs : s.canonical with
    | some u => exact Or.inl ⟨.text u, text_of_canonical hs m⟩
    | none => exact Or.inr ⟨.unencodable, text_of_not_canonical hs m⟩
  | name a hx =>
    rw [eval, if_neg hx]
    rename_i y
    cases hy : m.bindings.get? y with
    | some v => exact Or.inl ⟨v, lookup_of_get? hy a⟩
    | none =>
      refine Or.inr ⟨.failed (.unbound y) a, ?_⟩
      unfold lookup
      rw [bind_of_ok (show (get : Eval Span Memory) m = .ok m m from rfl)]
      simp only [hy]
      rfl
  | dot => cases hdots
  | capture => cases hdots

/-- A template with a part without dots in front: the match either fails at once, with all names
left alone, or goes on behind that part. -/
theorem cons_cases (hq : IsPart q) (hq0 : q.dots = 0) (hparts : ∀ q ∈ parts, IsPart q)
    (hdots : (pattern stop parts).dots ≠ 0) (t : Text) (m : Memory) :
    (SameOff [] m ((trial clock stop (q :: parts) t).after m) ∧
        ¬ Succeeds (trial clock stop (q :: parts) t) m) ∨
      ∃ u m', u <:+ t ∧ SameOff [] m m' ∧
        (trial clock stop (q :: parts) t).after m = (trial clock stop parts u).after m' ∧
        (Succeeds (trial clock stop (q :: parts) t) m →
          Succeeds (trial clock stop parts u) m') := by
  rcases @eval_none_of_dots_eq_zero clock q hq hq0 m with ⟨v, hv⟩ | ⟨e, he⟩
  · rcases front_cases hparts hdots hv t with h | ⟨u, m', rfl, h⟩
    · exact Or.inl h
    · exact Or.inr ⟨u, m', List.suffix_append _ _, h⟩
  · have hattempt : (q.eval clock none).attempt m = .error (.halt e) m := by
      simp only [attempt, he]
    have hhalt : trial clock stop (q :: parts) t m = .error (.halt e) m := by
      show Matcher.concat (q.eval clock) ((pattern stop parts).eval clock) (some t) m = _
      rw [Matcher.concat_eq_join]
      exact bind_of_error hattempt
    exact Or.inl (fails_of_error hhalt ((lasts_sameOff []).refl m))

/-! ## A name that is spent -/

/-- The value that the name has at first. -/
def held : Text := [.scalar 'c']

/-- The names of a list are as they were, and the name has its value or an empty one. -/
def Tracked (b : Bindings) (rest : List Text) (x : Text) (m : Memory) : Prop :=
  Agrees b rest m ∧
    (m.bindings.get? x = some (.text held) ∨ m.bindings.get? x = some (.text []))

/-- The names of a list are as they were, and the name has an empty value. -/
def Spent (b : Bindings) (rest : List Text) (x : Text) (m : Memory) : Prop :=
  Agrees b rest m ∧ m.bindings.get? x = some (.text [])

theorem Spent.tracked (h : Spent b rest x m) : Tracked b rest x m :=
  ⟨h.1, Or.inr h.2⟩

theorem Tracked.of_sameOff (h : Tracked b rest x m) (hoff : SameOff names m m')
    (hx : x ∉ names) (hrest : ∀ y ∈ rest, y ∉ names) : Tracked b rest x m' := by
  refine ⟨h.1.of_sameOff hoff hrest, ?_⟩
  rw [hoff x hx]
  exact h.2

theorem Spent.of_sameOff (h : Spent b rest x m) (hoff : SameOff names m m')
    (hx : x ∉ names) (hrest : ∀ y ∈ rest, y ∉ names) : Spent b rest x m' :=
  ⟨h.1.of_sameOff hoff hrest, (hoff x hx).trans h.2⟩

theorem Tracked.of_sameOff_nil (h : Tracked b rest x m) (hoff : SameOff [] m m') :
    Tracked b rest x m' :=
  h.of_sameOff hoff List.not_mem_nil fun _ _ => List.not_mem_nil

theorem Spent.of_sameOff_nil (h : Spent b rest x m) (hoff : SameOff [] m m') :
    Spent b rest x m' :=
  h.of_sameOff hoff List.not_mem_nil fun _ _ => List.not_mem_nil

/-- On the rests of a line, a template has a value only while the name has its own, and spends
it. -/
structure Gated (clock : Clock) (stop : Location) (b : Bindings) (rest : List Text) (x line : Text)
    (parts : List (Expr Span)) : Prop where
  tracked : ∀ t m, t <:+ line → Tracked b rest x m →
    Tracked b rest x ((trial clock stop parts t).after m)
  spends : ∀ t m, t <:+ line → Tracked b rest x m → Succeeds (trial clock stop parts t) m →
    Spent b rest x ((trial clock stop parts t).after m)
  spent : ∀ t m, t <:+ line → Spent b rest x m →
    Spent b rest x ((trial clock stop parts t).after m) ∧
      ¬ Succeeds (trial clock stop parts t) m

/-- On the rests of a line, a template has no value, whether the name is spent or not. -/
def Closed (clock : Clock) (stop : Location) (b : Bindings) (rest : List Text) (x line : Text)
    (parts : List (Expr Span)) : Prop :=
  ∀ t m, t <:+ line → Tracked b rest x m → ¬ Succeeds (trial clock stop parts t) m

/-! ### A part without dots in front -/

theorem Gated.cons (h : Gated clock stop b rest x line parts) (hq : IsPart q) (hq0 : q.dots = 0)
    (hparts : ∀ q ∈ parts, IsPart q) (hdots : (pattern stop parts).dots ≠ 0) :
    Gated clock stop b rest x line (q :: parts) where
  tracked t m ht hm := by
    rcases cons_cases hq hq0 hparts hdots t m with ⟨hoff, _⟩ | ⟨u, m', hu, hoff, heq, _⟩
    · exact hm.of_sameOff_nil hoff
    · rw [heq]
      exact h.tracked u m' (hu.trans ht) (hm.of_sameOff_nil hoff)
  spends t m ht hm hvalue := by
    rcases cons_cases hq hq0 hparts hdots t m with ⟨_, hno⟩ | ⟨u, m', hu, hoff, heq, hyes⟩
    · exact absurd hvalue hno
    · rw [heq]
      exact h.spends u m' (hu.trans ht) (hm.of_sameOff_nil hoff) (hyes hvalue)
  spent t m ht hm := by
    rcases cons_cases hq hq0 hparts hdots t m with ⟨hoff, hno⟩ | ⟨u, m', hu, hoff, heq, hyes⟩
    · exact ⟨hm.of_sameOff_nil hoff, hno⟩
    · obtain ⟨hspent, hno⟩ := h.spent u m' (hu.trans ht) (hm.of_sameOff_nil hoff)
      rw [heq]
      exact ⟨hspent, fun hvalue => hno (hyes hvalue)⟩

theorem Closed.cons (h : Closed clock stop b rest x line parts) (hq : IsPart q) (hq0 : q.dots = 0)
    (hparts : ∀ q ∈ parts, IsPart q) (hdots : (pattern stop parts).dots ≠ 0) :
    Closed clock stop b rest x line (q :: parts) := by
  intro t m ht hm
  rcases cons_cases hq hq0 hparts hdots t m with ⟨_, hno⟩ | ⟨u, m', hu, hoff, _, hyes⟩
  · exact hno
  · exact fun hvalue => h u m' (hu.trans ht) (hm.of_sameOff_nil hoff) (hyes hvalue)

/-! ### A dot in front -/

section Search

variable {left right : Matcher Span} {T S : Memory → Prop}

/-- When no cut fits any more, the search finds none. -/
theorem findSplit_of_spent
    (hspent : ∀ k m, S m → S ((Matcher.fits left right t k).after m) ∧
      ∀ m', Matcher.fits left right t k m ≠ .ok true m')
    (found : Option Nat) (cuts : List Nat) (hm : S m) :
    S ((Matcher.findSplit left right t found cuts).after m) ∧
      (found = none → ¬ Succeeds (Matcher.findSplit left right t found cuts) m) := by
  induction cuts generalizing m with
  | nil =>
    cases found with
    | some k => exact ⟨hm, fun h => by cases h⟩
    | none =>
      refine ⟨hm, fun _ => ?_⟩
      rintro ⟨k, m', h⟩
      cases h
  | cons k cuts ih =>
    obtain ⟨hafter, hnofit⟩ := hspent k m hm
    unfold Matcher.findSplit
    cases hfit : Matcher.fits left right t k m with
    | error e m₁ =>
      rw [after_of_error hfit] at hafter
      refine ⟨?_, fun _ => ?_⟩
      · rwa [after_of_error (bind_of_error hfit)]
      · rintro ⟨k', m', h⟩
        rw [bind_of_error hfit] at h
        cases h
    | ok fit m₁ =>
      rw [after_of_ok hfit] at hafter
      cases fit with
      | true => exact absurd hfit (hnofit m₁)
      | false =>
        obtain ⟨hlater, hnone⟩ := ih hafter
        refine ⟨?_, fun hfound => ?_⟩
        · rwa [after_bind_of_ok hfit]
        · rintro ⟨k', m', h⟩
          rw [bind_of_ok hfit] at h
          exact hnone hfound ⟨k', m', h⟩

/-- If a cut that fits spends the name, the search has a value only with the name spent. -/
theorem findSplit_of_tracked (hST : ∀ m, S m → T m)
    (htracked : ∀ k m, T m → T ((Matcher.fits left right t k).after m))
    (hspends : ∀ k m m', T m → Matcher.fits left right t k m = .ok true m' → S m')
    (hspent : ∀ k m, S m → S ((Matcher.fits left right t k).after m) ∧
      ∀ m', Matcher.fits left right t k m ≠ .ok true m')
    (cuts : List Nat) (hm : T m) :
    T ((Matcher.findSplit left right t none cuts).after m) ∧
      ∀ k m', Matcher.findSplit left right t none cuts m = .ok k m' → S m' := by
  induction cuts generalizing m with
  | nil =>
    refine ⟨hm, fun k m' h => ?_⟩
    cases h
  | cons k cuts ih =>
    have hafter := htracked k m hm
    unfold Matcher.findSplit
    cases hfit : Matcher.fits left right t k m with
    | error e m₁ =>
      rw [after_of_error hfit] at hafter
      refine ⟨?_, fun k' m' h => ?_⟩
      · rwa [after_of_error (bind_of_error hfit)]
      · rw [bind_of_error hfit] at h
        cases h
    | ok fit m₁ =>
      rw [after_of_ok hfit] at hafter
      cases fit with
      | true =>
        have hm₁ : S m₁ := hspends k m m₁ hm hfit
        obtain ⟨hlater, _⟩ := findSplit_of_spent hspent (some k) cuts hm₁
        refine ⟨?_, fun k' m' h => ?_⟩
        · rw [after_bind_of_ok hfit]
          exact hST _ hlater
        · rw [bind_of_ok hfit] at h
          have hok : Matcher.findSplit left right t (some k) cuts m₁ = .ok k' m' := h
          rwa [after_of_ok hok] at hlater
      | false =>
        obtain ⟨hlater, hfound⟩ := ih hafter
        refine ⟨?_, fun k' m' h => ?_⟩
        · rwa [after_bind_of_ok hfit]
        · rw [bind_of_ok hfit] at h
          exact hfound k' m' h

end Search

/-- Trying a cut either stops at the dot in front or goes on with the template behind it. -/
theorem fits_cases (clock : Clock) (stop : Location) (q : Expr Span) (parts : List (Expr Span))
    (t : Text) (k : Nat) (m : Memory) :
    ∃ m', SameOff q.targets m m' ∧
      (((Matcher.fits (q.eval clock) ((pattern stop parts).eval clock) t k).after m = m' ∧
          ∀ m'', Matcher.fits (q.eval clock) ((pattern stop parts).eval clock) t k m ≠
            .ok true m'') ∨
        ((Matcher.fits (q.eval clock) ((pattern stop parts).eval clock) t k).after m =
            (trial clock stop parts (t.drop k)).after m' ∧
          ∀ m'', Matcher.fits (q.eval clock) ((pattern stop parts).eval clock) t k m =
            .ok true m'' → Succeeds (trial clock stop parts (t.drop k)) m')) := by
  have hoff : SameOff q.targets m ((q.eval clock (some (t.take k))).attempt.after m) :=
    (sameOff_eval q (some (t.take k))).attempt m
  refine ⟨_, hoff, ?_⟩
  unfold Matcher.fits
  cases hq : (q.eval clock (some (t.take k))).attempt m with
  | error e m₁ =>
    rw [after_of_error hq, after_of_error (bind_of_error hq), bind_of_error hq]
    exact Or.inl ⟨rfl, fun m'' h => by cases h⟩
  | ok r m₁ =>
    rw [after_of_ok hq, after_bind_of_ok hq, bind_of_ok hq]
    cases r with
    | error f => exact Or.inl ⟨rfl, fun m'' h => by cases h⟩
    | ok v =>
      refine Or.inr ?_
      rw [← after_attempt (trial clock stop parts (t.drop k))]
      dsimp only
      cases hp : (trial clock stop parts (t.drop k)).attempt m₁ with
      | error e m₂ =>
        rw [after_of_error hp, after_of_error (bind_of_error hp), bind_of_error hp]
        exact ⟨rfl, fun m'' h => by cases h⟩
      | ok r m₂ =>
        rw [after_of_ok hp, after_bind_of_ok hp, bind_of_ok hp]
        cases r with
        | error f => exact ⟨rfl, fun m'' h => by cases h⟩
        | ok w => exact ⟨rfl, fun _ _ => ⟨w, m₂, attempt_eq_ok hp⟩⟩

/-- What the search for a cut does between a dot and a gated template: it finds one only by spending
the name, and none when the name is spent. -/
theorem Gated.findSplit (h : Gated clock stop b rest x line parts) (hx : x ∉ q.targets)
    (hrest : ∀ y ∈ rest, y ∉ q.targets) (ht : t <:+ line) (hm : Tracked b rest x m) :
    let search := Matcher.findSplit (q.eval clock) ((pattern stop parts).eval clock) t none
      (List.range (t.length + 1))
    Tracked b rest x (search.after m) ∧ (∀ k m', search m = .ok k m' → Spent b rest x m') ∧
      (Spent b rest x m → Spent b rest x (search.after m)) := by
  have hdrop (k : Nat) : t.drop k <:+ line := (List.drop_suffix k t).trans ht
  have htracked (k : Nat) (m : Memory) (hm : Tracked b rest x m) : Tracked b rest x
      ((Matcher.fits (q.eval clock) ((pattern stop parts).eval clock) t k).after m) := by
    obtain ⟨m', hoff, ⟨heq, _⟩ | ⟨heq, _⟩⟩ := fits_cases clock stop q parts t k m
    · rw [heq]
      exact hm.of_sameOff hoff hx hrest
    · rw [heq]
      exact h.tracked _ m' (hdrop k) (hm.of_sameOff hoff hx hrest)
  have hspends (k : Nat) (m m₁ : Memory) (hm : Tracked b rest x m)
      (hfit : Matcher.fits (q.eval clock) ((pattern stop parts).eval clock) t k m =
        .ok true m₁) : Spent b rest x m₁ := by
    obtain ⟨m', hoff, ⟨_, hno⟩ | ⟨heq, hyes⟩⟩ := fits_cases clock stop q parts t k m
    · exact absurd hfit (hno m₁)
    · rw [after_of_ok hfit] at heq
      rw [heq]
      exact h.spends _ m' (hdrop k) (hm.of_sameOff hoff hx hrest) (hyes m₁ hfit)
  have hspent (k : Nat) (m : Memory) (hm : Spent b rest x m) : Spent b rest x
      ((Matcher.fits (q.eval clock) ((pattern stop parts).eval clock) t k).after m) ∧
        ∀ m', Matcher.fits (q.eval clock) ((pattern stop parts).eval clock) t k m ≠
          .ok true m' := by
    obtain ⟨m', hoff, ⟨heq, hno⟩ | ⟨heq, hyes⟩⟩ := fits_cases clock stop q parts t k m
    · rw [heq]
      exact ⟨hm.of_sameOff hoff hx hrest, hno⟩
    · obtain ⟨hlater, hnone⟩ := h.spent _ m' (hdrop k) (hm.of_sameOff hoff hx hrest)
      rw [heq]
      exact ⟨hlater, fun m'' hfit => hnone (hyes m'' hfit)⟩
  obtain ⟨hafter, hfound⟩ := findSplit_of_tracked (fun _ hs => hs.tracked) htracked hspends hspent
    (List.range (t.length + 1)) hm
  exact ⟨hafter, hfound, fun hs => (findSplit_of_spent hspent none _ hs).1⟩

/-- When the name is spent, the evaluation that would confirm a cut fails. -/
theorem Gated.exists_error_of_spent (h : Gated clock stop b rest x line parts) (hx : x ∉ q.targets)
    (hrest : ∀ y ∈ rest, y ∉ q.targets) (ht : t <:+ line) (hs : Spent b rest x m) (k : Nat)
    (g : Value → Value → Eval Span Value) :
    ∃ e m', (q.eval clock (some (t.take k)) >>= fun l =>
        trial clock stop parts (t.drop k) >>= fun r => g l r) m = .error e m' ∧
      Spent b rest x m' := by
  have hs₁ : Spent b rest x ((q.eval clock (some (t.take k))).after m) :=
    hs.of_sameOff (sameOff_eval q (some (t.take k)) m) hx hrest
  cases hl : q.eval clock (some (t.take k)) m with
  | error e m₁ =>
    rw [after_of_error hl] at hs₁
    exact ⟨e, m₁, bind_of_error hl, hs₁⟩
  | ok l m₁ =>
    rw [after_of_ok hl] at hs₁
    obtain ⟨hs₂, hno⟩ := h.spent (t.drop k) m₁ ((List.drop_suffix k t).trans ht) hs₁
    cases hr : trial clock stop parts (t.drop k) m₁ with
    | ok r m₂ => exact absurd ⟨r, m₂, hr⟩ hno
    | error e m₂ =>
      rw [after_of_error hr] at hs₂
      exact ⟨e, m₂, (bind_of_ok hl).trans (bind_of_error hr), hs₂⟩

/-- A match with a dot in front of a gated template fails. -/
theorem Gated.exists_error (h : Gated clock stop b rest x line parts) (hq : IsPart q)
    (hq0 : q.dots ≠ 0) (hparts : ∀ q ∈ parts, IsPart q) (hdots : (pattern stop parts).dots ≠ 0)
    (hx : x ∉ q.targets) (hrest : ∀ y ∈ rest, y ∉ q.targets) (ht : t <:+ line)
    (hm : Tracked b rest x m) :
    ∃ e m', trial clock stop (q :: parts) t m = .error e m' ∧ Tracked b rest x m' ∧
      (Spent b rest x m → Spent b rest x m') := by
  have hq' : (q.eval clock none).attempt m = .ok (.error .noContext) m :=
    attempt_of_noMatch (eval_none_of_dots_ne_zero hq hq0 m)
  obtain ⟨e, m₁, hr, hoff⟩ := @exists_error_eval_none clock stop parts hparts hdots m
  have hm₁ : Tracked b rest x m₁ := hm.of_sameOff_nil hoff
  cases e with
  | halt e =>
    exact ⟨.halt e, m₁, Matcher.concat_of_halt hq' hr, hm₁, fun hs => hs.of_sameOff_nil hoff⟩
  | noMatch f =>
    have hjoin : trial clock stop (q :: parts) t m = Matcher.join (q.eval clock)
        ((pattern stop parts).eval clock) (some t) (.error .noContext) (.error f) m₁ :=
      Matcher.concat_of_attempts hq' (attempt_of_noMatch hr)
    rw [Matcher.join, bind_of_ok (contextText_some _ _)] at hjoin
    obtain ⟨hafter, hfound, hspent⟩ := h.findSplit (q := q) hx hrest ht hm₁
    cases hsearch : Matcher.findSplit (q.eval clock) ((pattern stop parts).eval clock) t none
        (List.range (t.length + 1)) m₁ with
    | error e m₂ =>
      rw [after_of_error hsearch] at hafter hspent
      exact ⟨e, m₂, hjoin.trans (bind_of_error hsearch), hafter,
        fun hs => hspent (hs.of_sameOff_nil hoff)⟩
    | ok k m₂ =>
      have hs₂ : Spent b rest x m₂ := hfound k m₂ hsearch
      obtain ⟨e, m₃, he, hs₃⟩ := h.exists_error_of_spent hx hrest ht hs₂ k
        fun l r => .text (l.toText ++ r.toText)
      exact ⟨e, m₃, hjoin.trans ((bind_of_ok hsearch).trans he), hs₃.tracked, fun _ => hs₃⟩

/-- With a dot in front of a gated template there is no value: the first cut that fits spends the
name, and then it does not fit again. -/
theorem Gated.dot (h : Gated clock stop b rest x line parts) (hq : IsPart q) (hq0 : q.dots ≠ 0)
    (hparts : ∀ q ∈ parts, IsPart q) (hdots : (pattern stop parts).dots ≠ 0)
    (hx : x ∉ q.targets) (hrest : ∀ y ∈ rest, y ∉ q.targets) :
    Gated clock stop b rest x line (q :: parts) ∧ Closed clock stop b rest x line (q :: parts) := by
  have hclosed : Closed clock stop b rest x line (q :: parts) := by
    intro t m ht hm
    obtain ⟨e, m', he, _⟩ := h.exists_error hq hq0 hparts hdots hx hrest ht hm
    exact not_succeeds_of_error he
  refine ⟨⟨?_, ?_, ?_⟩, hclosed⟩
  · intro t m ht hm
    obtain ⟨e, m', he, hm', _⟩ := h.exists_error hq hq0 hparts hdots hx hrest ht hm
    rwa [after_of_error he]
  · intro t m ht hm hvalue
    exact absurd hvalue (hclosed t m ht hm)
  · intro t m ht hs
    obtain ⟨e, m', he, _, hs'⟩ := h.exists_error hq hq0 hparts hdots hx hrest ht hs.tracked
    rw [after_of_error he]
    exact ⟨hs' hs, hclosed t m ht hs.tracked⟩

/-! ## The gate -/

/-- The name between two marks. -/
def gate (a : Span) (x : Text) : List (Expr Span) :=
  [.string a [.scalar '%'], .name a x, .string a [.scalar '#']]

/-- What the gate spells while the name has its value, and the end of the line after it. -/
def gateLine : Text := .scalar '%' :: (held ++ .scalar '#' :: lineEnd)

section Gate

variable {a : Span} {front : Text} {γ : List (Expr Span)}

/-- The gate fits at the marks only, and with the value that stands between them. -/
theorem gate_fits {s u : Text} (hfront : .scalar '%' ∉ front) (hs : s = held ∨ s = [])
    (h : .scalar '%' :: (s ++ .scalar '#' :: u) <:+ front ++ gateLine) :
    s = held ∧ u = lineEnd := by
  obtain ⟨before, hbefore⟩ := h
  have hvalue : CodePoint.scalar '%' ∉ held ++ .scalar '#' :: lineEnd := by decide
  obtain ⟨_, _, htail⟩ := (List.append_cons_inj_of_notMem hfront hvalue).1 hbefore.symm
  rcases hs with rfl | rfl
  · exact ⟨rfl, (List.cons.inj (List.append_cancel_left htail)).2.symm⟩
  · have hne : CodePoint.scalar 'c' ≠ .scalar '#' := by decide
    exact absurd (List.cons.inj htail).1 hne

/-- What a template after the gate has to be: it is decided by its readings, and the end of a line
leaves the name with nothing. -/
structure Takes (clock : Clock) (stop : Location) (b : Bindings) (x : Text)
    (γ : List (Expr Span)) : Prop where
  isPart : ∀ q ∈ γ, IsPart q
  dots : (pattern stop γ).dots ≠ 0
  decided : Decided clock b (pattern stop γ)
  fresh : ∀ y ∈ (pattern stop γ).reads, y ∉ (pattern stop γ).targets
  taken : ∃ ts, (pattern stop γ).candidates b lineEnd = [ts] ∧
    ∀ m, Binds ((pattern stop γ).captures b ts) m → m.bindings.get? x = some (.text [])

/-- After the gate stands the end of the line, which captures the name with nothing. -/
theorem Takes.spent (h : Takes clock stop b x γ) (hm : Agrees b (pattern stop γ).reads m) :
    Spent b (pattern stop γ).reads x ((trial clock stop γ lineEnd).after m) := by
  obtain ⟨ts, hone, hcaptures⟩ := h.taken
  obtain ⟨r, m', hmatch, hsettles⟩ :=
    h.decided lineEnd m (Text.isDecoded_ofChars ['\r', '\n']) hm
  rw [hone] at hsettles
  obtain ⟨rfl, hbinds⟩ := hsettles
  have hoff : SameOff (pattern stop γ).targets m m' :=
    (sameOff_eval (pattern stop γ) _).of_attempt hmatch
  rw [after_of_ok (attempt_eq_ok hmatch)]
  exact ⟨hm.of_sameOff hoff h.fresh, hcaptures m' hbinds⟩

/-- Up to the second mark nothing is captured.  A trial that gets past it spends the name, which had
its value until then. -/
theorem Takes.gate_cases (h : Takes clock stop b x γ) (hx : x ≠ nowName)
    (hfront : .scalar '%' ∉ front) (ht : t <:+ front ++ gateLine)
    (hm : Tracked b (pattern stop γ).reads x m) :
    (SameOff [] m ((trial clock stop (gate a x ++ γ) t).after m) ∧
        ¬ Succeeds (trial clock stop (gate a x ++ γ) t) m) ∨
      (m.bindings.get? x = some (.text held) ∧
        Spent b (pattern stop γ).reads x ((trial clock stop (gate a x ++ γ) t).after m)) := by
  obtain ⟨s, hxs, hs⟩ : ∃ s, m.bindings.get? x = some (.text s) ∧ (s = held ∨ s = []) := by
    rcases hm.2 with h | h
    · exact ⟨held, h, Or.inl rfl⟩
    · exact ⟨[], h, Or.inr rfl⟩
  have hmark (c : Char) (m : Memory) : (Expr.string a [.scalar c]).eval clock none m =
      .ok (.text [.scalar c]) m := text_of_canonical (Text.canonical_ofChars [c]) m
  have hname {m' : Memory} (hoff : SameOff [] m m') :
      (Expr.name a x).eval clock none m' = .ok (.text s) m' := by
    rw [eval, if_neg hx]
    exact lookup_of_get? ((hoff x List.not_mem_nil).trans hxs) a
  have hparts₂ : ∀ q ∈ .string a [.scalar '#'] :: γ, IsPart q :=
    List.forall_mem_cons.2 ⟨.segment a _, h.isPart⟩
  have hparts₁ : ∀ q ∈ .name a x :: .string a [.scalar '#'] :: γ, IsPart q :=
    List.forall_mem_cons.2 ⟨.name a hx, hparts₂⟩
  have hdots₂ : (pattern stop (.string a [.scalar '#'] :: γ)).dots ≠ 0 := fun h0 =>
    h.dots (Nat.add_eq_zero_iff.1 h0).2
  have hdots₁ : (pattern stop (.name a x :: .string a [.scalar '#'] :: γ)).dots ≠ 0 := fun h0 =>
    hdots₂ (Nat.add_eq_zero_iff.1 h0).2
  have htrans {m₁ m₂ m₃ : Memory} (h : SameOff [] m₁ m₂) (h' : SameOff [] m₂ m₃) :
      SameOff [] m₁ m₃ := (lasts_sameOff []).trans h h'
  rcases front_cases hparts₁ hdots₁ (hmark '%' m) t with h₁ | ⟨u₁, m₁, rfl, hoff₁, heq₁, hyes₁⟩
  · exact Or.inl h₁
  rcases front_cases hparts₂ hdots₂ (hname hoff₁) u₁
    with ⟨hoff, hno⟩ | ⟨u₂, m₂, rfl, hoff₂, heq₂, hyes₂⟩
  · exact Or.inl ⟨heq₁ ▸ htrans hoff₁ hoff, fun hvalue => hno (hyes₁ hvalue)⟩
  rcases front_cases h.isPart h.dots (hmark '#' m₂) u₂
    with ⟨hoff, hno⟩ | ⟨u₃, m₃, rfl, hoff₃, heq₃, hyes₃⟩
  · exact Or.inl ⟨heq₁ ▸ heq₂ ▸ htrans hoff₁ (htrans hoff₂ hoff),
      fun hvalue => hno (hyes₂ (hyes₁ hvalue))⟩
  obtain ⟨rfl, rfl⟩ := gate_fits hfront hs ht
  refine Or.inr ⟨hxs, ?_⟩
  have hm₃ : Agrees b (pattern stop γ).reads m₃ := hm.1.of_sameOff
    (htrans hoff₁ (htrans hoff₂ hoff₃)) fun _ _ => List.not_mem_nil
  show Spent b (pattern stop γ).reads x ((trial clock stop (.string a [.scalar '%'] ::
    .name a x :: .string a [.scalar '#'] :: γ) _).after m)
  rw [heq₁, heq₂, heq₃]
  exact h.spent hm₃

/-- The gate is gated. -/
theorem Takes.gated (h : Takes clock stop b x γ) (hx : x ≠ nowName)
    (hfront : .scalar '%' ∉ front) :
    Gated clock stop b (pattern stop γ).reads x (front ++ gateLine) (gate a x ++ γ) where
  tracked t m ht hm := by
    rcases h.gate_cases (a := a) hx hfront ht hm with ⟨hoff, _⟩ | ⟨_, hs⟩
    · exact hm.of_sameOff_nil hoff
    · exact hs.tracked
  spends t m ht hm hvalue := by
    rcases h.gate_cases (a := a) hx hfront ht hm with ⟨_, hno⟩ | ⟨_, hs⟩
    · exact absurd hvalue hno
    · exact hs
  spent t m ht hs := by
    rcases h.gate_cases (a := a) hx hfront ht hs.tracked with ⟨hoff, hno⟩ | ⟨hvalue, _⟩
    · exact ⟨hs.of_sameOff_nil hoff, hno⟩
    · have hne : some (Value.text held) ≠ some (Value.text []) := by decide
      exact absurd (hvalue.symm.trans hs.2) hne

theorem isPart_gate (hx : x ≠ nowName) : ∀ q ∈ gate a x, IsPart q := by
  simp only [gate, List.forall_mem_cons]
  exact ⟨.segment a _, .name a hx, .segment a _, fun q hq => absurd hq List.not_mem_nil⟩

/-- With a dot somewhere in front of the gate, the template has no value on the line. -/
theorem Takes.closed (h : Takes clock stop b x γ) (hx : x ≠ nowName)
    (hfront : .scalar '%' ∉ front) {pre : List (Expr Span)} (hpre : ∀ q ∈ pre, IsPart q)
    (hxpre : x ∉ pre.flatMap targets)
    (hrest : ∀ y ∈ (pattern stop γ).reads, y ∉ pre.flatMap targets) :
    Gated clock stop b (pattern stop γ).reads x (front ++ gateLine) (pre ++ (gate a x ++ γ)) ∧
      ((∃ q ∈ pre, q.dots ≠ 0) →
        Closed clock stop b (pattern stop γ).reads x (front ++ gateLine)
          (pre ++ (gate a x ++ γ))) := by
  induction pre with
  | nil => exact ⟨h.gated hx hfront, by simp⟩
  | cons q pre ih =>
    obtain ⟨hq, hpre⟩ := List.forall_mem_cons.1 hpre
    simp only [List.flatMap_cons, List.mem_append, not_or] at hxpre hrest
    obtain ⟨hgated, hclosed⟩ := ih hpre hxpre.2 fun y hy => (hrest y hy).2
    have hparts : ∀ q ∈ pre ++ (gate a x ++ γ), IsPart q :=
      List.forall_mem_append.2 ⟨hpre, List.forall_mem_append.2 ⟨isPart_gate hx, h.isPart⟩⟩
    have hdots : (pattern stop (pre ++ (gate a x ++ γ))).dots ≠ 0 := by
      rw [← List.append_assoc]
      exact dots_append_ne_zero h.dots _
    by_cases hq0 : q.dots = 0
    · refine ⟨hgated.cons hq hq0 hparts hdots, ?_⟩
      rintro ⟨q', hq', hdot⟩
      rcases List.mem_cons.1 hq' with rfl | hq'
      · exact absurd hq0 hdot
      · exact (hclosed ⟨q', hq', hdot⟩).cons hq hq0 hparts hdots
    · obtain ⟨hgated', hclosed'⟩ :=
        hgated.dot hq hq0 hparts hdots hxpre.1 fun y hy => (hrest y hy).1
      exact ⟨hgated', fun _ => hclosed'⟩

end Gate

end WireScript.Template
