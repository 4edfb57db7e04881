import WireScript.Proofs.Pattern.Exact
import WireScript.Proofs.Pattern.Search
import WireScript.Proofs.Run.Frame

/-!
# Matching decides by readings

Evaluation against a text tries the sides of a concatenation, cut after cut, and what it binds on
the way stays bound.  For a legible pattern nothing of that shows: nothing that is assigned is read,
so every trial sees the bindings that the match started with, and the evaluation after the search
binds everything once more.

* `exists_eval_of_dots_eq_zero`: a part without dots has its value in every memory that agrees with
  the bindings on what it reads.
* `exists_attempt_findSplit`: the search for a split comes to the cut that fits, if there is one
  only.
* `exists_attempt_eval`: a match has a value if there is one candidate among the readings, and then
  binds what that reading binds.  It is ambiguous if there are more.
-/

namespace WireScript

/-! ## The search for a cut -/

namespace Matcher

variable {α : Type} {left right : Matcher α} {t : Text} {hit : Nat → Bool} {Q : Memory → Prop}

/-- What the search makes of the cuts that fit. -/
def pick (t : Text) : List Nat → Except MatchFailure Nat
  | [] => .error (.noSplit t)
  | [k] => .ok k
  | _ => .error (.ambiguous t)

/-- If whether a cut fits does not depend on the trials before it, the search decides by how many
cuts fit. -/
theorem exists_attempt_findSplit
    (hfits : ∀ k m, Q m → ∃ m', fits left right t k m = .ok (hit k) m' ∧ Q m')
    (cuts : List Nat) (found : Option Nat) (m : Memory) (hm : Q m) :
    ∃ m', (findSplit left right t found cuts).attempt m =
      .ok (pick t (found.toList ++ cuts.filter hit)) m' := by
  induction cuts generalizing found m with
  | nil =>
    cases found with
    | none => exact ⟨m, rfl⟩
    | some k => exact ⟨m, rfl⟩
  | cons k cuts ih =>
    obtain ⟨m₁, hk, hm₁⟩ := hfits k m hm
    unfold findSplit
    rw [Eval.attempt_bind_of_ok (Eval.attempt_of_ok hk)]
    cases hhit : hit k with
    | false =>
      rw [List.filter_cons_of_neg (by simp [hhit])]
      exact ih found m₁ hm₁
    | true =>
      rw [List.filter_cons_of_pos hhit]
      cases found with
      | none => exact ih (some k) m₁ hm₁
      | some first => exact ⟨_, rfl⟩

end Matcher

namespace Expr

variable {α : Type} {clock : Clock} {b : Bindings} {t u : Text} {m m' : Memory}

open Eval Memory

/-- What is left to do in an assignment binds its name beside the names within it. -/
theorem exists_assign {a a' : α} {x : Text} {e : Expr α} (hp : Legible b (.assign a a' x e))
    {v : Value} {ts : List Text} (hvalue : e.value? b ts = some v)
    (hbinds : Binds (e.captures b ts) m) :
    ∃ m', (Eval.assign x v >>= fun _ => pure v : Eval α Value) m = .ok v m' ∧
      Binds (captures b (.assign a a' x e) ts) m' := by
  obtain ⟨m', hassign, hset⟩ : ∃ m', (Eval.assign x v : Eval α Unit) m = .ok () m' ∧
      m'.bindings = m.bindings.set x v := ⟨_, rfl, rfl⟩
  refine ⟨m', ?_, ?_⟩
  · rw [bind_of_ok hassign]
    rfl
  · rw [captures, hvalue, Option.map_some, Option.toList_some, List.singleton_append]
    refine List.forall_mem_cons.2 ⟨?_, fun entry hentry => ?_⟩
    · rw [hset]
      exact Bindings.get?_set_self x v _
    · have hne : entry.1 ≠ x := by
        rintro rfl
        exact (List.nodup_cons.1 hp.nodup).1
          (mem_targets_of_mem_captures (List.mem_map_of_mem hentry))
      rw [hset, Bindings.get?_set_of_ne hne]
      exact hbinds entry hentry

/-! ## Parts without dots -/

/-- A part without dots has its value, whatever text it is given, and leaves its names bound. -/
theorem exists_eval_of_dots_eq_zero {p : Expr α} (hp : p.Legible b) (hdots : p.dots = 0)
    (hm : Agrees b p.reads m) (context : Option Text) :
    ∃ v m', p.eval clock context m = .ok v m' ∧ p.value? b [] = some v ∧ v.toText.isEncodable ∧
      Binds (p.captures b []) m' := by
  have hpat := hp.isPattern
  induction hpat generalizing context m with
  | integer a n => exact ⟨.ofInt n, m, rfl, rfl, Text.isEncodable_ofInt _, binds_nil m⟩
  | string a s =>
    obtain ⟨c, hc⟩ := Text.isEncodable_iff.1 (hp.literals s (List.mem_singleton_self s))
    refine ⟨.text c, m, text_of_canonical hc m, ?_, (Text.isDecoded_of_canonical hc).isEncodable,
      binds_nil m⟩
    simp [value?, Value.ofText?, hc]
  | name a x =>
    obtain ⟨hnow, v, hv, henc⟩ := hp.names x (List.mem_singleton_self x)
    refine ⟨v, m, ?_, hv, henc, binds_nil m⟩
    have hx : m.bindings.get? x = some v := (hm x (List.mem_singleton_self x)).trans hv
    simp only [eval, if_neg hnow]
    exact lookup_of_get? hx a
  | dot a => cases hdots
  | @concat a l r _ _ ihl ihr =>
    obtain ⟨hl, hr⟩ := Nat.add_eq_zero_iff.1 hdots
    obtain ⟨v, m₁, hv, hvalue, henc, hbinds⟩ :=
      ihl hp.left hl (hm.mono fun x hx => List.mem_append_left _ hx) none
    have hm₁ : Agrees b r.reads m₁ := (hm.mono fun x hx => List.mem_append_right _ hx).of_sameOff
      ((sameOff_eval l none).of_ok hv) hp.reads_right
    obtain ⟨w, m₂, hw, hvalue', henc', hbinds'⟩ := ihr hp.right hr hm₁ none
    have hboth : (v.toText ++ w.toText).isEncodable := by
      rw [Text.isEncodable_append, henc, henc']
      rfl
    obtain ⟨c, hc⟩ := Text.isEncodable_iff.1 hboth
    refine ⟨.text c, m₂, ?_, ?_, (Text.isDecoded_of_canonical hc).isEncodable, ?_⟩
    · rw [eval, Matcher.concat_of_attempts (attempt_of_ok hv) (attempt_of_ok hw)]
      exact text_of_canonical hc m₂
    · simp [value?, hl, hr, hvalue, hvalue', Value.ofText?, hc]
    · refine binds_append.2 ⟨?_, by simpa [hl] using hbinds'⟩
      rw [List.take_nil]
      exact hbinds.of_sameOff ((sameOff_eval r none).of_ok hw) (hp.captures_left [])
  | @assign a a' x e _ ih =>
    obtain ⟨v, m₁, hv, hvalue, henc, hbinds⟩ := ih hp.value hdots hm context
    obtain ⟨m₂, hassign, hbinds'⟩ := exists_assign hp hvalue hbinds
    refine ⟨v, m₂, ?_, hvalue, henc, hbinds'⟩
    rw [eval, bind_of_ok hv, hassign]

/-! ## Parts with dots -/

/-- A part with dots has no value without a text. -/
theorem exists_eval_none_of_dots_ne_zero {p : Expr α} (hp : p.Legible b) (hdots : p.dots ≠ 0)
    (hm : Agrees b p.reads m) : ∃ f m', p.eval clock none m = .error (.noMatch f) m' := by
  have hpat := hp.isPattern
  induction hpat generalizing m with
  | integer | string | name => exact absurd rfl hdots
  | dot a => exact ⟨.noContext, m, rfl⟩
  | @concat a l r _ _ ihl ihr =>
    have hml : Agrees b l.reads m := hm.mono fun x hx => List.mem_append_left _ hx
    have hmr {m₁ : Memory} (hoff : SameOff l.targets m m₁) : Agrees b r.reads m₁ :=
      (hm.mono fun x hx => List.mem_append_right _ hx).of_sameOff hoff hp.reads_right
    refine ⟨.needsText, ?_⟩
    by_cases hl : l.dots = 0
    · obtain ⟨v, m₁, hv, _⟩ := exists_eval_of_dots_eq_zero hp.left hl hml none
      have hr : r.dots ≠ 0 := by
        simp only [dots, hl] at hdots
        omega
      obtain ⟨f, m₂, hf⟩ := ihr hp.right hr (hmr ((sameOff_eval l none).of_ok hv))
      refine ⟨m₂, ?_⟩
      rw [eval, Matcher.concat_of_attempts (attempt_of_ok hv) (attempt_of_noMatch hf)]
      rfl
    · obtain ⟨f, m₁, hf⟩ := ihl hp.left hl hml
      have hm₁ : Agrees b r.reads m₁ := hmr ((sameOff_eval l none).of_error hf)
      by_cases hr : r.dots = 0
      · obtain ⟨w, m₂, hw, _⟩ := exists_eval_of_dots_eq_zero hp.right hr hm₁ none
        refine ⟨m₂, ?_⟩
        rw [eval, Matcher.concat_of_attempts (attempt_of_noMatch hf) (attempt_of_ok hw)]
        rfl
      · obtain ⟨f', m₂, hf'⟩ := ihr hp.right hr hm₁
        refine ⟨m₂, ?_⟩
        rw [eval, Matcher.concat_of_attempts (attempt_of_noMatch hf) (attempt_of_noMatch hf')]
        rfl
  | assign a a' x _ ih =>
    obtain ⟨f, m', hf⟩ := ih hp.value hdots hm
    exact ⟨f, m', bind_of_error hf⟩

/-- What the candidates decide about a match: without any there is no value, with one the text is
the value and the names are bound as that reading says, and with more the match is ambiguous. -/
def Settles (b : Bindings) (p : Expr α) (t : Text) (r : Except MatchFailure Value) (m : Memory) :
    List (List Text) → Prop
  | [] => ∃ f, r = .error f ∧ f.isAmbiguous = false
  | [ts] => r = .ok (.text t) ∧ Binds (p.captures b ts) m
  | _ => ∃ f, r = .error f ∧ f.isAmbiguous = true

variable {r : Except MatchFailure Value} {cs : List (List Text)}

/-- A computation that goes on after a match decides as the match does, if it has a value where the
match has one. -/
theorem Settles.extend {p q : Expr α} {x : Eval α Value} {f : Value → Eval α Value}
    (hx : x.attempt m = .ok r m') (hr : Settles b p u r m' cs)
    (hf : ∀ ts, cs = [ts] → Binds (p.captures b ts) m' →
      ∃ m'', f (.text u) m' = .ok (.text t) m'' ∧ Binds (q.captures b ts) m'') :
    ∃ r' m'', (x >>= f : Eval α Value).attempt m = .ok r' m'' ∧ Settles b q t r' m'' cs := by
  match cs, hr with
  | [], ⟨e, he, hamb⟩ =>
    subst he
    exact ⟨_, _, attempt_bind_of_error hx, e, rfl, hamb⟩
  | [ts], ⟨he, hbinds⟩ =>
    subst he
    obtain ⟨m'', hm'', hbinds'⟩ := hf ts rfl hbinds
    refine ⟨.ok (.text t), m'', ?_, rfl, hbinds'⟩
    rw [attempt_bind_of_ok hx]
    exact attempt_of_ok hm''
  | _ :: _ :: _, ⟨e, he, hamb⟩ =>
    subst he
    exact ⟨_, _, attempt_bind_of_error hx, e, rfl, hamb⟩

/-- A match has a value exactly if there is one candidate. -/
theorem Settles.ok_or_error {p : Expr α} (h : Settles b p t r m cs) :
    (∃ ts, cs = [ts] ∧ r = .ok (.text t) ∧ Binds (p.captures b ts) m) ∨
      ((∀ ts, cs ≠ [ts]) ∧ ∃ f, r = .error f) := by
  match cs, h with
  | [], ⟨e, he, _⟩ => exact Or.inr ⟨by simp, e, he⟩
  | [ts], ⟨he, hbinds⟩ => exact Or.inl ⟨ts, rfl, he, hbinds⟩
  | _ :: _ :: _, ⟨e, he, _⟩ => exact Or.inr ⟨by simp, e, he⟩

theorem Settles.isAmbiguous_iff {p : Expr α} (h : Settles b p t r m cs) :
    (∃ f, r = .error f ∧ f.isAmbiguous = true) ↔ 2 ≤ cs.length := by
  match cs, h with
  | [], ⟨e, he, hamb⟩ => simp [he, hamb]
  | [ts], ⟨he, _⟩ => simp [he]
  | _ :: _ :: _, ⟨e, he, hamb⟩ => simp [he, hamb]

/-- In every memory that agrees with the bindings on what a pattern reads, the candidates decide
about a match. -/
def Decided (clock : Clock) (b : Bindings) (p : Expr α) : Prop :=
  ∀ t m, t.IsDecoded → Agrees b p.reads m →
    ∃ r m', (p.eval clock (some t)).attempt m = .ok r m' ∧
      Settles b p t r m' (p.candidates b t)

theorem decided_dot (a : α) : Decided clock b (.dot a) := by
  intro t m ht _
  exact ⟨.ok (.text t), m, attempt_of_ok (text_of_canonical ht.canonical m), rfl, binds_nil m⟩

theorem decided_assign {a a' : α} {x : Text} {e : Expr α} (hp : Legible b (.assign a a' x e))
    (hdots : e.dots ≠ 0) (he : Decided clock b e) : Decided clock b (.assign a a' x e) := by
  intro t m ht hm
  obtain ⟨r, m₁, hr, hsettles⟩ := he t m ht hm
  refine Settles.extend hr hsettles fun ts hts hbinds => exists_assign hp ?_ hbinds
  have hread : e.IsReading b t ts :=
    isReading_of_mem_candidates hp.value.isPattern (hts ▸ List.mem_singleton_self ts)
  exact hread.value?_eq hp.value.isPattern hdots

section Concat

variable {a : α} {l r : Expr α}

/-- The cuts that are no reading can be left out first. -/
theorem filterMap_eq_filterMap_filter (f : Nat → Option (List Text)) (ks : List Nat) :
    ks.filterMap f = (ks.filter fun k => (f k).isSome).filterMap f := by
  rw [List.filterMap_filter]
  refine List.filterMap_congr fun k _ => ?_
  cases f k with
  | none => rfl
  | some ts => rfl

/-- Once it is known what a left side without dots stands for, the right side decides about what
the text has after it. -/
theorem exists_attempt_join_left (hl : l.dots = 0) {v : Value} (hvalue : l.value? b [] = some v)
    (ht : t.IsDecoded) (f : MatchFailure)
    (hrest : ∀ u, u.IsDecoded → ∃ r' m', (r.eval clock (some u)).attempt m = .ok r' m' ∧
      Settles b r u r' m' (r.candidates b u) ∧ Binds (l.captures b []) m') :
    ∃ r' m', (Matcher.join (l.eval clock) (r.eval clock) (some t) (.ok v) (.error f)).attempt m =
        .ok r' m' ∧
      Settles b (.concat a l r) t r' m' (candidates b (.concat a l r) t) := by
  by_cases hpre : v.toText.isPrefixOf t
  · obtain ⟨u, rfl⟩ := List.isPrefixOf_iff_prefix.1 hpre
    have hjoin : Matcher.join (l.eval clock) (r.eval clock) (some (v.toText ++ u)) (.ok v)
        (.error f) m = (r.eval clock (some u) >>= fun w => Eval.text (v.toText ++ w.toText) :
          Eval α Value) m := by
      rw [Matcher.join, bind_of_ok (contextText_some _ _), if_pos hpre, List.drop_left]
    obtain ⟨r', m', hr, hsettles, hbinds⟩ := hrest u ht.of_append.2
    rw [attempt_congr hjoin, candidates_left_fixed hl hvalue]
    refine Settles.extend hr hsettles fun ts hts hbinds' => ⟨m', ?_, ?_⟩
    · exact text_of_canonical ht.canonical m'
    · exact binds_append.2 ⟨by rwa [hl], by rwa [hl]⟩
  · refine ⟨.error (.notAtStart t v.toText), m, ?_, ?_⟩
    · rw [Matcher.join]
      refine attempt_of_noMatch ?_
      rw [bind_of_ok (contextText_some _ _), if_neg hpre]
      rfl
    · rw [candidates, if_pos hl]
      simp only [hvalue, if_neg hpre]
      exact ⟨_, rfl, rfl⟩

/-- On the right of a part without dots stands what the text has after it. -/
theorem decided_concat_left_fixed (hp : Legible b (.concat a l r)) (hl : l.dots = 0)
    (hr : r.dots ≠ 0) (ih : Decided clock b r) : Decided clock b (.concat a l r) := by
  intro t m ht hm
  have hml : Agrees b l.reads m := hm.mono fun x hx => List.mem_append_left _ hx
  obtain ⟨v, m₁, hv, hvalue, _, hbinds⟩ := exists_eval_of_dots_eq_zero hp.left hl hml none
  have hm₁ : Agrees b r.reads m₁ := (hm.mono fun x hx => List.mem_append_right _ hx).of_sameOff
    ((sameOff_eval l none).of_ok hv) hp.reads_right
  obtain ⟨f, m₂, hf⟩ := exists_eval_none_of_dots_ne_zero hp.right hr hm₁
  have hoff : SameOff r.targets m₁ m₂ := (sameOff_eval r none).of_error hf
  have heval : eval clock (.concat a l r) (some t) m =
      Matcher.join (l.eval clock) (r.eval clock) (some t) (.ok v) (.error f) m₂ :=
    Matcher.concat_of_attempts (attempt_of_ok hv) (attempt_of_noMatch hf)
  rw [attempt_congr heval]
  refine exists_attempt_join_left hl hvalue ht f fun u hu => ?_
  obtain ⟨r', m₃, hr', hsettles⟩ := ih u m₂ hu (hm₁.of_sameOff hoff hp.right.fresh)
  have hkept : Binds (l.captures b []) m₃ :=
    (hbinds.of_sameOff hoff (hp.captures_left [])).of_sameOff
      ((sameOff_eval r (some u)).of_attempt hr') (hp.captures_left [])
  exact ⟨r', m₃, hr', hsettles, hkept⟩

/-- On the left of a part without dots stands what the text has before it. -/
theorem decided_concat_right_fixed (hp : Legible b (.concat a l r)) (hl : l.dots ≠ 0)
    (hr : r.dots = 0) (ih : Decided clock b l) : Decided clock b (.concat a l r) := by
  intro t m ht hm
  have hml : Agrees b l.reads m := hm.mono fun x hx => List.mem_append_left _ hx
  obtain ⟨f, m₁, hf⟩ := exists_eval_none_of_dots_ne_zero hp.left hl hml
  have hoff : SameOff l.targets m m₁ := (sameOff_eval l none).of_error hf
  have hmr : Agrees b r.reads m₁ :=
    (hm.mono fun x hx => List.mem_append_right _ hx).of_sameOff hoff hp.reads_right
  obtain ⟨w, m₂, hw, hvalue, _, hbinds⟩ := exists_eval_of_dots_eq_zero hp.right hr hmr none
  have hm₂ : Agrees b l.reads m₂ := (hml.of_sameOff hoff hp.left.fresh).of_sameOff
    ((sameOff_eval r none).of_ok hw) hp.reads_left
  have heval : eval clock (.concat a l r) (some t) m =
      Matcher.join (l.eval clock) (r.eval clock) (some t) (.error f) (.ok w) m₂ :=
    Matcher.concat_of_attempts (attempt_of_noMatch hf) (attempt_of_ok hw)
  by_cases hsuf : w.toText.isSuffixOf t
  · obtain ⟨u, rfl⟩ := List.isSuffixOf_iff_suffix.1 hsuf
    have hjoin : eval clock (.concat a l r) (some (u ++ w.toText)) m =
        (l.eval clock (some u) >>= fun v => Eval.text (v.toText ++ w.toText) :
          Eval α Value) m₂ := by
      rw [heval, Matcher.join, bind_of_ok (contextText_some _ _), if_pos hsuf,
        List.length_append, Nat.add_sub_cancel, List.take_left]
    obtain ⟨lo, m₃, hlo, hsettles⟩ := ih u m₂ ht.of_append.1 hm₂
    rw [attempt_congr hjoin, candidates_right_fixed hl hr hvalue]
    refine Settles.extend hlo hsettles fun ts hts hbinds' => ⟨m₃, ?_, ?_⟩
    · exact text_of_canonical ht.canonical m₃
    · have hread : l.IsReading b u ts :=
        isReading_of_mem_candidates hp.left.isPattern (hts ▸ List.mem_singleton_self ts)
      have hkept : Binds (r.captures b []) m₃ :=
        hbinds.of_sameOff ((sameOff_eval l (some u)).of_attempt hlo) (hp.captures_right [])
      rw [captures, ← hread.length_eq, List.take_length, List.drop_length]
      exact binds_append.2 ⟨hbinds', hkept⟩
  · refine ⟨.error (.notAtEnd t w.toText), m₂, ?_, ?_⟩
    · rw [attempt_congr heval, Matcher.join]
      refine attempt_of_noMatch ?_
      rw [bind_of_ok (contextText_some _ _), if_neg hsuf]
      rfl
    · rw [candidates, if_neg hl, if_pos hr]
      simp only [hvalue, if_neg hsuf]
      exact ⟨_, rfl, rfl⟩

/-- Whether a cut fits does not depend on what was tried before. -/
theorem exists_fits (hp : Legible b (.concat a l r)) (ihl : Decided clock b l)
    (ihr : Decided clock b r) (ht : t.IsDecoded) (k : Nat) (m : Memory)
    (hm : Agrees b (reads (.concat a l r)) m) :
    ∃ m', Matcher.fits (l.eval clock) (r.eval clock) t k m =
        .ok (atCut b l r t k).isSome m' ∧
      Agrees b (reads (.concat a l r)) m' := by
  have hml : Agrees b l.reads m := hm.mono fun x hx => List.mem_append_left _ hx
  obtain ⟨lo, m₁, hlo, hsettles⟩ := ihl _ m (ht.take k) hml
  have hm₁ : Agrees b r.reads m₁ := (hm.mono fun x hx => List.mem_append_right _ hx).of_sameOff
    ((sameOff_eval l _).of_attempt hlo) hp.reads_right
  obtain ⟨ro, m₂, hro, hsettles'⟩ := ihr _ m₁ (ht.drop k) hm₁
  -- A failed trial leaves memory where it stopped, so the memories are found case by case.
  suffices hfit : ∃ m', Matcher.fits (l.eval clock) (r.eval clock) t k m =
      .ok (atCut b l r t k).isSome m' by
    obtain ⟨m', hm'⟩ := hfit
    exact ⟨m', hm', hm.of_sameOff ((sameOff_fits clock l r t k).of_ok hm') hp.fresh⟩
  unfold Matcher.fits
  rw [bind_of_ok hlo]
  rcases hsettles.ok_or_error with ⟨us, hus, rfl, _⟩ | ⟨hne, f, rfl⟩
  · rcases hsettles'.ok_or_error with ⟨vs, hvs, rfl, _⟩ | ⟨hne, f, rfl⟩
    · refine ⟨m₂, ?_⟩
      dsimp only
      rw [bind_of_ok hro, atCut_eq_some_iff.2 ⟨us, vs, hus, hvs, rfl⟩]
      rfl
    · have hcut : atCut b l r t k = none := by
        refine Option.eq_none_iff_forall_ne_some.2 fun ts hts => ?_
        obtain ⟨_, vs, _, hvs, _⟩ := atCut_eq_some_iff.1 hts
        exact hne vs hvs
      refine ⟨m₂, ?_⟩
      dsimp only
      rw [bind_of_ok hro, hcut]
      rfl
  · have hcut : atCut b l r t k = none := by
      refine Option.eq_none_iff_forall_ne_some.2 fun ts hts => ?_
      obtain ⟨us, _, hus, _⟩ := atCut_eq_some_iff.1 hts
      exact hne us hus
    refine ⟨m₁, ?_⟩
    rw [hcut]
    rfl

/-- The evaluation at a cut that counts has the text as its value and leaves all names of both
sides bound. -/
theorem exists_eval_at_cut (hp : Legible b (.concat a l r)) (ihl : Decided clock b l)
    (ihr : Decided clock b r) (ht : t.IsDecoded) {k : Nat} {ts : List Text}
    (hts : atCut b l r t k = some ts) (hm : Agrees b (reads (.concat a l r)) m) :
    ∃ m', (l.eval clock (some (t.take k)) >>= fun v => r.eval clock (some (t.drop k)) >>= fun w =>
        Eval.text (v.toText ++ w.toText) : Eval α Value) m = .ok (.text t) m' ∧
      Binds (captures b (.concat a l r) ts) m' := by
  obtain ⟨us, vs, hus, hvs, rfl⟩ := atCut_eq_some_iff.1 hts
  have hml : Agrees b l.reads m := hm.mono fun x hx => List.mem_append_left _ hx
  obtain ⟨lo, m₁, hlo, hl⟩ := ihl _ m (ht.take k) hml
  rw [hus] at hl
  obtain ⟨rfl, hbinds⟩ := hl
  have hm₁ : Agrees b r.reads m₁ := (hm.mono fun x hx => List.mem_append_right _ hx).of_sameOff
    ((sameOff_eval l _).of_attempt hlo) hp.reads_right
  obtain ⟨ro, m₂, hro, hr⟩ := ihr _ m₁ (ht.drop k) hm₁
  rw [hvs] at hr
  obtain ⟨rfl, hbinds'⟩ := hr
  have hread : l.IsReading b (t.take k) us :=
    isReading_of_mem_candidates hp.left.isPattern (hus ▸ List.mem_singleton_self us)
  refine ⟨m₂, ?_, ?_⟩
  · rw [bind_of_ok (attempt_eq_ok hlo), bind_of_ok (attempt_eq_ok hro), Value.toText, Value.toText,
      List.take_append_drop]
    exact text_of_canonical ht.canonical m₂
  · rw [captures, ← hread.length_eq, List.take_left, List.drop_left]
    have hkept := hbinds.of_sameOff ((sameOff_eval r _).of_attempt hro) (hp.captures_left us)
    exact binds_append.2 ⟨hkept, hbinds'⟩

/-- Between two parts with dots stands the one cut that fits, if there is one only. -/
theorem decided_concat_search (hp : Legible b (.concat a l r)) (hl : l.dots ≠ 0)
    (hr : r.dots ≠ 0) (ihl : Decided clock b l) (ihr : Decided clock b r) :
    Decided clock b (.concat a l r) := by
  intro t m ht hm
  have hml : Agrees b l.reads m := hm.mono fun x hx => List.mem_append_left _ hx
  obtain ⟨f, m₁, hf⟩ := exists_eval_none_of_dots_ne_zero hp.left hl hml
  have hoff : SameOff (targets (.concat a l r)) m m₁ :=
    ((sameOff_eval l none).of_error hf).mono fun x hx => List.mem_append_left _ hx
  have hm₁ : Agrees b (reads (.concat a l r)) m₁ := hm.of_sameOff hoff hp.fresh
  obtain ⟨f', m₂, hf'⟩ := exists_eval_none_of_dots_ne_zero hp.right hr
    (hm₁.mono fun x hx => List.mem_append_right _ hx)
  have hoff' : SameOff (targets (.concat a l r)) m₁ m₂ :=
    ((sameOff_eval r none).of_error hf').mono fun x hx => List.mem_append_right _ hx
  have hm₂ : Agrees b (reads (.concat a l r)) m₂ := hm₁.of_sameOff hoff' hp.fresh
  obtain ⟨m₃, hsearch⟩ := Matcher.exists_attempt_findSplit
    (exists_fits hp ihl ihr ht) (List.range (t.length + 1)) none m₂ hm₂
  have hm₃ : Agrees b (reads (.concat a l r)) m₃ :=
    hm₂.of_sameOff ((sameOff_findSplit clock l r t none _).of_attempt hsearch) hp.fresh
  have hjoin : eval clock (.concat a l r) (some t) m =
      Matcher.join (l.eval clock) (r.eval clock) (some t) (.error f) (.error f') m₂ :=
    Matcher.concat_of_attempts (attempt_of_noMatch hf) (attempt_of_noMatch hf')
  rw [Matcher.join, bind_of_ok (contextText_some _ _)] at hjoin
  rw [attempt_congr hjoin, candidates_search hl hr, filterMap_eq_filterMap_filter]
  have hsome : ∀ k ∈ (List.range (t.length + 1)).filter fun k => (atCut b l r t k).isSome,
      ∃ ts, atCut b l r t k = some ts :=
    fun k hk => Option.isSome_iff_exists.1 (List.mem_filter.1 hk).2
  rw [Option.toList_none, List.nil_append] at hsearch
  generalize (List.range (t.length + 1)).filter _ = hits at hsearch hsome ⊢
  cases hits with
  | nil => exact ⟨_, m₃, attempt_bind_of_error hsearch, _, rfl, rfl⟩
  | cons j hits =>
    obtain ⟨us, hus⟩ := hsome j List.mem_cons_self
    cases hits with
    | nil =>
      obtain ⟨m₄, hvalue, hbinds⟩ := exists_eval_at_cut hp ihl ihr ht hus hm₃
      rw [List.filterMap_cons_some hus]
      exact ⟨_, m₄, (attempt_bind_of_ok hsearch).trans (attempt_of_ok hvalue), rfl, hbinds⟩
    | cons k rest =>
      obtain ⟨vs, hvs⟩ := hsome k (List.mem_cons_of_mem _ List.mem_cons_self)
      rw [List.filterMap_cons_some hus, List.filterMap_cons_some hvs]
      exact ⟨_, m₃, attempt_bind_of_error hsearch, _, rfl, rfl⟩

end Concat

/-- The candidates decide about a match with a legible pattern. -/
theorem Legible.decided {p : Expr α} (hp : p.Legible b) (hdots : p.dots ≠ 0) :
    Decided clock b p := by
  have hpat := hp.isPattern
  induction hpat with
  | integer | string | name => exact absurd rfl hdots
  | dot a => exact decided_dot a
  | @concat a l r _ _ ihl ihr =>
    by_cases hl : l.dots = 0
    · have hr : r.dots ≠ 0 := by
        simp only [dots, hl] at hdots
        omega
      exact decided_concat_left_fixed hp hl hr (ihr hp.right hr)
    · by_cases hr : r.dots = 0
      · exact decided_concat_right_fixed hp hl hr (ihl hp.left hl)
      · exact decided_concat_search hp hl hr (ihl hp.left hl) (ihr hp.right hr)
  | assign a a' x _ ih => exact decided_assign hp hdots (ih hp.value hdots)

end Expr

end WireScript
