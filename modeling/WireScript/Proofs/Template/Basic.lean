import WireScript.Proofs.Pattern.Match
import WireScript.Script.Parser

/-!
# Templates as patterns

The pattern of a template is a chain of its parts, with the end of a line after the last one.

* `IsPart` is what stands in a template that only captures: literal segments, names, dots and
  captured dots.
* `Spells` says which line a template stands for when texts are chosen for its dots: the segments,
  the values of the names, the texts and the end of a line, one after the other.
* `isReading_iff_spells` relates it to the readings of the pattern.  The two differ where a part
  without dots is not in canonical form, which no part of a received line is.
-/

namespace WireScript

/-- What ends a line. -/
def lineEnd : Text := [.scalar '\r', .scalar '\n']

theorem canonical_lineEnd : lineEnd.canonical = some lineEnd :=
  Text.canonical_ofChars ['\r', '\n']

namespace Template

variable {α : Type}

/-- What stands in a template: a segment, a name, a dot, or a dot that is captured. -/
inductive IsPart : Expr α → Prop where
  | segment (a : α) (s : Text) : IsPart (.string a s)
  | name (a : α) {x : Text} (hx : x ≠ nowName) : IsPart (.name a x)
  | dot (a : α) : IsPart (.dot a)
  | capture (a a' c : α) (x : Text) : IsPart (.assign a a' x (.dot c))

theorem IsPart.isPattern {q : Expr α} (h : IsPart q) : q.IsPattern := by
  cases h with
  | segment a s => exact .string a s
  | name a _ => exact .name a _
  | dot a => exact .dot a
  | capture a a' c x => exact .assign a a' x (.dot c)

/-- A part with a dot is one dot, and reads nothing. -/
theorem IsPart.of_dots_ne_zero {q : Expr α} (h : IsPart q) (hdots : q.dots ≠ 0) :
    q.dots = 1 ∧ q.reads = [] ∧ q.literals = [] := by
  cases h with
  | segment => exact absurd rfl hdots
  | name => exact absurd rfl hdots
  | dot => exact ⟨rfl, rfl, rfl⟩
  | capture => exact ⟨rfl, rfl, rfl⟩

/-- A part without a dot assigns nothing. -/
theorem IsPart.targets_eq_nil {q : Expr α} (h : IsPart q) (hdots : q.dots = 0) :
    q.targets = [] := by
  cases h with
  | segment => rfl
  | name => rfl
  | dot => cases hdots
  | capture => cases hdots

/-- The line that the parts of a template spell in given bindings when their dots stand for the
given texts, in order. -/
inductive Spells (b : Bindings) : List (Expr α) → Text → List Text → Prop where
  | stop : Spells b [] lineEnd []
  | segment (a : α) (s : Text) {parts : List (Expr α)} {t : Text} {ts : List Text}
      (h : Spells b parts t ts) : Spells b (.string a s :: parts) (s ++ t) ts
  | name (a : α) {x : Text} {v : Value} {parts : List (Expr α)} {t : Text} {ts : List Text}
      (hx : b.get? x = some v) (h : Spells b parts t ts) :
      Spells b (.name a x :: parts) (v.toText ++ t) ts
  | dot (a : α) (u : Text) {parts : List (Expr α)} {t : Text} {ts : List Text}
      (h : Spells b parts t ts) : Spells b (.dot a :: parts) (u ++ t) (u :: ts)
  | capture (a a' c : α) (x u : Text) {parts : List (Expr α)} {t : Text} {ts : List Text}
      (h : Spells b parts t ts) : Spells b (.assign a a' x (.dot c) :: parts) (u ++ t) (u :: ts)

/-! ## The pattern of a template -/

variable {b : Bindings} {t : Text} {ts : List Text} {stop : Location} {parts : List (Expr Span)}

/-- The pattern of the parts of a template, whose last part stops at a location. -/
abbrev pattern (stop : Location) (parts : List (Expr Span)) : Expr Span :=
  LineParser.template stop parts

theorem isPattern_pattern (hparts : ∀ q ∈ parts, IsPart q) : (pattern stop parts).IsPattern := by
  induction parts with
  | nil => exact .string _ _
  | cons q parts ih =>
    obtain ⟨hq, hrest⟩ := List.forall_mem_cons.1 hparts
    exact .concat _ hq.isPattern (ih hrest)

theorem literals_pattern :
    (pattern stop parts).literals = parts.flatMap Expr.literals ++ [lineEnd] := by
  induction parts with
  | nil => rfl
  | cons q parts ih =>
    rw [List.flatMap_cons, List.append_assoc, ← ih]
    rfl

theorem targets_pattern : (pattern stop parts).targets = parts.flatMap Expr.targets := by
  induction parts with
  | nil => rfl
  | cons q parts ih => exact congrArg (q.targets ++ ·) ih

theorem reads_pattern : (pattern stop parts).reads = parts.flatMap Expr.reads := by
  induction parts with
  | nil => rfl
  | cons q parts ih => exact congrArg (q.reads ++ ·) ih

/-- A template with a dot has it whatever stands in front. -/
theorem dots_append_ne_zero (h : (pattern stop parts).dots ≠ 0) (pre : List (Expr Span)) :
    (pattern stop (pre ++ parts)).dots ≠ 0 := by
  induction pre with
  | nil => exact h
  | cons q pre ih => exact fun h0 => ih (Nat.add_eq_zero_iff.1 h0).2

/-- The texts that a template spells a line with are as many as its dots. -/
theorem Spells.length_eq (h : Spells b parts t ts) : ts.length = (pattern stop parts).dots := by
  induction h with
  | stop => rfl
  | segment a s _ ih => exact ih.trans (Nat.zero_add _).symm
  | name a _ _ ih => exact ih.trans (Nat.zero_add _).symm
  | dot a u _ ih =>
    rw [List.length_cons, ih, Nat.add_comm]
    rfl
  | capture a a' c x u _ ih =>
    rw [List.length_cons, ih, Nat.add_comm]
    rfl

/-! ## Spellings and readings -/

/-- A part without dots that is put in front of a template is put in front of its readings. -/
theorem isReading_cons {q : Expr Span} (hq : q.dots = 0) {v : Value}
    (hv : q.value? b [] = some v) (h : (pattern stop parts).IsReading b t ts)
    (ht : Text.IsDecoded (v.toText ++ t)) :
    (pattern stop (q :: parts)).IsReading b (v.toText ++ t) ts := by
  have hread : q.IsReading b v.toText [] := (Expr.isReading_of_dots_eq_zero hq).2 ⟨rfl, v, hv, rfl⟩
  by_cases hdots : (pattern stop parts).dots = 0
  · obtain ⟨rfl, w, hw, rfl⟩ := (Expr.isReading_of_dots_eq_zero hdots).1 h
    have hdots' : (pattern stop (q :: parts)).dots = 0 := Nat.add_eq_zero_iff.2 ⟨hq, hdots⟩
    refine (Expr.isReading_of_dots_eq_zero hdots').2
      ⟨rfl, .text (v.toText ++ w.toText), ?_, rfl⟩
    have hsum : q.dots + (pattern stop parts).dots = 0 := hdots'
    have hcanonical : Value.ofText? (v.toText ++ w.toText) = some (.text (v.toText ++ w.toText)) :=
      congrArg (Option.map Value.text) ht.canonical
    show (Expr.concat _ q (pattern stop parts)).value? b [] = _
    simp only [Expr.value?, List.take_nil, List.drop_nil, hv, hw, Option.bind_eq_bind,
      Option.bind_some]
    rw [if_pos hsum, hcanonical]
  · have hsum : q.dots + (pattern stop parts).dots ≠ 0 := by omega
    exact (Expr.isReading_concat hsum).2 ⟨_, _, [], ts, rfl, rfl, hread, h⟩

/-- What a template spells is read by its pattern, if it can be received. -/
theorem Spells.isReading (h : Spells b parts t ts) (ht : t.IsDecoded) :
    (pattern stop parts).IsReading b t ts := by
  induction h with
  | stop => exact ⟨rfl, .text lineEnd, congrArg (Option.map Value.text) canonical_lineEnd, rfl⟩
  | segment a s h ih =>
    have hs : (Expr.string a s).value? b [] = some (.text s) :=
      congrArg (Option.map Value.text) ht.of_append.1.canonical
    exact isReading_cons rfl hs (ih ht.of_append.2) ht
  | name a hx h ih => exact isReading_cons rfl hx (ih ht.of_append.2) ht
  | dot a u h ih =>
    refine (Expr.isReading_concat ?_).2
      ⟨u, _, [u], _, rfl, rfl, Expr.isReading_dot.2 rfl, ih ht.of_append.2⟩
    simp only [Expr.dots]
    omega
  | capture a a' c x u h ih =>
    refine (Expr.isReading_concat ?_).2
      ⟨u, _, [u], _, rfl, rfl, Expr.isReading_assign.2 (Expr.isReading_dot.2 rfl),
        ih ht.of_append.2⟩
    simp only [Expr.dots]
    omega

/-- Every segment of a template, and the end of it that has no dots, is in canonical form. -/
def Faithful (b : Bindings) (stop : Location) : List (Expr Span) → Prop
  | [] => True
  | q :: parts =>
    (∀ s ∈ q.literals, s.IsDecoded) ∧
      ((pattern stop (q :: parts)).dots = 0 → ∃ t, t.IsDecoded ∧ Spells b (q :: parts) t []) ∧
      Faithful b stop parts

theorem Spells.faithful (h : Spells b parts t ts) (ht : t.IsDecoded) : Faithful b stop parts := by
  have hend {q : Expr Span} {parts : List (Expr Span)} {t : Text} {ts : List Text}
      (h : Spells b (q :: parts) t ts) (ht : t.IsDecoded)
      (hdots : (pattern stop (q :: parts)).dots = 0) :
      ∃ t, t.IsDecoded ∧ Spells b (q :: parts) t [] := by
    have hlen : ts.length = (pattern stop (q :: parts)).dots := h.length_eq
    rw [hdots, List.length_eq_zero_iff] at hlen
    exact ⟨t, ht, hlen ▸ h⟩
  induction h with
  | stop => trivial
  | segment a s h ih =>
    refine ⟨fun u hu => ?_, hend (.segment a s h) ht, ih ht.of_append.2⟩
    rw [List.mem_singleton.1 hu]
    exact ht.of_append.1
  | name a hx h ih => exact ⟨by simp [Expr.literals], hend (.name a hx h) ht, ih ht.of_append.2⟩
  | dot a u h ih => exact ⟨by simp [Expr.literals], hend (.dot a u h) ht, ih ht.of_append.2⟩
  | capture a a' c x u h ih =>
    exact ⟨by simp [Expr.literals], hend (.capture a a' c x u h) ht, ih ht.of_append.2⟩

/-- A reading of the pattern of a faithful template spells its text. -/
theorem Faithful.spells (hparts : ∀ q ∈ parts, IsPart q) (hfaithful : Faithful b stop parts)
    (h : (pattern stop parts).IsReading b t ts) : Spells b parts t ts := by
  induction parts generalizing t ts with
  | nil =>
    obtain ⟨rfl, v, hv, rfl⟩ := (Expr.isReading_of_dots_eq_zero rfl).1 h
    have hend : (pattern stop []).value? b [] = some (.text lineEnd) :=
      congrArg (Option.map Value.text) canonical_lineEnd
    rw [hend] at hv
    cases hv
    exact .stop
  | cons q parts ih =>
    obtain ⟨hq, hrest⟩ := List.forall_mem_cons.1 hparts
    obtain ⟨hliterals, hdotless, hfaithful⟩ := hfaithful
    by_cases hdots : (pattern stop (q :: parts)).dots = 0
    · obtain ⟨u, hu, hspells⟩ := hdotless hdots
      obtain ⟨rfl, _⟩ := (Expr.isReading_of_dots_eq_zero hdots).1 h
      rw [h.unique (hspells.isReading hu)]
      exact hspells
    · obtain ⟨t₁, t₂, ts₁, ts₂, rfl, rfl, hread₁, hread₂⟩ := (Expr.isReading_concat hdots).1 h
      have hspells := ih hrest hfaithful hread₂
      cases hq with
      | segment a s =>
        obtain ⟨rfl, v, hv, rfl⟩ := (Expr.isReading_of_dots_eq_zero rfl).1 hread₁
        have hs : (Expr.string a s).value? b [] = some (.text s) :=
          congrArg (Option.map Value.text) (hliterals s (List.mem_singleton_self s)).canonical
        rw [hs] at hv
        cases hv
        exact .segment a s hspells
      | name a hx =>
        obtain ⟨rfl, v, hv, rfl⟩ := (Expr.isReading_of_dots_eq_zero rfl).1 hread₁
        exact .name a hv hspells
      | dot a =>
        rw [Expr.isReading_dot.1 hread₁]
        exact .dot a t₁ hspells
      | capture a a' c x =>
        rw [Expr.isReading_dot.1 (Expr.isReading_assign.1 hread₁)]
        exact .capture a a' c x t₁ hspells

/-- Where a template spells a received line in some way, spelling and reading are the same. -/
theorem isReading_iff_spells (hparts : ∀ q ∈ parts, IsPart q) (h : Spells b parts t ts)
    (ht : t.IsDecoded) {us : List Text} :
    (pattern stop parts).IsReading b t us ↔ Spells b parts t us :=
  ⟨fun hread => (h.faithful ht).spells hparts hread, fun hspells => hspells.isReading ht⟩

end Template

end WireScript
