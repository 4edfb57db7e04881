import Mathlib.Data.List.Range
import WireScript.Proofs.Pattern.Basic

/-!
# The search for a reading

Which of the readings of a text the search for a split finds.  `candidates` says it without memory
and without effects: sides without dots are taken off the ends of the text, and at the first
concatenation with a dot on both sides every cut of what is left counts once, if each side has
exactly one candidate of its own there.  A match succeeds when there is one candidate in the end.

Not every reading is a candidate: a cut at which one side is ambiguous by itself does not count.
`Counts` says this as a condition on the readings alone.  The main statements say what can be relied
on nevertheless.

* Every candidate is a reading (`isReading_of_mem_candidates`), and no two of them are the same
  (`nodup_candidates`), so two candidates mean two readings.
* A text with one reading only has it as its only candidate (`candidates_of_unique`).
* A pattern with at most two dots has all its readings as candidates
  (`mem_candidates_of_dots_le_two`).
* In general the candidates are the readings that count (`mem_candidates_iff_counts`).
-/

namespace WireScript.Expr

variable {α : Type} {b : Bindings} {t : Text} {ts : List Text}

/-- What two sides make of a cut: a reading, if each of them has one candidate. -/
def meet : List (List Text) → List (List Text) → Option (List Text)
  | [ts], [us] => some (ts ++ us)
  | _, _ => none

/-- The readings of a text that the search for a split counts. -/
def candidates (b : Bindings) : Expr α → Text → List (List Text)
  | dot _, t => [[t]]
  | concat _ l r, t =>
    if l.dots = 0 then
      match l.value? b [] with
      | some v =>
        if v.toText.isPrefixOf t then r.candidates b (t.drop v.toText.length) else []
      | none => []
    else if r.dots = 0 then
      match r.value? b [] with
      | some v =>
        if v.toText.isSuffixOf t then l.candidates b (t.take (t.length - v.toText.length)) else []
      | none => []
    else
      (List.range (t.length + 1)).filterMap fun k =>
        meet (l.candidates b (t.take k)) (r.candidates b (t.drop k))
  | assign _ _ _ e, t => e.candidates b t
  | _, _ => []

/-- The reading that a cut between two parts counts for, if it counts. -/
def atCut (b : Bindings) (l r : Expr α) (t : Text) (k : Nat) : Option (List Text) :=
  meet (l.candidates b (t.take k)) (r.candidates b (t.drop k))

/-- A cut counts if each side has one candidate there. -/
theorem atCut_eq_some_iff {l r : Expr α} {k : Nat} :
    atCut b l r t k = some ts ↔
      ∃ us vs, l.candidates b (t.take k) = [us] ∧ r.candidates b (t.drop k) = [vs] ∧
        ts = us ++ vs := by
  unfold atCut
  constructor
  · intro h
    unfold meet at h
    split at h
    · rename_i us vs hus hvs
      cases h
      exact ⟨us, vs, hus, hvs, rfl⟩
    · cases h
  · rintro ⟨us, vs, hus, hvs, rfl⟩
    rw [hus, hvs, meet]

section Concat

variable {a : α} {l r : Expr α}

theorem candidates_left_fixed (hl : l.dots = 0) {v : Value} (hv : l.value? b [] = some v) :
    candidates b (.concat a l r) (v.toText ++ t) = r.candidates b t := by
  rw [candidates, if_pos hl]
  simp only [hv]
  rw [if_pos (List.isPrefixOf_iff_prefix.2 (List.prefix_append _ _)), List.drop_left]

theorem candidates_right_fixed (hl : l.dots ≠ 0) (hr : r.dots = 0) {v : Value}
    (hv : r.value? b [] = some v) :
    candidates b (.concat a l r) (t ++ v.toText) = l.candidates b t := by
  rw [candidates, if_neg hl, if_pos hr]
  simp only [hv]
  rw [if_pos (List.isSuffixOf_iff_suffix.2 (List.suffix_append _ _)), List.length_append,
    Nat.add_sub_cancel, List.take_left]

theorem candidates_search (hl : l.dots ≠ 0) (hr : r.dots ≠ 0) (t : Text) :
    candidates b (.concat a l r) t = (List.range (t.length + 1)).filterMap (atCut b l r t) := by
  rw [candidates, if_neg hl, if_neg hr]
  rfl

/-- Where the left side is fixed, it is taken off the start of the text. -/
theorem mem_candidates_left_fixed (hl : l.dots = 0) :
    ts ∈ candidates b (.concat a l r) t ↔
      ∃ t₁ t₂, t = t₁ ++ t₂ ∧ l.IsReading b t₁ [] ∧ ts ∈ r.candidates b t₂ := by
  constructor
  · intro h
    rw [candidates, if_pos hl] at h
    split at h
    · rename_i v hv
      split at h
      · rename_i hpre
        have hcut := List.prefix_iff_eq_append.1 (List.isPrefixOf_iff_prefix.1 hpre)
        exact ⟨v.toText, _, hcut.symm, (isReading_of_dots_eq_zero hl).2 ⟨rfl, v, hv, rfl⟩, h⟩
      · simp at h
    · simp at h
  · rintro ⟨t₁, t₂, rfl, hread, hts⟩
    obtain ⟨_, v, hv, rfl⟩ := (isReading_of_dots_eq_zero hl).1 hread
    rwa [candidates_left_fixed hl hv]

/-- Where the right side is fixed, it is taken off the end of the text. -/
theorem mem_candidates_right_fixed (hl : l.dots ≠ 0) (hr : r.dots = 0) :
    ts ∈ candidates b (.concat a l r) t ↔
      ∃ t₁ t₂, t = t₁ ++ t₂ ∧ ts ∈ l.candidates b t₁ ∧ r.IsReading b t₂ [] := by
  constructor
  · intro h
    rw [candidates, if_neg hl, if_pos hr] at h
    split at h
    · rename_i v hv
      split at h
      · rename_i hsuf
        have hcut := List.suffix_iff_eq_append.1 (List.isSuffixOf_iff_suffix.1 hsuf)
        exact ⟨_, v.toText, hcut.symm, h, (isReading_of_dots_eq_zero hr).2 ⟨rfl, v, hv, rfl⟩⟩
      · simp at h
    · simp at h
  · rintro ⟨t₁, t₂, rfl, hts, hread⟩
    obtain ⟨_, v, hv, rfl⟩ := (isReading_of_dots_eq_zero hr).1 hread
    rwa [candidates_right_fixed hl hr hv]

/-- Where both sides have dots, a candidate is one candidate of each side, the only one it has. -/
theorem mem_candidates_search (hl : l.dots ≠ 0) (hr : r.dots ≠ 0) :
    ts ∈ candidates b (.concat a l r) t ↔
      ∃ t₁ t₂ us vs, t = t₁ ++ t₂ ∧ l.candidates b t₁ = [us] ∧ r.candidates b t₂ = [vs] ∧
        ts = us ++ vs := by
  rw [candidates_search hl hr, List.mem_filterMap]
  constructor
  · rintro ⟨k, _, hcut⟩
    obtain ⟨us, vs, hus, hvs, heq⟩ := atCut_eq_some_iff.1 hcut
    exact ⟨t.take k, t.drop k, us, vs, (List.take_append_drop k t).symm, hus, hvs, heq⟩
  · rintro ⟨t₁, t₂, us, vs, rfl, hus, hvs, rfl⟩
    refine ⟨t₁.length, List.mem_range.2 (by rw [List.length_append]; omega), ?_⟩
    rw [atCut, List.take_left, List.drop_left, hus, hvs, meet]

end Concat

/-- The search never comes to a part without dots. -/
theorem candidates_of_dots_eq_zero {p : Expr α} (hp : p.IsPattern) (h : p.dots = 0) :
    p.candidates b t = [] := by
  induction hp generalizing t with
  | integer | string | name => rfl
  | dot => simp [dots] at h
  | @concat a l r _ _ _ ihr =>
    have hr : r.dots = 0 := (Nat.add_eq_zero_iff.1 h).2
    refine List.eq_nil_iff_forall_not_mem.2 fun ts hts => ?_
    obtain ⟨_, _, _, _, hmem⟩ := (mem_candidates_left_fixed (Nat.add_eq_zero_iff.1 h).1).1 hts
    rw [ihr hr] at hmem
    cases hmem
  | assign a a' x _ ih => exact ih h

/-! ## Candidates are readings -/

/-- Every candidate is a reading. -/
theorem isReading_of_mem_candidates {p : Expr α} (hp : p.IsPattern)
    (h : ts ∈ p.candidates b t) : p.IsReading b t ts := by
  induction hp generalizing t ts with
  | integer | string | name => simp [candidates] at h
  | dot a =>
    rw [candidates, List.mem_singleton] at h
    exact isReading_dot.2 h
  | @concat a l r hpl hpr ihl ihr =>
    by_cases hl : l.dots = 0
    · obtain ⟨t₁, t₂, rfl, hread, hts⟩ := (mem_candidates_left_fixed hl).1 h
      by_cases hr : r.dots = 0
      · rw [candidates_of_dots_eq_zero hpr hr] at hts
        cases hts
      · exact (isReading_concat (by omega)).2 ⟨t₁, t₂, [], ts, rfl, rfl, hread, ihr hts⟩
    · by_cases hr : r.dots = 0
      · obtain ⟨t₁, t₂, rfl, hts, hread⟩ := (mem_candidates_right_fixed hl hr).1 h
        exact (isReading_concat (by omega)).2
          ⟨t₁, t₂, ts, [], rfl, (List.append_nil ts).symm, ihl hts, hread⟩
      · obtain ⟨t₁, t₂, us, vs, rfl, hus, hvs, rfl⟩ := (mem_candidates_search hl hr).1 h
        refine (isReading_concat (by omega)).2 ⟨t₁, t₂, us, vs, rfl, rfl, ?_, ?_⟩
        · exact ihl (hus ▸ List.mem_singleton_self us)
        · exact ihr (hvs ▸ List.mem_singleton_self vs)
  | assign a a' x _ ih => exact ih h

/-- Different cuts count for different readings: the texts of the dots on the left tell how long
the left part is. -/
theorem cut_eq_of_atCut_eq {l r : Expr α} (hl : l.IsPattern) {j k : Nat} (hj : j ≤ t.length)
    (hk : k ≤ t.length) (htj : atCut b l r t j = some ts) (htk : atCut b l r t k = some ts) :
    j = k := by
  obtain ⟨us, vs, hus, _, rfl⟩ := atCut_eq_some_iff.1 htj
  obtain ⟨us', vs', hus', _, heq⟩ := atCut_eq_some_iff.1 htk
  have hread : l.IsReading b (t.take j) us :=
    isReading_of_mem_candidates hl (hus ▸ List.mem_singleton_self us)
  have hread' : l.IsReading b (t.take k) us' :=
    isReading_of_mem_candidates hl (hus' ▸ List.mem_singleton_self us')
  have hsame : us = us' :=
    (List.append_inj heq (hread.length_eq.trans hread'.length_eq.symm)).1
  have hcut : t.take j = t.take k := hread.unique (hsame ▸ hread')
  have hlen := congrArg List.length hcut
  rw [List.length_take, List.length_take] at hlen
  omega

/-- No two candidates are the same reading. -/
theorem nodup_candidates {p : Expr α} (hp : p.IsPattern) : (p.candidates b t).Nodup := by
  induction hp generalizing t with
  | integer | string | name => exact List.nodup_nil
  | dot => exact List.nodup_singleton _
  | @concat a l r hpl hpr ihl ihr =>
    by_cases hl : l.dots = 0
    · rw [candidates, if_pos hl]
      split
      · split
        · exact ihr
        · exact List.nodup_nil
      · exact List.nodup_nil
    · by_cases hr : r.dots = 0
      · rw [candidates, if_neg hl, if_pos hr]
        split
        · split
          · exact ihl
          · exact List.nodup_nil
        · exact List.nodup_nil
      · rw [candidates_search hl hr, List.Nodup, List.pairwise_filterMap]
        refine List.pairwise_lt_range.imp_of_mem fun {j k} hj hk hlt us hus vs hvs heq => ?_
        rw [List.mem_range] at hj hk
        subst heq
        have hjk := cut_eq_of_atCut_eq hpl (by omega) (by omega) hus hvs
        omega
  | assign a a' x _ ih => exact ih

/-- There is one candidate only if no other one differs from it. -/
theorem candidates_eq_singleton_iff {p : Expr α} (hp : p.IsPattern) :
    p.candidates b t = [ts] ↔
      ts ∈ p.candidates b t ∧ ∀ us ∈ p.candidates b t, us = ts := by
  constructor
  · intro h
    rw [h]
    exact ⟨List.mem_singleton_self ts, fun us hus => List.mem_singleton.1 hus⟩
  · rintro ⟨hmem, hall⟩
    have hpos := List.length_pos_of_mem hmem
    have hle : (p.candidates b t).length ≤ 1 := by
      have hnodup : (p.candidates b t).Nodup := nodup_candidates hp
      rwa [List.eq_replicate_of_mem hall, List.nodup_replicate] at hnodup
    have hone : (p.candidates b t).length = 1 := by omega
    rw [List.eq_replicate_of_mem hall, hone]
    rfl

/-! ## Readings that are candidates -/

/-- A text with one reading only has it as its only candidate: each part of it has one reading too,
since any other one would be part of another reading of the whole. -/
theorem candidates_of_unique {p : Expr α} (hp : p.IsPattern) (hdots : p.dots ≠ 0)
    (hread : p.IsReading b t ts) (hunique : ∀ us, p.IsReading b t us → us = ts) :
    p.candidates b t = [ts] := by
  induction hp generalizing t ts with
  | integer | string | name => exact absurd rfl hdots
  | dot => rw [candidates, isReading_dot.1 hread]
  | @concat a l r hpl hpr ihl ihr =>
    obtain ⟨t₁, t₂, ts₁, ts₂, rfl, rfl, hread₁, hread₂⟩ := (isReading_concat hdots).1 hread
    have hunique₁ : ∀ us, l.IsReading b t₁ us → us = ts₁ := by
      intro us hus
      have hboth := hunique _ ((isReading_concat hdots).2 ⟨_, _, _, _, rfl, rfl, hus, hread₂⟩)
      exact List.append_cancel_right hboth
    have hunique₂ : ∀ us, r.IsReading b t₂ us → us = ts₂ := by
      intro us hus
      have hboth := hunique _ ((isReading_concat hdots).2 ⟨_, _, _, _, rfl, rfl, hread₁, hus⟩)
      exact List.append_cancel_left hboth
    by_cases hl : l.dots = 0
    · have hr : r.dots ≠ 0 := by
        simp only [dots, hl] at hdots
        omega
      obtain ⟨rfl, v, hv, rfl⟩ := (isReading_of_dots_eq_zero hl).1 hread₁
      rw [candidates_left_fixed hl hv, ihr hr hread₂ hunique₂, List.nil_append]
    · by_cases hr : r.dots = 0
      · obtain ⟨rfl, w, hw, rfl⟩ := (isReading_of_dots_eq_zero hr).1 hread₂
        rw [candidates_right_fixed hl hr hw, ihl hl hread₁ hunique₁, List.append_nil]
      · have hmem : ts₁ ++ ts₂ ∈ candidates b (.concat a l r) (t₁ ++ t₂) :=
          (mem_candidates_search hl hr).2 ⟨t₁, t₂, ts₁, ts₂, rfl, ihl hl hread₁ hunique₁,
            ihr hr hread₂ hunique₂, rfl⟩
        exact (candidates_eq_singleton_iff (.concat a hpl hpr)).2
          ⟨hmem, fun us hus => hunique us (isReading_of_mem_candidates (.concat a hpl hpr) hus)⟩
  | assign a a' x _ ih => exact ih hdots hread hunique

/-- With a single dot there is nothing to choose. -/
theorem IsReading.unique_of_dots_eq_one {p : Expr α} (hp : p.IsPattern) (hdots : p.dots = 1)
    {us : List Text} (h : p.IsReading b t ts) (h' : p.IsReading b t us) : us = ts := by
  induction hp generalizing t ts us with
  | integer | string | name => simp [dots] at hdots
  | dot => rw [isReading_dot.1 h, isReading_dot.1 h']
  | @concat a l r _ _ ihl ihr =>
    simp only [dots] at hdots
    obtain ⟨t₁, t₂, ts₁, ts₂, rfl, rfl, h₁, h₂⟩ := (isReading_concat (by omega)).1 h
    obtain ⟨u₁, u₂, us₁, us₂, hcut, rfl, h₁', h₂'⟩ := (isReading_concat (by omega)).1 h'
    by_cases hl : l.dots = 0
    · obtain ⟨rfl, v, hv, rfl⟩ := (isReading_of_dots_eq_zero hl).1 h₁
      obtain ⟨rfl, w, hw, rfl⟩ := (isReading_of_dots_eq_zero hl).1 h₁'
      rw [hv] at hw
      cases hw
      rw [List.append_cancel_left hcut] at h₂
      rw [ihr (by omega) h₂ h₂']
    · have hr : r.dots = 0 := by omega
      obtain ⟨rfl, v, hv, rfl⟩ := (isReading_of_dots_eq_zero hr).1 h₂
      obtain ⟨rfl, w, hw, rfl⟩ := (isReading_of_dots_eq_zero hr).1 h₂'
      rw [hv] at hw
      cases hw
      rw [List.append_cancel_right hcut] at h₁
      rw [ihl (by omega) h₁ h₁']
  | assign a a' x _ ih => exact ih hdots h h'

/-- With at most two dots every reading counts: at the cut between them, each side has a single
dot. -/
theorem mem_candidates_of_dots_le_two {p : Expr α} (hp : p.IsPattern) (hdots : p.dots ≠ 0)
    (htwo : p.dots ≤ 2) (hread : p.IsReading b t ts) : ts ∈ p.candidates b t := by
  induction hp generalizing t ts with
  | integer | string | name => exact absurd rfl hdots
  | dot => rw [isReading_dot.1 hread, candidates, List.mem_singleton]
  | @concat a l r hpl hpr ihl ihr =>
    obtain ⟨t₁, t₂, ts₁, ts₂, rfl, rfl, hread₁, hread₂⟩ := (isReading_concat hdots).1 hread
    simp only [dots] at hdots htwo
    by_cases hl : l.dots = 0
    · obtain ⟨rfl, _⟩ := (isReading_of_dots_eq_zero hl).1 hread₁
      have hmem : ts₂ ∈ r.candidates b t₂ := ihr (by omega) (by omega) hread₂
      exact (mem_candidates_left_fixed hl).2 ⟨t₁, t₂, rfl, hread₁, hmem⟩
    · by_cases hr : r.dots = 0
      · obtain ⟨rfl, _⟩ := (isReading_of_dots_eq_zero hr).1 hread₂
        have hmem : ts₁ ∈ l.candidates b t₁ := ihl (by omega) (by omega) hread₁
        rw [List.append_nil]
        exact (mem_candidates_right_fixed hl hr).2 ⟨t₁, t₂, rfl, hmem, hread₂⟩
      · have hone₁ : l.candidates b t₁ = [ts₁] := candidates_of_unique hpl hl hread₁
          fun us hus => hread₁.unique_of_dots_eq_one hpl (by omega) hus
        have hone₂ : r.candidates b t₂ = [ts₂] := candidates_of_unique hpr hr hread₂
          fun us hus => hread₂.unique_of_dots_eq_one hpr (by omega) hus
        exact (mem_candidates_search hl hr).2 ⟨t₁, t₂, ts₁, ts₂, rfl, hone₁, hone₂, rfl⟩
  | assign a a' x _ ih => exact ih hdots htwo hread

/-! ## Readings that count -/

/-- The readings that count, without a search: wherever both sides of a concatenation have dots, the
reading of each side is the only one of that part that counts. -/
def Counts (b : Bindings) : Expr α → Text → List Text → Prop
  | concat a l r, t, ts =>
    if l.dots + r.dots = 0 then IsReading b (.concat a l r) t ts
    else ∃ t₁ t₂ ts₁ ts₂, t = t₁ ++ t₂ ∧ ts = ts₁ ++ ts₂ ∧
      l.Counts b t₁ ts₁ ∧ r.Counts b t₂ ts₂ ∧
      (l.dots ≠ 0 → r.dots ≠ 0 →
        (∀ us, l.Counts b t₁ us → us = ts₁) ∧ ∀ us, r.Counts b t₂ us → us = ts₂)
  | assign _ _ _ e, t, ts => e.Counts b t ts
  | e, t, ts => e.IsReading b t ts

theorem counts_of_dots_eq_zero {p : Expr α} (hp : p.IsPattern) (hdots : p.dots = 0) :
    p.Counts b t ts ↔ p.IsReading b t ts := by
  induction hp generalizing t ts with
  | integer | string | name | dot => exact Iff.rfl
  | concat a _ _ =>
    rw [dots] at hdots
    rw [Counts, if_pos hdots]
  | assign a a' x _ ih => exact ih hdots

/-- The search finds the readings that count. -/
theorem mem_candidates_iff_counts {p : Expr α} (hp : p.IsPattern) (hdots : p.dots ≠ 0) :
    ts ∈ p.candidates b t ↔ p.Counts b t ts := by
  induction hp generalizing t ts with
  | integer | string | name => exact absurd rfl hdots
  | dot => exact List.mem_singleton.trans isReading_dot.symm
  | @concat a l r hpl hpr ihl ihr =>
    rw [dots] at hdots
    rw [Counts, if_neg hdots]
    by_cases hl : l.dots = 0
    · have hr : r.dots ≠ 0 := by omega
      rw [mem_candidates_left_fixed hl]
      constructor
      · rintro ⟨t₁, t₂, rfl, hread, hts⟩
        exact ⟨t₁, t₂, [], ts, rfl, rfl, (counts_of_dots_eq_zero hpl hl).2 hread, (ihr hr).1 hts,
          fun hne => absurd hl hne⟩
      · rintro ⟨t₁, t₂, ts₁, ts₂, rfl, rfl, hcount₁, hcount₂, _⟩
        have hread := (counts_of_dots_eq_zero hpl hl).1 hcount₁
        obtain ⟨rfl, _⟩ := (isReading_of_dots_eq_zero hl).1 hread
        exact ⟨t₁, t₂, rfl, hread, (ihr hr).2 hcount₂⟩
    · by_cases hr : r.dots = 0
      · rw [mem_candidates_right_fixed hl hr]
        constructor
        · rintro ⟨t₁, t₂, rfl, hts, hread⟩
          exact ⟨t₁, t₂, ts, [], rfl, (List.append_nil ts).symm, (ihl hl).1 hts,
            (counts_of_dots_eq_zero hpr hr).2 hread, fun _ hne => absurd hr hne⟩
        · rintro ⟨t₁, t₂, ts₁, ts₂, rfl, rfl, hcount₁, hcount₂, _⟩
          have hread := (counts_of_dots_eq_zero hpr hr).1 hcount₂
          obtain ⟨rfl, _⟩ := (isReading_of_dots_eq_zero hr).1 hread
          rw [List.append_nil]
          exact ⟨t₁, t₂, rfl, (ihl hl).2 hcount₁, hread⟩
      · simp only [mem_candidates_search hl hr, candidates_eq_singleton_iff hpl,
          candidates_eq_singleton_iff hpr, ihl hl, ihr hr]
        constructor
        · rintro ⟨t₁, t₂, us, vs, rfl, ⟨hcount₁, hsole₁⟩, ⟨hcount₂, hsole₂⟩, rfl⟩
          exact ⟨t₁, t₂, us, vs, rfl, rfl, hcount₁, hcount₂, fun _ _ => ⟨hsole₁, hsole₂⟩⟩
        · rintro ⟨t₁, t₂, us, vs, rfl, rfl, hcount₁, hcount₂, hsole⟩
          obtain ⟨hsole₁, hsole₂⟩ := hsole hl hr
          exact ⟨t₁, t₂, us, vs, rfl, ⟨hcount₁, hsole₁⟩, ⟨hcount₂, hsole₂⟩, rfl⟩
  | assign a a' x _ ih => exact ih hdots

/-- Several readings count. -/
def Ambiguous (b : Bindings) (p : Expr α) (t : Text) : Prop :=
  ∃ ts us, ts ≠ us ∧ p.Counts b t ts ∧ p.Counts b t us

theorem ambiguous_iff_two_le_length {p : Expr α} (hp : p.IsPattern) (hdots : p.dots ≠ 0) :
    p.Ambiguous b t ↔ 2 ≤ (p.candidates b t).length := by
  have hnodup : (p.candidates b t).Nodup := nodup_candidates hp
  simp only [Ambiguous, ← mem_candidates_iff_counts hp hdots]
  generalize p.candidates b t = cs at hnodup ⊢
  constructor
  · rintro ⟨ts, us, hne, hts, hus⟩
    match cs with
    | [] => cases hts
    | [vs] => exact absurd ((List.mem_singleton.1 hts).trans (List.mem_singleton.1 hus).symm) hne
    | _ :: _ :: _ => simp
  · intro hlen
    match cs with
    | [] => simp at hlen
    | [vs] => simp at hlen
    | ts :: us :: _ =>
      refine ⟨ts, us, ?_, List.mem_cons_self, List.mem_cons_of_mem _ List.mem_cons_self⟩
      rintro rfl
      exact (List.nodup_cons.1 hnodup).1 List.mem_cons_self

end WireScript.Expr
