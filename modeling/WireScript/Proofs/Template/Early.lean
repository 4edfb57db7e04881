import WireScript.Proofs.Template.Basic
import WireScript.Proofs.Pattern.Verdict

/-!
# Templates that read early

Trying a cut binds what is captured right of it, and later trials read the bindings as they are
then.  None of this shows in a template whose captured names are read before the first dot only,
since those are read once, before anything is tried.

* `exists_eval_none`: looking for a value without a text leaves all names alone, because no dot is
  captured then.
* `decided_pattern`: the pattern of a template that reads early is decided by its readings.
* `exists_execute_receive`: a receive with such a template finds the only reading of a line.
-/

namespace WireScript.Template

open Eval Memory WireScript.Expr

variable {α : Type} {clock : Clock} {b : Bindings} {t : Text} {ts names : List Text} {m : Memory}
  {stop : Location} {parts : List (Expr Span)}

/-- After a dot none of the names is read. -/
def ReadsEarly (names : List Text) (parts : List (Expr α)) : Prop :=
  parts.Pairwise fun q q' => q.dots ≠ 0 → ∀ x ∈ q'.reads, x ∉ names

/-- A part that has a value, or a dot, and nothing in it that cannot be sent. -/
structure IsSendable (b : Bindings) (q : Expr α) : Prop where
  isPart : IsPart q
  literals : ∀ s ∈ q.literals, s.isEncodable
  names : ∀ x ∈ q.reads, ∃ v, b.get? x = some v ∧ v.toText.isEncodable

theorem IsSendable.legible {q : Expr α} (h : IsSendable b q) : q.Legible b where
  isPattern := h.isPart.isPattern
  literals := h.literals
  names x hx := by
    refine ⟨?_, h.names x hx⟩
    cases h.isPart with
    | segment => cases hx
    | name a hnow => exact List.mem_singleton.1 hx ▸ hnow
    | dot => cases hx
    | capture => cases hx
  fresh x hx hmem := by
    cases h.isPart with
    | segment => cases hx
    | name => cases hmem
    | dot => cases hx
    | capture => cases hx
  nodup := by
    cases h.isPart with
    | segment => exact List.nodup_nil
    | name => exact List.nodup_nil
    | dot => exact List.nodup_nil
    | capture a a' c x => exact List.nodup_singleton x

/-- A template that reads none of the names it captures is legible. -/
theorem legible_pattern (hparts : ∀ q ∈ parts, IsSendable b q)
    (hfresh : ∀ q ∈ parts, ∀ x ∈ q.reads, x ∉ parts.flatMap targets)
    (hnodup : (parts.flatMap targets).Nodup) : (pattern stop parts).Legible b where
  isPattern := isPattern_pattern fun q hq => (hparts q hq).isPart
  literals s hs := by
    rw [literals_pattern, List.mem_append, List.mem_flatMap, List.mem_singleton] at hs
    rcases hs with ⟨q, hq, hs⟩ | rfl
    · exact (hparts q hq).literals s hs
    · exact Text.isEncodable_ofChars ['\r', '\n']
  names x hx := by
    rw [reads_pattern, List.mem_flatMap] at hx
    obtain ⟨q, hq, hx⟩ := hx
    exact (hparts q hq).legible.names x hx
  fresh x hx := by
    rw [reads_pattern, List.mem_flatMap] at hx
    obtain ⟨q, hq, hx⟩ := hx
    rw [targets_pattern]
    exact hfresh q hq x hx
  nodup := by
    rw [targets_pattern]
    exact hnodup

theorem targets_eq_nil_of_dots_eq_zero (hparts : ∀ q ∈ parts, IsPart q)
    (hdots : (pattern stop parts).dots = 0) : parts.flatMap targets = [] := by
  induction parts with
  | nil => rfl
  | cons q parts ih =>
    obtain ⟨hq, hrest⟩ := List.forall_mem_cons.1 hparts
    obtain ⟨hq0, hrest0⟩ := Nat.add_eq_zero_iff.1 hdots
    rw [List.flatMap_cons, hq.targets_eq_nil hq0, ih hrest hrest0]
    rfl

/-- A template without dots is legible. -/
theorem legible_of_dots_eq_zero (hparts : ∀ q ∈ parts, IsSendable b q)
    (hdots : (pattern stop parts).dots = 0) : (pattern stop parts).Legible b := by
  have htargets : parts.flatMap targets = [] :=
    targets_eq_nil_of_dots_eq_zero (fun q hq => (hparts q hq).isPart) hdots
  refine legible_pattern hparts ?_ ?_
  · intro q _ x _
    rw [htargets]
    exact List.not_mem_nil
  · rw [htargets]
    exact List.nodup_nil

/-! ## Without a text -/

theorem eval_none_of_dots_ne_zero {q : Expr α} (hq : IsPart q) (hdots : q.dots ≠ 0) (m : Memory) :
    q.eval clock none m = .error (.noMatch .noContext) m := by
  cases hq with
  | segment => exact absurd rfl hdots
  | name => exact absurd rfl hdots
  | dot => rfl
  | capture => rfl

/-- A template with a dot has no value without a text, and nothing is bound when it is tried. -/
theorem exists_eval_none (hparts : ∀ q ∈ parts, IsSendable b q)
    (hdots : (pattern stop parts).dots ≠ 0) (hm : Agrees b (pattern stop parts).reads m) :
    ∃ f m', (pattern stop parts).eval clock none m = .error (.noMatch f) m' ∧
      SameOff [] m m' := by
  induction parts generalizing m with
  | nil => exact absurd rfl hdots
  | cons q parts ih =>
    obtain ⟨hq, hrest⟩ := List.forall_mem_cons.1 hparts
    have hmq : Agrees b q.reads m := hm.mono fun x hx => List.mem_append_left _ hx
    have hmrest {m₁ : Memory} (hoff : SameOff [] m m₁) :
        Agrees b (pattern stop parts).reads m₁ :=
      (hm.mono fun x hx => List.mem_append_right _ hx).of_sameOff hoff fun _ _ => List.not_mem_nil
    refine ⟨.needsText, ?_⟩
    by_cases hq0 : q.dots = 0
    · obtain ⟨v, m₁, hv, _⟩ := exists_eval_of_dots_eq_zero hq.legible hq0 hmq none
      have hoff : SameOff [] m m₁ := hq.isPart.targets_eq_nil hq0 ▸ (sameOff_eval q none).of_ok hv
      have hrest0 : (pattern stop parts).dots ≠ 0 := fun h0 =>
        hdots (Nat.add_eq_zero_iff.2 ⟨hq0, h0⟩)
      obtain ⟨f, m₂, hf, hoff'⟩ := ih hrest hrest0 (hmrest hoff)
      refine ⟨m₂, ?_, (lasts_sameOff []).trans hoff hoff'⟩
      exact Matcher.concat_of_attempts (attempt_of_ok hv) (attempt_of_noMatch hf)
    · have hf : q.eval clock none m = .error (.noMatch .noContext) m :=
        eval_none_of_dots_ne_zero hq.isPart hq0 m
      by_cases hrest0 : (pattern stop parts).dots = 0
      · have htargets : (pattern stop parts).targets = [] := targets_pattern.trans
          (targets_eq_nil_of_dots_eq_zero (fun q hq => (hrest q hq).isPart) hrest0)
        obtain ⟨w, m₂, hw, _⟩ := exists_eval_of_dots_eq_zero
          (legible_of_dots_eq_zero hrest hrest0) hrest0 (hmrest fun _ _ => rfl) none
        refine ⟨m₂, ?_, htargets ▸ (sameOff_eval (pattern stop parts) none).of_ok hw⟩
        exact Matcher.concat_of_attempts (attempt_of_noMatch hf) (attempt_of_ok hw)
      · obtain ⟨f, m₂, hf', hoff⟩ := ih hrest hrest0 (hmrest fun _ _ => rfl)
        refine ⟨m₂, ?_, hoff⟩
        exact Matcher.concat_of_attempts (attempt_of_noMatch hf) (attempt_of_noMatch hf')

/-! ## With a text -/

/-- The parts before the first dot have their values from the start, and what comes after them is
legible. -/
theorem decided_pattern (hparts : ∀ q ∈ parts, IsSendable b q)
    (hdots : (pattern stop parts).dots ≠ 0) (hnodup : (parts.flatMap targets).Nodup)
    (hnames : ∀ x ∈ parts.flatMap targets, x ∈ names)
    (hearly : ReadsEarly names parts) : Decided clock b (pattern stop parts) := by
  induction parts with
  | nil => exact absurd rfl hdots
  | cons q parts ih =>
    obtain ⟨hq, hrest⟩ := List.forall_mem_cons.1 hparts
    obtain ⟨hfirst, hearly⟩ := List.pairwise_cons.1 hearly
    by_cases hq0 : q.dots = 0
    · have hrest0 : (pattern stop parts).dots ≠ 0 := fun h0 =>
        hdots (Nat.add_eq_zero_iff.2 ⟨hq0, h0⟩)
      have hdecided : Decided clock b (pattern stop parts) :=
        ih hrest hrest0 (List.nodup_append.1 hnodup).2.1
          (fun x hx => hnames x (List.mem_append_right _ hx)) hearly
      intro t m ht hm
      have hmq : Agrees b q.reads m := hm.mono fun x hx => List.mem_append_left _ hx
      obtain ⟨v, m₁, hv, hvalue, _⟩ := exists_eval_of_dots_eq_zero hq.legible hq0 hmq none
      have hoff : SameOff [] m m₁ := hq.isPart.targets_eq_nil hq0 ▸ (sameOff_eval q none).of_ok hv
      have hm₁ : Agrees b (pattern stop parts).reads m₁ :=
        (hm.mono fun x hx => List.mem_append_right _ hx).of_sameOff hoff fun _ _ => List.not_mem_nil
      obtain ⟨f, m₂, hf, hoff'⟩ := exists_eval_none hrest hrest0 hm₁
      have heval : (pattern stop (q :: parts)).eval clock (some t) m =
          Matcher.join (q.eval clock) ((pattern stop parts).eval clock) (some t) (.ok v) (.error f)
            m₂ := Matcher.concat_of_attempts (attempt_of_ok hv) (attempt_of_noMatch hf)
      rw [attempt_congr heval]
      refine exists_attempt_join_left hq0 hvalue ht f fun u hu => ?_
      obtain ⟨r, m₃, hr, hsettles⟩ :=
        hdecided u m₂ hu (hm₁.of_sameOff hoff' fun _ _ => List.not_mem_nil)
      refine ⟨r, m₃, hr, hsettles, ?_⟩
      cases hq.isPart with
      | segment => exact binds_nil m₃
      | name => exact binds_nil m₃
      | dot => cases hq0
      | capture => cases hq0
    · refine (legible_pattern hparts ?_ hnodup).decided hdots
      intro q' hq' x hx hmem
      rcases List.mem_cons.1 hq' with rfl | hq'
      · rw [(hq.isPart.of_dots_ne_zero hq0).2.1] at hx
        cases hx
      · exact hfirst q' hq' hq0 x hx (hnames x hmem)

theorem Spells.isSendable (hparts : ∀ q ∈ parts, IsPart q) (h : Spells b parts t ts)
    (ht : t.IsDecoded) : ∀ q ∈ parts, IsSendable b q := by
  have hread : (pattern default parts).IsReading b t ts := h.isReading ht
  obtain ⟨hliterals, hnames⟩ := hread.isEncodable (isPattern_pattern hparts) ht.isEncodable
  rw [literals_pattern] at hliterals
  rw [reads_pattern] at hnames
  intro q hq
  refine ⟨hparts q hq, fun s hs => ?_, fun x hx => ?_⟩
  · exact hliterals s (List.mem_append_left _ (List.mem_flatMap.2 ⟨q, hq, hs⟩))
  · exact hnames x (List.mem_flatMap.2 ⟨q, hq, hx⟩)

/-- A receive with a template that reads early finds the only way to spell a line. -/
theorem exists_execute_receive (hparts : ∀ q ∈ parts, IsPart q)
    (hnodup : (parts.flatMap targets).Nodup) (hearly : ReadsEarly (parts.flatMap targets) parts)
    {w : World} {bytes : List UInt8} {channel : Channel}
    (hline : w.channel.readLine = (.ok bytes, channel))
    (hspells : Spells w.memory.bindings parts (Utf8.decode bytes) ts)
    (hunique : ∀ us, Spells w.memory.bindings parts (Utf8.decode bytes) us → us = ts)
    (clock : Clock) (note : Span) (source : Text) :
    ∃ w', (Stmt.receive note (pattern stop parts) source).execute clock w = .ok () w' ∧
      BindsOver w.memory.bindings ((pattern stop parts).captures w.memory.bindings ts)
        w'.memory := by
  have ht : Text.IsDecoded (Utf8.decode bytes) := Text.isDecoded_decode bytes
  have hpattern : (pattern stop parts).IsPattern := isPattern_pattern hparts
  have hread : (pattern stop parts).IsReading w.memory.bindings (Utf8.decode bytes) ts :=
    hspells.isReading ht
  have hsendable := hspells.isSendable hparts ht
  -- Reading the line adds to the log only, so the match starts from the same bindings.
  have hagrees : Agrees w.memory.bindings (pattern stop parts).reads
      (Exec.heard w (Utf8.decode bytes) channel).memory := fun x _ => rfl
  have hstart : ∃ v m', ((pattern stop parts).eval clock (some (Utf8.decode bytes))).attempt
      (Exec.heard w (Utf8.decode bytes) channel).memory = .ok (.ok v) m' ∧
        v.toText = Utf8.decode bytes ∧
          Binds ((pattern stop parts).captures w.memory.bindings ts) m' := by
    by_cases hdots : (pattern stop parts).dots = 0
    · obtain ⟨rfl, u, hu, hline⟩ := (isReading_of_dots_eq_zero hdots).1 hread
      obtain ⟨v, m', hv, hvalue, _, hbinds⟩ := @exists_eval_of_dots_eq_zero _ clock _ _ _
        (legible_of_dots_eq_zero hsendable hdots) hdots hagrees (some (Utf8.decode bytes))
      rw [hu] at hvalue
      cases hvalue
      exact ⟨u, m', attempt_of_ok hv, hline, hbinds⟩
    · have hdecided : Decided clock w.memory.bindings (pattern stop parts) :=
        decided_pattern hsendable hdots hnodup (fun _ hx => hx) hearly
      obtain ⟨r, m', hmatch, hsettles⟩ := hdecided _ _ ht hagrees
      rw [candidates_of_unique hpattern hdots hread fun us hus =>
        hunique us ((isReading_iff_spells hparts hspells ht).1 hus)] at hsettles
      obtain ⟨rfl, hbinds⟩ := hsettles
      exact ⟨_, m', hmatch, rfl, hbinds⟩
  obtain ⟨v, m', hmatch, hv, hbinds⟩ := hstart
  refine ⟨{ memory := m', channel := channel }, ?_, ?_⟩
  · rw [Stmt.execute_receive_of_attempt hline hmatch, Exec.judge_of_toText hv]
  · have hover : BindsOver (Exec.heard w (Utf8.decode bytes) channel).memory.bindings
        ((pattern stop parts).captures w.memory.bindings ts) m' :=
      bindsOver_captures hpattern hmatch hread hbinds
    exact hover

end WireScript.Template
