import WireScript.Proofs.Template.Gate

/-!
# Which templates find what they spell

A receive with a template should find the only way to spell a line.  Whether it does depends on the
order of the names and the dots: it does for all segments, bindings and lines exactly if no captured
name is read after the first dot (`findsReadings_iff_readsEarly`).

One half is `exists_execute_receive`.  For the other half `exists_not_findsReadings` puts segments
around the last captured name that is read late, and binds the names so that it alone has a value.
-/

namespace WireScript.Template

open Eval Memory WireScript.Expr

variable {b : Bindings} {t u : Text} {ts us : List Text} {x : Text} {stop : Location}
  {parts rest : List (Expr Span)}

/-- Whether a part is a literal segment. -/
def isSegment {α : Type} : Expr α → Bool
  | .string .. => true
  | _ => false

/-- The parts of a template that are embedded between its segments. -/
def embedded (parts : List (Expr Span)) : List (Expr Span) :=
  parts.filter fun q => !isSegment q

/-- Whenever a received line is spelled by a template in one way only, the receive ends well, with
the captured names bound to their texts and all other names as before. -/
def FindsReadings (parts : List (Expr Span)) : Prop :=
  ∀ (clock : Clock) (note : Span) (stop : Location) (source : Text) (w : World)
    (bytes : List UInt8) (channel : Channel) (ts : List Text),
    w.channel.readLine = (.ok bytes, channel) →
    Spells w.memory.bindings parts (Utf8.decode bytes) ts →
    (∀ us, Spells w.memory.bindings parts (Utf8.decode bytes) us → us = ts) →
    ∃ w', (Stmt.receive note (pattern stop parts) source).execute clock w = .ok () w' ∧
      BindsOver w.memory.bindings ((pattern stop parts).captures w.memory.bindings ts) w'.memory

/-! ## A line that leaves every dot empty -/

/-- The lengths of the texts are what the lengths of two lines of a template differ in. -/
theorem Spells.length_add (h : Spells b parts t ts) (h' : Spells b parts u us) :
    t.length + us.flatten.length = u.length + ts.flatten.length := by
  induction h generalizing u us with
  | stop =>
    cases h'
    rfl
  | segment a s _ ih =>
    cases h' with
    | segment _ _ h' =>
      have hrest := ih h'
      simp only [List.length_append]
      omega
  | name a hx _ ih =>
    cases h' with
    | name _ hx' h' =>
      rw [hx] at hx'
      cases hx'
      have hrest := ih h'
      simp only [List.length_append]
      omega
  | dot a v _ ih =>
    cases h' with
    | dot _ v' h' =>
      have hrest := ih h'
      simp only [List.length_append, List.flatten_cons]
      omega
  | capture a a' c y v _ ih =>
    cases h' with
    | capture _ _ _ _ v' h' =>
      have hrest := ih h'
      simp only [List.length_append, List.flatten_cons]
      omega

/-- A line that leaves every dot empty is spelled in no other way. -/
theorem Spells.unique_of_empty (h : Spells b parts t ts) (hts : ∀ v ∈ ts, v = [])
    (h' : Spells b parts t us) : us = ts := by
  have hsum := h.length_add h'
  rw [List.flatten_eq_nil_iff.2 hts, List.length_nil] at hsum
  have hflat : us.flatten = [] := List.length_eq_zero_iff.1 (by omega)
  have hdots : ts.length = (pattern default parts).dots := h.length_eq
  have hlen : us.length = ts.length := h'.length_eq.trans hdots.symm
  have hus : ∀ v ∈ us, v = [] := List.flatten_eq_nil_iff.1 hflat
  rw [List.eq_replicate_of_mem hts, List.eq_replicate_of_mem hus, hlen]

/-- The parts in front of a template add nothing to its line but the values of their names, here one
letter several times. -/
theorem Spells.exists_front (bound : Nat) (h : Spells b rest t ts) (hparts : ∀ q ∈ parts, IsPart q)
    (hsegments : ∀ q ∈ parts, isSegment q = false)
    (hvalues : ∀ q ∈ parts, ∀ y ∈ q.reads, ∃ n ≤ bound,
      b.get? y = some (.text (List.replicate n (.scalar 'c')))) :
    ∃ n ≤ bound * parts.length, ∃ us, (∀ v ∈ us, v = []) ∧
      Spells b (parts ++ rest) (List.replicate n (.scalar 'c') ++ t) (us ++ ts) := by
  induction parts with
  | nil => exact ⟨0, Nat.zero_le _, [], by simp, h⟩
  | cons q parts ih =>
    obtain ⟨hq, hparts⟩ := List.forall_mem_cons.1 hparts
    obtain ⟨hsegment, hsegments⟩ := List.forall_mem_cons.1 hsegments
    obtain ⟨hvalue, hvalues⟩ := List.forall_mem_cons.1 hvalues
    obtain ⟨n, hn, us, hus, hspells⟩ := ih hparts hsegments hvalues
    have hle : n ≤ bound * (q :: parts).length := by
      rw [List.length_cons, Nat.mul_succ]
      omega
    cases hq with
    | segment a s => cases hsegment
    | name a hx =>
      obtain ⟨k, hk, hv⟩ := hvalue _ List.mem_cons_self
      refine ⟨k + n, ?_, us, hus, ?_⟩
      · rw [List.length_cons, Nat.mul_succ]
        omega
      · rw [← List.replicate_append_replicate, List.append_assoc]
        exact .name a hv hspells
    | dot a =>
      refine ⟨n, hle, [] :: us, List.forall_mem_cons.2 ⟨rfl, hus⟩, ?_⟩
      exact .dot a [] hspells
    | capture a a' c y =>
      refine ⟨n, hle, [] :: us, List.forall_mem_cons.2 ⟨rfl, hus⟩, ?_⟩
      exact .capture a a' c y [] hspells

/-- What is captured with empty texts is empty. -/
theorem captures_of_empty (hparts : ∀ q ∈ parts, IsPart q) (hts : ∀ v ∈ ts, v = []) :
    ∀ e ∈ (pattern stop parts).captures b ts, e.2 = .text [] := by
  induction parts generalizing ts with
  | nil => simp [pattern, LineParser.template, captures]
  | cons q parts ih =>
    obtain ⟨hq, hparts⟩ := List.forall_mem_cons.1 hparts
    intro e he
    rcases List.mem_append.1 he with he | he
    · cases hq with
      | segment => cases he
      | name => cases he
      | dot => cases he
      | capture a a' c y =>
        cases ts with
        | nil => simp [captures, value?] at he
        | cons v ts =>
          obtain ⟨rfl, _⟩ := List.forall_mem_cons.1 hts
          have heq : e = (y, .text []) := by simpa [captures, value?, dots] using he
          rw [heq]
    · exact ih hparts (fun v hv => hts v (List.mem_of_mem_drop hv)) e he

/-! ## The last name that is read late -/

/-- What some element of a list satisfies, some last element satisfies. -/
theorem exists_last {α : Type} {P : α → Prop} {l : List α} (h : ∃ a ∈ l, P a) :
    ∃ pre a post, l = pre ++ a :: post ∧ P a ∧ ∀ c ∈ post, ¬ P c := by
  induction l with
  | nil => simp at h
  | cons c l ih =>
    by_cases hlater : ∃ a ∈ l, P a
    · obtain ⟨pre, a, post, rfl, ha, hpost⟩ := ih hlater
      exact ⟨c :: pre, a, post, rfl, ha, hpost⟩
    · obtain ⟨a, ha, hP⟩ := h
      rcases List.mem_cons.1 ha with rfl | ha
      · exact ⟨[], a, l, rfl, hP, fun c hc hPc => hlater ⟨c, hc, hPc⟩⟩
      · exact absurd ⟨a, ha, hP⟩ hlater

/-- If some name is read late, then there is a last one that is captured, and a dot before it. -/
theorem exists_late_name (hparts : ∀ q ∈ parts, IsPart q)
    (hlate : ¬ ReadsEarly (parts.flatMap targets) parts) :
    ∃ pre a x γ, parts = pre ++ .name a x :: γ ∧ x ≠ nowName ∧ x ∈ parts.flatMap targets ∧
      (∀ q ∈ γ, ∀ y ∈ q.reads, y ∉ parts.flatMap targets) ∧ ∃ q ∈ pre, q.dots ≠ 0 := by
  have hsome : ∃ q ∈ parts, ∃ y ∈ q.reads, y ∈ parts.flatMap targets := by
    by_contra hnone
    refine hlate (List.pairwise_of_forall_mem_list fun q _ q' hq' _ y hy hmem => ?_)
    exact hnone ⟨q', hq', y, hy, hmem⟩
  obtain ⟨pre, q, γ, heq, ⟨y, hy, hmem⟩, hγ⟩ := exists_last hsome
  generalize parts.flatMap targets = names at hlate hmem hγ ⊢
  subst heq
  cases hparts q (List.mem_append_right _ List.mem_cons_self) with
  | segment => cases hy
  | dot => cases hy
  | capture => cases hy
  | @name a x hx =>
    obtain rfl := List.mem_singleton.1 hy
    have hγ' : ∀ q ∈ γ, ∀ y ∈ q.reads, y ∉ names := fun q hq y hy hmem => hγ q hq ⟨y, hy, hmem⟩
    refine ⟨pre, a, y, γ, rfl, hx, hmem, hγ', ?_⟩
    by_contra hnodot
    have hpre : ∀ q ∈ pre, q.dots = 0 := by
      intro q hq
      by_contra hne
      exact hnodot ⟨q, hq, hne⟩
    refine hlate (List.pairwise_append.2 ⟨?_, List.pairwise_cons.2 ⟨?_, ?_⟩, ?_⟩)
    · exact List.pairwise_of_forall_mem_list fun q hq _ _ hdot => absurd (hpre q hq) hdot
    · exact fun q _ hdot => absurd rfl hdot
    · exact List.pairwise_of_forall_mem_list fun _ _ q' hq' _ => hγ' q' hq'
    · exact fun q hq q' _ hdot => absurd (hpre q hq) hdot

/-- Bindings that give one name the value that is held and others an empty one. -/
def lateBindings (x : Text) (names : List Text) : Bindings :=
  (x, .text held) :: names.map fun y => (y, .text [])

theorem get?_lateBindings_self (x : Text) (names : List Text) :
    (lateBindings x names).get? x = some (.text held) := by
  rw [lateBindings, Bindings.get?_cons, if_pos rfl]

theorem get?_lateBindings_of_ne {names : List Text} {y : Text} (hne : y ≠ x) (hy : y ∈ names) :
    (lateBindings x names).get? y = some (.text []) := by
  rw [lateBindings, Bindings.get?_cons, if_neg hne.symm]
  induction names with
  | nil => cases hy
  | cons z names ih =>
    rw [List.map_cons, Bindings.get?_cons]
    by_cases hz : z = y
    · rw [if_pos hz]
    · rw [if_neg hz]
      exact ih ((List.mem_cons.1 hy).resolve_left fun h => hz h.symm)

/-- Names without a value spell nothing. -/
theorem exists_spells_lineEnd (hparts : ∀ q ∈ parts, IsPart q)
    (hsegments : ∀ q ∈ parts, isSegment q = false)
    (hvalues : ∀ q ∈ parts, ∀ y ∈ q.reads, b.get? y = some (.text [])) :
    ∃ ts, (∀ v ∈ ts, v = []) ∧ Spells b parts lineEnd ts := by
  obtain ⟨n, hn, ts, hts, hspells⟩ := Spells.stop.exists_front 0 hparts hsegments
    fun q hq y hy => ⟨0, Nat.le_refl 0, hvalues q hq y hy⟩
  have hn0 : n = 0 := by omega
  rw [hn0, List.replicate_zero, List.nil_append, List.append_nil, List.append_nil] at hspells
  exact ⟨ts, hts, hspells⟩

/-- The line of a template with a gate can be sent as bytes without a line feed before its end. -/
theorem exists_bytes (n : Nat) : ∃ front : List UInt8, (∀ c ∈ front, c ≠ 0x0A) ∧
    Utf8.decode (front ++ [0x0D, 0x0A]) = List.replicate n (.scalar 'c') ++ gateLine := by
  have hfront : ∀ c ∈ List.replicate n 0x63 ++ ([0x25, 0x63, 0x23] : List UInt8),
      c ≠ 0x0A ∧ c.toNat < 0x80 := by
    intro c hc
    rcases List.mem_append.1 hc with hc | hc
    · rw [List.eq_of_mem_replicate hc]
      decide
    · simp only [List.mem_cons, List.not_mem_nil, or_false] at hc
      rcases hc with rfl | rfl | rfl
      · decide
      · decide
      · decide
  refine ⟨_, fun c hc => (hfront c hc).1, ?_⟩
  have hascii : ∀ c ∈ (List.replicate n 0x63 ++ [0x25, 0x63, 0x23]) ++ ([0x0D, 0x0A] : List UInt8),
      c.toNat < 0x80 := by
    refine List.forall_mem_append.2 ⟨fun c hc => (hfront c hc).2, ?_⟩
    simp only [List.forall_mem_cons]
    exact ⟨by decide, by decide, fun c hc => absurd hc List.not_mem_nil⟩
  rw [Utf8.decode_ascii hascii, List.append_assoc, List.map_append, List.map_replicate]
  rfl

/-- What stands after the last name that is read late can take its value. -/
theorem takes_of_fresh {clock : Clock} {γ : List (Expr Span)} (hparts : ∀ q ∈ γ, IsPart q)
    (hsegments : ∀ q ∈ γ, isSegment q = false)
    (hvalues : ∀ q ∈ γ, ∀ y ∈ q.reads, b.get? y = some (.text []))
    (hfresh : ∀ q ∈ γ, ∀ y ∈ q.reads, y ∉ γ.flatMap targets)
    (hnodup : (γ.flatMap targets).Nodup) (hx : x ∈ γ.flatMap targets) :
    Takes clock stop b x γ := by
  have hpattern : (pattern stop γ).IsPattern := isPattern_pattern hparts
  have hdots : (pattern stop γ).dots ≠ 0 := by
    intro h0
    rw [targets_eq_nil_of_dots_eq_zero hparts h0] at hx
    cases hx
  have hsendable : ∀ q ∈ γ, IsSendable b q := by
    intro q hq
    refine ⟨hparts q hq, ?_, fun y hy => ⟨_, hvalues q hq y hy, rfl⟩⟩
    cases hparts q hq with
    | segment a s => cases hsegments _ hq
    | name => simp [literals]
    | dot => simp [literals]
    | capture => simp [literals]
  obtain ⟨ts, hts, hspells⟩ := exists_spells_lineEnd hparts hsegments hvalues
  have hend : lineEnd.IsDecoded := Text.isDecoded_ofChars ['\r', '\n']
  have hread : (pattern stop γ).IsReading b lineEnd ts := hspells.isReading hend
  have hlegible : (pattern stop γ).Legible b := legible_pattern hsendable hfresh hnodup
  refine ⟨hparts, hdots, hlegible.decided hdots, hlegible.fresh, ts, ?_, fun m hbinds => ?_⟩
  · refine candidates_of_unique hpattern hdots hread fun us hus => ?_
    exact hspells.unique_of_empty hts ((isReading_iff_spells hparts hspells hend).1 hus)
  · have htargets : (pattern stop γ).targets = γ.flatMap targets := targets_pattern
    rw [← htargets, ← map_fst_captures hpattern hread] at hx
    obtain ⟨⟨y, v⟩, hmem, rfl⟩ := List.mem_map.1 hx
    have hv : v = .text [] := captures_of_empty hparts hts _ hmem
    exact hv ▸ hbinds _ hmem

/-- The values that names have when only the one between the marks has any. -/
theorem get?_lateBindings (pre : List (Expr Span)) {γ : List (Expr Span)}
    (hxγ : x ∈ γ.flatMap targets) (hγ : ∀ q ∈ γ, ∀ y ∈ q.reads, y ∉ γ.flatMap targets) :
    (∀ q ∈ pre, ∀ y ∈ q.reads, ∃ n ≤ 1, (lateBindings x ((pre ++ γ).flatMap reads)).get? y =
        some (.text (List.replicate n (.scalar 'c')))) ∧
      ∀ q ∈ γ, ∀ y ∈ q.reads,
        (lateBindings x ((pre ++ γ).flatMap reads)).get? y = some (.text []) := by
  constructor
  · intro q hq y hy
    by_cases hyx : y = x
    · subst hyx
      exact ⟨1, Nat.le_refl 1, get?_lateBindings_self y _⟩
    · refine ⟨0, Nat.zero_le 1, get?_lateBindings_of_ne hyx ?_⟩
      exact List.mem_flatMap.2 ⟨q, List.mem_append_left _ hq, hy⟩
  · intro q hq y hy
    refine get?_lateBindings_of_ne ?_ ?_
    · rintro rfl
      exact hγ q hq y hy hxγ
    · exact List.mem_flatMap.2 ⟨q, List.mem_append_right _ hq, hy⟩

/-- With a dot in front of the gate and the capture behind it, a receive does not find the line that
leaves every dot empty. -/
theorem not_findsReadings_gate {pre γ : List (Expr Span)} {a : Span} (hx : x ≠ nowName)
    (hpre : ∀ q ∈ pre, IsPart q ∧ isSegment q = false)
    (hγ : ∀ q ∈ γ, IsPart q ∧ isSegment q = false)
    (hnodup : (γ.flatMap targets).Nodup) (hxpre : x ∉ pre.flatMap targets)
    (hxγ : x ∈ γ.flatMap targets)
    (hfresh : ∀ q ∈ γ, ∀ y ∈ q.reads, y ∉ pre.flatMap targets ∧ y ∉ γ.flatMap targets)
    (hdot : ∃ q ∈ pre, q.dots ≠ 0) : ¬ FindsReadings (pre ++ (gate a x ++ γ)) := by
  intro hfinds
  have hfreshγ : ∀ q ∈ γ, ∀ y ∈ q.reads, y ∉ γ.flatMap targets :=
    fun q hq y hy => (hfresh q hq y hy).2
  obtain ⟨hprevalues, hγvalues⟩ := get?_lateBindings pre hxγ hfreshγ
  generalize hb : lateBindings x ((pre ++ γ).flatMap reads) = b at hprevalues hγvalues
  have hxb : b.get? x = some (.text held) := hb ▸ get?_lateBindings_self x _
  have hγparts : ∀ q ∈ γ, IsPart q := fun q hq => (hγ q hq).1
  have hγsegments : ∀ q ∈ γ, isSegment q = false := fun q hq => (hγ q hq).2
  -- The line: nothing in the dots, and the value of the name wherever it is read.
  obtain ⟨ts, hts, hspells⟩ := exists_spells_lineEnd hγparts hγsegments hγvalues
  have hgate : Spells b (gate a x ++ γ) gateLine ts :=
    .segment a _ (.name a hxb (.segment a _ hspells))
  obtain ⟨n, _, us, hus, hline⟩ :=
    hgate.exists_front 1 (fun q hq => (hpre q hq).1) (fun q hq => (hpre q hq).2) hprevalues
  have hempty : ∀ v ∈ us ++ ts, v = [] := List.forall_mem_append.2 ⟨hus, hts⟩
  obtain ⟨front, hfront, hbytes⟩ := exists_bytes n
  obtain ⟨channel, hread⟩ := Channel.exists_readLine hfront
  -- A run on this line would end well, but the template is closed to it.
  obtain ⟨w', hexecute, _⟩ := hfinds (fun _ => 0) default default []
    { memory := { bindings := b }, channel := { incoming := front ++ [0x0D, 0x0A] } } _ channel _
    hread (hbytes ▸ hline) fun us' h => (hbytes ▸ hline).unique_of_empty hempty h
  have hvalue := Stmt.succeeds_of_execute_receive hread hexecute
  have hmark : CodePoint.scalar '%' ∉ List.replicate n (CodePoint.scalar 'c') := by
    intro hmem
    have heq := List.eq_of_mem_replicate hmem
    exact absurd heq (by decide)
  have htakes : Takes (fun _ => 0) default b x γ :=
    takes_of_fresh hγparts hγsegments hγvalues hfreshγ hnodup hxγ
  have hfreshpre : ∀ y ∈ (pattern default γ).reads, y ∉ pre.flatMap targets := by
    intro y hy
    rw [reads_pattern] at hy
    obtain ⟨q, hq, hy⟩ := List.mem_flatMap.1 hy
    exact (hfresh q hq y hy).1
  have hclosed : Closed (fun _ => 0) default b (pattern default γ).reads x
      (List.replicate n (.scalar 'c') ++ gateLine) (pre ++ (gate a x ++ γ)) :=
    (htakes.closed hx hmark (fun q hq => (hpre q hq).1) hxpre hfreshpre).2 hdot
  exact hclosed _ _ ⟨[], hbytes⟩ ⟨fun _ _ => rfl, Or.inl hxb⟩ hvalue

/-- Between two marks, the last name that is read late keeps a receive from finding a line. -/
theorem exists_not_findsReadings {es : List (Expr Span)} (hes : ∀ q ∈ es, IsPart q)
    (hsegments : ∀ q ∈ es, isSegment q = false) (hnodup : (es.flatMap targets).Nodup)
    (hleft : es.Pairwise fun q q' => ∀ x ∈ q'.reads, x ∉ q.targets)
    (hlate : ¬ ReadsEarly (es.flatMap targets) es) :
    ∃ parts, (∀ q ∈ parts, IsPart q) ∧ embedded parts = es ∧ ¬ FindsReadings parts := by
  obtain ⟨pre, a, x, γ, rfl, hx, hxt, hγ, hdot⟩ := exists_late_name hes hlate
  simp only [List.forall_mem_append, List.forall_mem_cons] at hes hsegments
  obtain ⟨hpre, _, hγparts⟩ := hes
  obtain ⟨hpreseg, _, hγseg⟩ := hsegments
  have hxpre : x ∉ pre.flatMap targets := by
    intro hmem
    obtain ⟨q, hq, hxq⟩ := List.mem_flatMap.1 hmem
    exact (List.pairwise_append.1 hleft).2.2 q hq _ List.mem_cons_self x
      (List.mem_singleton_self x) hxq
  rw [List.flatMap_append, List.flatMap_cons] at hnodup hxt hγ
  have hxγ : x ∈ γ.flatMap targets := by
    rcases List.mem_append.1 hxt with hxt | hxt
    · exact absurd hxt hxpre
    · exact hxt
  refine ⟨pre ++ (gate a x ++ γ), ?_, ?_, ?_⟩
  · exact List.forall_mem_append.2 ⟨hpre, List.forall_mem_append.2 ⟨isPart_gate hx, hγparts⟩⟩
  · have hkeep {l : List (Expr Span)} (h : ∀ q ∈ l, isSegment q = false) : embedded l = l :=
      List.filter_eq_self.2 fun q hq => by rw [h q hq]; rfl
    rw [embedded, List.filter_append, List.filter_append]
    show embedded pre ++ (embedded (gate a x) ++ embedded γ) = _
    rw [hkeep hpreseg, hkeep hγseg]
    rfl
  · refine not_findsReadings_gate hx (fun q hq => ⟨hpre q hq, hpreseg q hq⟩)
      (fun q hq => ⟨hγparts q hq, hγseg q hq⟩) (List.nodup_append.1 hnodup).2.1 hxpre hxγ ?_ hdot
    intro q hq y hy
    exact ⟨fun hmem => hγ q hq y hy (List.mem_append_left _ hmem),
      fun hmem => hγ q hq y hy (List.mem_append_right _ hmem)⟩

/-! ## The condition -/

theorem of_isSegment {q : Expr Span} (h : isSegment q = true) :
    q.dots = 0 ∧ q.targets = [] ∧ q.reads = [] := by
  cases q with
  | string => exact ⟨rfl, rfl, rfl⟩
  | _ => cases h

/-- Segments capture nothing. -/
theorem targets_embedded (parts : List (Expr Span)) :
    (embedded parts).flatMap targets = parts.flatMap targets := by
  induction parts with
  | nil => rfl
  | cons q parts ih =>
    by_cases hq : isSegment q = true
    · have hdrop : embedded (q :: parts) = embedded parts :=
        List.filter_cons_of_neg (by simp [hq])
      rw [hdrop, ih, List.flatMap_cons, (of_isSegment hq).2.1, List.nil_append]
    · have hkeep : embedded (q :: parts) = q :: embedded parts :=
        List.filter_cons_of_pos (by simpa using hq)
      rw [hkeep, List.flatMap_cons, List.flatMap_cons, ih]

/-- Segments have no dots and read nothing, so they do not matter to what is read early. -/
theorem readsEarly_of_embedded {names : List Text} (h : ReadsEarly names (embedded parts)) :
    ReadsEarly names parts := by
  have hkept := List.pairwise_filter.1 h
  refine hkept.imp fun {q q'} hpair hdot y hy => ?_
  by_cases hq : isSegment q = true
  · exact absurd (of_isSegment hq).1 hdot
  by_cases hq' : isSegment q' = true
  · rw [(of_isSegment hq').2.2] at hy
    cases hy
  · exact hpair (by simpa using hq) (by simpa using hq') hdot y hy

/-- What is embedded in a template decides whether a receive finds what the template spells: it does
for all segments exactly if no captured name is read after the first dot. -/
theorem findsReadings_iff_readsEarly {es : List (Expr Span)} (hes : ∀ q ∈ es, IsPart q)
    (hsegments : ∀ q ∈ es, isSegment q = false) (hnodup : (es.flatMap targets).Nodup)
    (hleft : es.Pairwise fun q q' => ∀ x ∈ q'.reads, x ∉ q.targets) :
    (∀ parts, (∀ q ∈ parts, IsPart q) → embedded parts = es → FindsReadings parts) ↔
      ReadsEarly (es.flatMap targets) es := by
  constructor
  · intro hfinds
    by_contra hlate
    obtain ⟨parts, hparts, hembedded, hno⟩ :=
      exists_not_findsReadings hes hsegments hnodup hleft hlate
    exact hno (hfinds parts hparts hembedded)
  · intro hearly parts hparts hembedded clock note stop source w bytes channel ts hline hspells
      hunique
    subst hembedded
    rw [targets_embedded] at hnodup hearly
    exact exists_execute_receive hparts hnodup (readsEarly_of_embedded hearly) hline hspells hunique
      clock note source

/-- A name in front of its capture is found, whatever stands around the two; with a dot before them
it is not always. -/
theorem findsReadings_of_name_capture :
    (∀ parts, (∀ q ∈ parts, IsPart q) →
      embedded parts = [.name default "x", .assign default default "x" (.dot default)] →
        FindsReadings parts) ∧
    ¬ ∀ parts, (∀ q ∈ parts, IsPart q) →
      embedded parts =
        [.dot default, .name default "x", .assign default default "x" (.dot default)] →
        FindsReadings parts := by
  have hname : ∀ q ∈ [.name default "x", .assign default default "x" (.dot default)],
      IsPart (q : Expr Span) := by
    simp only [List.forall_mem_cons]
    exact ⟨.name _ (by decide), .capture _ _ _ _, fun q hq => absurd hq List.not_mem_nil⟩
  constructor
  · exact (findsReadings_iff_readsEarly hname (by decide) (by decide) (by decide)).2
      (by unfold ReadsEarly; decide)
  · intro hfinds
    have hearly := (findsReadings_iff_readsEarly (List.forall_mem_cons.2 ⟨.dot default, hname⟩)
      (by decide) (by decide) (by decide)).1 hfinds
    revert hearly
    unfold ReadsEarly
    decide

/-- A dot, and a name that is captured after it. -/
def dotNameCapture : List (Expr Span) :=
  [.dot default, .name default "x", .assign default default "x" (.dot default)]

/-- The first cut that fits captures another value for the name, and with that value the next cut
fits as well: the only spelling of the line is reported as ambiguous. -/
theorem receive_ambiguous_of_one_spelling :
    (∀ q ∈ dotNameCapture, IsPart q) ∧ (dotNameCapture.flatMap targets).Nodup ∧
      (dotNameCapture.Pairwise fun q q' => ∀ y ∈ q'.reads, y ∉ q.targets) ∧
      Spells [("x", .text "a")] dotNameCapture (Utf8.decode [0x61, 0x62, 0x0D, 0x0A])
        [("" : Text), "b"] ∧
      (∀ us, Spells [("x", .text "a")] dotNameCapture (Utf8.decode [0x61, 0x62, 0x0D, 0x0A]) us →
        us = [("" : Text), "b"]) ∧
      (Script.execute (fun _ => 0)
          ⟨default, [.receive default (pattern default dotNameCapture) ":{.}{x}{x = .}"]⟩
          { memory := { bindings := [("x", .text "a")] },
            channel := { incoming := [0x61, 0x62, 0x0D, 0x0A] } }).1 =
        ⟨0, some (.failed (.ambiguousMatch "ab" ":{.}{x}{x = .}") default)⟩ := by
  have hline : Utf8.decode [0x61, 0x62, 0x0D, 0x0A] = ("ab\r\n" : Text) := by decide +kernel
  rw [hline]
  refine ⟨?_, by decide, by decide, ?_, ?_, by decide +kernel⟩
  · simp only [dotNameCapture, List.forall_mem_cons]
    exact ⟨.dot _, .name _ (by decide), .capture _ _ _ _, fun q hq => absurd hq List.not_mem_nil⟩
  · exact .dot _ [] (.name _ (v := .text "a") (by decide) (.capture _ _ _ "x" "b" .stop))
  · intro us h
    generalize hab : ("ab\r\n" : Text) = t at h
    cases h with
    | dot _ u h =>
      cases h with
      | name _ hx h =>
        cases h with
        | capture _ _ _ _ v h =>
          cases h
          cases hx
          cases u with
          | nil =>
            have hv : ("b" : Text) ++ lineEnd = v ++ lineEnd := (List.cons.inj hab).2
            rw [List.append_cancel_right hv]
            rfl
          | cons c u =>
            have htail : ("b\r\n" : Text) = u ++ .scalar 'a' :: (v ++ lineEnd) :=
              (List.cons.inj hab).2
            have hmem : CodePoint.scalar 'a' ∈ ("b\r\n" : Text) :=
              htail ▸ List.mem_append_right u List.mem_cons_self
            exact absurd hmem (by decide)

end WireScript.Template
