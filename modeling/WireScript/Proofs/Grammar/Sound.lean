import WireScript.Proofs.Grammar.Reading

/-!
# What the parser accepts derives

A reader of expressions that finds nothing wrong has passed over tokens that derive, and the tree
it returns is the tree of the derivation.

The readers call each other, so this is one statement `SoundAt` about all six of them, proved by
induction on the depth.  `Took` is what it says of one reader.  `SoundAt.chainRest` carries the
invariant of the climbing loop: the operand read so far derives at the level that the operator in
front has `reached`.
-/

namespace WireScript.Grammar

open LineParser

variable {p q r : LineParser} {P Q R : List Token → Prop} {depth : Nat}

/-- A reader that went from one position to another has stayed in the line and, if there is no
report by then, has passed over tokens with the given property. -/
def Took (p q : LineParser) (P : List Token → Prop) : Prop :=
  q.Bounded ∧ (q.reports = [] → ∃ ts, Reads ts p q ∧ P ts)

theorem Took.of_reports (hq : q.Bounded) (h : q.reports ≠ []) : Took p q P :=
  ⟨hq, fun hnil => absurd hnil h⟩

theorem Took.nothing (hp : p.Bounded) (h : P []) : Took p p P :=
  ⟨hp, fun _ => ⟨[], Reads.refl p, h⟩⟩

theorem Took.mono (h : Took p q P) (hPQ : ∀ ts, P ts → Q ts) : Took p q Q := by
  refine ⟨h.1, fun hnil => ?_⟩
  obtain ⟨ts, hreads, hts⟩ := h.2 hnil
  exact ⟨ts, hreads, hPQ ts hts⟩

/-- Two readers, one after the other. -/
theorem Took.andThen (h : Took p q P) (h' : q.Bounded → Took q r Q)
    (hR : ∀ ts us, P ts → Q us → R (ts ++ us)) : Took p r R := by
  have hr := h' h.1
  refine ⟨hr.1, fun hnil => ?_⟩
  obtain ⟨us, hqr, hus⟩ := hr.2 hnil
  have hqnil : q.reports = [] := by rw [← hqr.reports, hnil]
  obtain ⟨ts, hpq, hts⟩ := h.2 hqnil
  exact ⟨ts ++ us, hpq.trans hqr, hR ts us hts hus⟩

/-- A token that does not end lines, and a reader behind it. -/
theorem Took.over (hp : p.Bounded) (hline : p.current.kind ≠ .newline)
    (hinput : p.current.kind ≠ .endOfInput) (h : Took p.advance r P) :
    Took p r fun ts => ∃ us, ts = p.current :: us ∧ P us := by
  refine ⟨h.1, fun hnil => ?_⟩
  obtain ⟨us, hreads, hus⟩ := h.2 hnil
  exact ⟨_, (hp.reads_advance hline hinput).trans hreads, us, rfl, hus⟩

/-- A token that does not end lines. -/
theorem Took.advance (hp : p.Bounded) (hline : p.current.kind ≠ .newline)
    (hinput : p.current.kind ≠ .endOfInput) (hP : P [p.current]) : Took p p.advance P :=
  ⟨bounded_advance.2 hp, fun _ => ⟨_, hp.reads_advance hline hinput, hP⟩⟩

theorem Took.missingOperand (hp : p.Bounded) : Took p (missingOperand p).2 P := by
  have hreports := reports_unexpected_ne_nil p .expression
  apply Took.of_reports
  · simpa [LineParser.missingOperand] using hp
  · simpa [LineParser.missingOperand] using hreports

/-- What the readers do with a bound on the depth. -/
structure SoundAt (depth : Nat) : Prop where
  expression (p : LineParser) : p.Bounded → Took p (expression depth p).2
    fun ts => Derives .expression ts (bare (expression depth p).1)
  chain (least : Nat) (p : LineParser) : least ≤ 6 → p.Bounded → Took p (chain depth least p).2
    fun ts => Derives (level least) ts (bare (chain depth least p).1)
  chainRest (least : Nat) (start : Token) (last : Option Operator) (left : Expr Span)
    (p : LineParser) : least ≤ reached last → p.Bounded →
    Took p (chainRest depth least start last left p).2 fun us =>
      ∀ ts, Derives (level (reached last)) ts (bare left) →
        Derives (level least) (ts ++ us) (bare (chainRest depth least start last left p).1)
  unary (p : LineParser) : p.Bounded → Took p (unary depth p).2
    fun ts => Derives .unary ts (bare (unary depth p).1)
  primary (p : LineParser) : p.Bounded → Took p (primary depth p).2
    fun ts => Derives .atom ts (bare (primary depth p).1)
  segments (span : Span) (text : Text) (continues : Bool) (p : LineParser) : p.Bounded →
    Took p (segments depth span text continues p).2 fun ts => ∃ e, Derives (.rest continues) ts e ∧
      ∀ stop, bare (template stop (segments depth span text continues p).1) = withSegment text e

/-! ## One more level of depth, reader by reader -/

/-- A name alone in front of an assignment sign is a target. -/
theorem derives_assign {start sign : Token} {x : Text} {ts us : List Token} {v : Tree}
    (ht : Derives .disjunction ts (.name () x)) (hstart : ts.head? = some start)
    (hopen : start.kind ≠ .mark .openGroup) (hsign : sign.kind = .mark .assign)
    (hv : Derives .expression us v) :
    Derives .expression (ts ++ sign :: us) (.assign () () x v) := by
  have hhead := ht.eq_singleton_of_name (by simp)
  rcases hhead with ⟨t, rfl, hname⟩ | ⟨t, ws, rfl, hgroup⟩
  · exact .assign hname hsign hv
  · cases hstart
    exact absurd hgroup hopen

theorem SoundAt.expression_succ (h : SoundAt depth) (hp : p.Bounded) :
    Took p (LineParser.expression (depth + 1) p).2
      fun ts => Derives .expression ts (bare (LineParser.expression (depth + 1) p).1) := by
  have htarget := h.chain 1 p (by decide) hp
  obtain ⟨target, q, hchain⟩ : ∃ target q, LineParser.chain depth 1 p = (target, q) := ⟨_, _, rfl⟩
  rw [hchain] at htarget
  rw [LineParser.expression, hchain]
  dsimp only
  split
  · next hassign =>
    have hsign : q.current.kind = .mark .assign := by simpa [Token.isMark] using hassign
    have hvalue := h.expression q.advance (bounded_advance.2 htarget.1)
    obtain ⟨value, r, hexpr⟩ : ∃ value r, LineParser.expression depth q.advance = (value, r) :=
      ⟨_, _, rfl⟩
    rw [hexpr] at hvalue ⊢
    dsimp only
    split
    · next note x hopen =>
      have hgroup : p.current.kind ≠ .mark .openGroup := by simpa [Token.isMark] using hopen
      -- where the tokens of the target stand is needed along with what they derive
      have hfirst : Took p q fun ts => Derives .disjunction ts (.name () x) ∧
          ts.head? = some p.current := by
        refine ⟨htarget.1, fun hnil => ?_⟩
        obtain ⟨ts, hreads, hts⟩ := htarget.2 hnil
        obtain ⟨t, us, rfl, -⟩ := hts.exists_head (by simp [level])
        exact ⟨_, hreads, hts, by rw [hreads.current_eq]; rfl⟩
      refine hfirst.andThen
        (fun hq => Took.over hq (by simp [hsign]) (by simp [hsign]) hvalue) ?_
      intro ts vs hts hvs
      obtain ⟨us, rfl, hus⟩ := hvs
      exact derives_assign hts.1 hts.2 hgroup hsign hus
    · apply Took.of_reports
      · exact bounded_report.2 hvalue.1
      · simp [report]
  · exact htarget.mono fun ts hts => .ofDisjunction hts

theorem SoundAt.chain_succ (h : SoundAt depth) {least : Nat} (hleast : least ≤ 6)
    (hp : p.Bounded) : Took p (LineParser.chain (depth + 1) least p).2
      fun ts => Derives (level least) ts (bare (LineParser.chain (depth + 1) least p).1) := by
  have hleft := h.unary p hp
  obtain ⟨left, q, hunary⟩ : ∃ left q, LineParser.unary depth p = (left, q) := ⟨_, _, rfl⟩
  rw [hunary] at hleft
  rw [LineParser.chain, hunary]
  exact hleft.andThen (h.chainRest least p.current none left q hleast)
    fun ts us hts hus => hus ts hts

theorem SoundAt.chainRest_succ (h : SoundAt depth) {least : Nat} {start : Token}
    {last : Option Operator} {left : Expr Span} (hleast : least ≤ reached last)
    (hp : p.Bounded) : Took p (LineParser.chainRest (depth + 1) least start last left p).2
      fun us => ∀ ts, Derives (level (reached last)) ts (bare left) → Derives (level least)
        (ts ++ us) (bare (LineParser.chainRest (depth + 1) least start last left p).1) := by
  have hstop : Took p p fun us => ∀ ts, Derives (level (reached last)) ts (bare left) →
      Derives (level least) (ts ++ us) (bare left) := by
    refine Took.nothing hp fun ts hts => ?_
    rw [List.append_nil]
    exact hts.loosen hleast
  rw [LineParser.chainRest]
  split
  · exact hstop
  · next op hop =>
    split
    · exact hstop
    · next hgo =>
      simp only [Bool.or_eq_true, decide_eq_true_eq, refuses_eq, not_or, Nat.not_lt] at hgo
      -- an operator that is not refused finds its left operand as tight as it wants it
      obtain ⟨hop_least, hlast⟩ := hgo
      have hprec : op.precedence + 1 ≤ 6 := by cases op <;> decide
      have hright := h.chain (op.precedence + 1) p.advance hprec (bounded_advance.2 hp)
      obtain ⟨right, q, hchain⟩ :
          ∃ right q, LineParser.chain depth (op.precedence + 1) p.advance = (right, q) :=
        ⟨_, _, rfl⟩
      rw [hchain] at hright ⊢
      have hline : p.current.kind ≠ .newline := fun hkind => by simp [Token.operator?, hkind] at hop
      have hinput : p.current.kind ≠ .endOfInput := fun hkind => by
        simp [Token.operator?, hkind] at hop
      have hstep : Took p q fun us => ∀ ts, Derives (level (reached last)) ts (bare left) →
          Derives (level op.precedence) (ts ++ us)
            (bare (op.apply (q.spanFrom start) left right)) := by
        refine (Took.over hp hline hinput hright).mono ?_
        intro vs hvs ts hts
        obtain ⟨us, rfl, hus⟩ := hvs
        rw [bare_apply]
        exact (hts.loosen hlast).apply hop hus
      refine hstep.andThen (h.chainRest least start (some op) _ q hop_least) ?_
      intro us vs hus hvs ts hts
      rw [← List.append_assoc]
      exact hvs _ (hus ts hts)

theorem SoundAt.unary_succ (h : SoundAt depth) (hp : p.Bounded) :
    Took p (LineParser.unary (depth + 1) p).2
      fun ts => Derives .unary ts (bare (LineParser.unary (depth + 1) p).1) := by
  rw [LineParser.unary]
  dsimp only
  split
  · next hkind =>
    have hoperand := h.unary p.advance (bounded_advance.2 hp)
    refine (Took.over hp (by simp [hkind]) (by simp [hkind]) hoperand).mono ?_
    intro ts hts
    obtain ⟨us, rfl, hus⟩ := hts
    exact .not hkind hus
  · next hkind =>
    have hoperand := h.unary p.advance (bounded_advance.2 hp)
    refine (Took.over hp (by simp [hkind]) (by simp [hkind]) hoperand).mono ?_
    intro ts hts
    obtain ⟨us, rfl, hus⟩ := hts
    exact .negate hkind hus
  · exact (h.primary p hp).mono fun ts hts => .ofAtom hts

theorem SoundAt.primary_succ (h : SoundAt depth) (hp : p.Bounded) :
    Took p (LineParser.primary (depth + 1) p).2
      fun ts => Derives .atom ts (bare (LineParser.primary (depth + 1) p).1) := by
  rw [LineParser.primary]
  dsimp only
  split
  · next hkind => exact Took.advance hp (by simp [hkind]) (by simp [hkind]) (.name hkind)
  · next hkind => exact Took.advance hp (by simp [hkind]) (by simp [hkind]) (.integer hkind)
  · next hkind => exact Took.advance hp (by simp [hkind]) (by simp [hkind]) (.string hkind)
  · next hkind => exact Took.advance hp (by simp [hkind]) (by simp [hkind]) (.dot hkind)
  · next hkind =>
    have hinner := h.expression p.advance (bounded_advance.2 hp)
    obtain ⟨inner, q, hexpr⟩ : ∃ inner q, LineParser.expression depth p.advance = (inner, q) :=
      ⟨_, _, rfl⟩
    rw [hexpr] at hinner ⊢
    dsimp only
    split
    · next hclosed =>
      have hclose : q.current.kind = .mark .closeGroup := by simpa [Token.isMark] using hclosed
      have hgroup := hinner.andThen
        (fun hq => Took.advance (P := (· = [q.current])) hq (by simp [hclose]) (by simp [hclose])
          rfl)
        (R := fun us => ∃ ts, us = ts ++ [q.current] ∧ Derives .expression ts (bare inner))
        fun ts us hts hus => ⟨ts, by rw [hus], hts⟩
      refine (Took.over hp (by simp [hkind]) (by simp [hkind]) hgroup).mono ?_
      intro us hus
      obtain ⟨_, rfl, ts, rfl, hts⟩ := hus
      exact .group hkind hts hclose
    · apply Took.of_reports
      · exact bounded_report.2 hinner.1
      · simp [report]
  · next text continues hkind =>
    have hrest := h.segments p.current.span text continues p.advance (bounded_advance.2 hp)
    refine (Took.over hp (by simp [hkind]) (by simp [hkind]) hrest).mono ?_
    intro ts hts
    obtain ⟨us, rfl, e, hus, htree⟩ := hts
    rw [htree]
    exact .template hkind hus
  · exact Took.missingOperand hp

theorem SoundAt.segments_succ (h : SoundAt depth) {span : Span} {text : Text}
    {continues : Bool} (hp : p.Bounded) :
    Took p (LineParser.segments (depth + 1) span text continues p).2 fun ts =>
      ∃ e, Derives (.rest continues) ts e ∧ ∀ stop, bare (template stop
        (LineParser.segments (depth + 1) span text continues p).1) = withSegment text e := by
  rw [LineParser.segments]
  dsimp only
  split
  · next hcontinues =>
    subst hcontinues
    have hembedded := h.expression p hp
    obtain ⟨embedded, q, hexpr⟩ : ∃ embedded q, LineParser.expression depth p = (embedded, q) :=
      ⟨_, _, rfl⟩
    rw [hexpr] at hembedded ⊢
    dsimp only
    split
    · next text' continues' hkind =>
      have hothers := h.segments q.current.span text' continues' q.advance
        (bounded_advance.2 hembedded.1)
      refine hembedded.andThen
        (fun hq => Took.over hq (by simp [hkind]) (by simp [hkind]) hothers) ?_
      intro ts vs hts hvs
      obtain ⟨us, rfl, e, hus, htree⟩ := hvs
      refine ⟨_, .embed hts hkind hus, fun stop => ?_⟩
      rw [bare_template_segment, bare_template_cons, htree]
    · apply Took.of_reports
      · exact bounded_report.2 hembedded.1
      · simp [report]
  · next hcontinues =>
    rw [Bool.not_eq_true] at hcontinues
    subst hcontinues
    refine Took.nothing hp ⟨_, .complete, fun stop => ?_⟩
    have hsegment := bare_template_segment stop span text []
    rwa [List.append_nil] at hsegment

/-! ## Any depth -/

theorem soundAt (depth : Nat) : SoundAt depth := by
  induction depth with
  | zero =>
    refine ⟨fun p hp => ?_, fun least p _ hp => ?_, fun least start last left p _ hp => ?_,
      fun p hp => ?_, fun p hp => ?_, fun span text continues p hp => ?_⟩
    · exact Took.missingOperand hp
    · exact Took.missingOperand hp
    · exact Took.missingOperand hp
    · exact Took.missingOperand hp
    · exact Took.missingOperand hp
    · apply Took.of_reports
      · exact bounded_unexpected.2 hp
      · exact reports_unexpected_ne_nil p .expression
  | succ depth ih =>
    exact ⟨fun _ => ih.expression_succ, fun _ _ => ih.chain_succ,
      fun _ _ _ _ _ => ih.chainRest_succ, fun _ => ih.unary_succ, fun _ => ih.primary_succ,
      fun _ _ _ _ => ih.segments_succ⟩

/-- An operand that is read without a report is an expression. -/
theorem took_operand (hp : p.Bounded) :
    Took p p.operand.2 fun ts => Derives .expression ts (bare p.operand.1) :=
  (soundAt p.depth).expression p hp

end WireScript.Grammar
