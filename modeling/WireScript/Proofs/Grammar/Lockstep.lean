import WireScript.Proofs.Grammar.Stream

/-!
# Lines in a stream

A parser that pulls its tokens from a stream reads every line as the parser does that has the line
and nothing else, and makes the same reports on it.

* `Setting` is what there is around a line in a stream, and `Setting.Matches` relates a position in
  the stream to the position in the line.  `Setting.Returns` says that two readers come back with
  the same thing, at positions that match.
* `Setting.MatchedAt` says that the readers of expressions keep the two together, if the depth that
  bounds the readers on the line is enough.  It is proved by induction on the depth, with one lemma
  for each reader; a reader that consumes nothing hands over to one that needs less depth.
* `Setting.Crosses` is what a whole statement does: it passes over its line and the end of that.
  `Upcoming.statements` carries this from lines to all tokens up to the end of the input.
-/

namespace WireScript

open StreamParser (Upcoming)

/-- What there is around a line in a stream of tokens: the tokens in front of it, the token that
ends the line and all behind that, the end of the input, the stream behind that, and the reports on
earlier lines. -/
structure Setting (σ : Type) where
  before : List Token
  behind : List Token
  ending : Token
  left : σ
  reports : List (Report SyntaxError)

variable {σ : Type} [Std.Stream σ Token]

namespace Setting

/-- A position in a stream is a position in a line with its setting. -/
structure Matches (C : Setting σ) (s : StreamParser σ) (p : LineParser) : Prop where
  consumed : s.consumed = p.consumed ++ C.before
  upcoming : s.Upcoming (p.ahead ++ C.behind) C.ending C.left
  reports : s.reports = p.reports ++ C.reports
  stop : p.stop = C.behind.headD C.ending
  bounded : p.Bounded
  inner : ∀ t ∈ p.ahead, t.kind ≠ .newline

/-- A reader comes back with what another reader returns, and stands where that one does. -/
def Returns {α : Type} (C : Setting σ) (x : Option (α × StreamParser σ)) (y : α × LineParser) :
    Prop :=
  ∃ s, x = some (y.1, s) ∧ C.Matches s y.2

variable {C : Setting σ} {s : StreamParser σ} {p q : LineParser}

theorem Returns.bind {α β : Type} {x : Option (α × StreamParser σ)} {y : α × LineParser}
    {f : α × StreamParser σ → Option (β × StreamParser σ)} {z : β × LineParser}
    (h : C.Returns x y) (hf : ∀ s, C.Matches s y.2 → C.Returns (f (y.1, s)) z) :
    C.Returns (x >>= f) z := by
  obtain ⟨s, rfl, hs⟩ := h
  exact hf s hs

theorem Matches.returns {α : Type} (h : C.Matches s p) (a : α) :
    C.Returns (pure (a, s)) (a, p) :=
  ⟨s, rfl, h⟩

theorem Matches.current_eq (h : C.Matches s p) : s.current = p.current := by
  obtain ⟨c, a, stop, r⟩ := p
  rw [h.upcoming.current_eq]
  cases a with
  | nil => exact h.stop.symm
  | cons t a => rfl

/-- Inside of the line both go on. -/
theorem Matches.advance (h : C.Matches s p) (hp : p.ahead ≠ []) :
    C.Matches s.advance p.advance ∧ p.advance.consumed ≠ [] ∧
      p.advance.ahead.length + 1 = p.ahead.length := by
  obtain ⟨c, a, stop, r⟩ := p
  obtain ⟨t, a, rfl⟩ := List.exists_cons_of_ne_nil hp
  have hcurrent : s.current = t := h.current_eq
  obtain ⟨hconsumed, hreports⟩ := h.upcoming.consumed_advance
  refine ⟨⟨?_, h.upcoming.advance, ?_, h.stop, h.bounded, ?_⟩, List.cons_ne_nil _ _, rfl⟩
  · rw [hconsumed, h.consumed]
    rfl
  · rw [hreports, h.reports]
    rfl
  · exact fun t ht => h.inner t (List.mem_cons_of_mem _ ht)

/-- A token that does not end lines is inside of the line. -/
theorem Matches.pass (h : C.Matches s p) (hline : p.current.kind ≠ .newline)
    (hinput : p.current.kind ≠ .endOfInput) :
    C.Matches s.advance p.advance ∧ p.advance.consumed ≠ [] ∧
      p.advance.ahead.length + 1 = p.ahead.length := by
  have hahead := (h.bounded.reads_advance hline hinput).ahead
  exact h.advance (by rw [hahead]; exact List.cons_ne_nil _ _)

theorem Matches.report (h : C.Matches s p) (cause : SyntaxError) (span : Span) :
    C.Matches (s.report cause span) (p.report cause span) :=
  ⟨h.consumed, h.upcoming.report cause span, congrArg (_ :: ·) h.reports, h.stop, h.bounded,
    h.inner⟩

theorem Matches.unexpected (h : C.Matches s p) (wanted : Wanted) :
    C.Matches (s.unexpected wanted) (p.unexpected wanted) := by
  unfold StreamParser.unexpected LineParser.unexpected
  dsimp only
  rw [h.current_eq]
  split <;> exact h.report _ _

theorem Matches.lastStop_eq (h : C.Matches s p) (hp : p.consumed ≠ []) :
    s.lastStop = p.lastStop := by
  obtain ⟨c, a, stop, r⟩ := p
  obtain ⟨t, c, rfl⟩ := List.exists_cons_of_ne_nil hp
  rw [StreamParser.lastStop, h.consumed]
  rfl

theorem Matches.spanFrom_eq (h : C.Matches s p) (hp : p.consumed ≠ []) (start : Token) :
    s.spanFrom start = p.spanFrom start :=
  congrArg (Span.mk start.span.start) (h.lastStop_eq hp)

/-- The line ends where no token of it is ahead. -/
theorem Matches.endsLine_iff (h : C.Matches s p) : s.endsLine = p.ahead.isEmpty := by
  rw [StreamParser.endsLine, h.current_eq]
  obtain ⟨c, a, stop, r⟩ := p
  cases a with
  | nil =>
    have hstop : stop.kind = .newline ∨ stop.kind = .endOfInput := h.bounded
    rcases hstop with hkind | hkind <;>
      simp [LineParser.current, Token.isNewline, Token.isEnd, hkind]
  | cons t a =>
    have hline := h.inner t List.mem_cons_self
    have hend := h.upcoming.isEnd_of_mem t List.mem_cons_self
    simp [LineParser.current, Token.isNewline, hline, hend]

theorem Matches.missingOperand (h : C.Matches s p) :
    C.Returns (pure s.missingOperand) (LineParser.missingOperand p) := by
  have hunexpected := h.unexpected .expression
  unfold StreamParser.missingOperand LineParser.missingOperand
  dsimp only
  rw [h.current_eq, h.endsLine_iff]
  have hahead : (p.unexpected .expression).ahead = p.ahead :=
    (LineParser.passes_unexpected p .expression).ahead.symm
  split
  · next hempty =>
    have hstays : (p.unexpected .expression).advance = p.unexpected .expression := by
      unfold LineParser.advance
      rw [hahead, List.isEmpty_iff.1 hempty]
    rw [hstays]
    exact hunexpected.returns _
  · next hmore =>
    have hne : (p.unexpected .expression).ahead ≠ [] := by
      rw [hahead]
      simpa using hmore
    exact (hunexpected.advance hne).1.returns _

/-! ## The readers of expressions -/

/-- Readers on a line and in a stream, each with enough for what is ahead, do the same. -/
structure MatchedAt (C : Setting σ) (fuel depth : Nat) : Prop where
  expression {s : StreamParser σ} {p : LineParser} : 5 * p.ahead.length + 4 ≤ min fuel depth →
    C.Matches s p → C.Returns (s.expression fuel) (LineParser.expression depth p)
  chain {s : StreamParser σ} {p : LineParser} (least : Nat) :
    5 * p.ahead.length + 3 ≤ min fuel depth → C.Matches s p →
      C.Returns (s.chain fuel least) (LineParser.chain depth least p)
  chainRest {s : StreamParser σ} {p : LineParser} (least : Nat) (start : Token)
    (last : Option Operator) (left : Expr Span) : 5 * p.ahead.length + 2 ≤ min fuel depth →
    C.Matches s p →
      C.Returns (s.chainRest fuel least start last left)
        (LineParser.chainRest depth least start last left p)
  unary {s : StreamParser σ} {p : LineParser} : 5 * p.ahead.length + 2 ≤ min fuel depth →
    C.Matches s p → C.Returns (s.unary fuel) (LineParser.unary depth p)
  primary {s : StreamParser σ} {p : LineParser} : 5 * p.ahead.length + 1 ≤ min fuel depth →
    C.Matches s p → C.Returns (s.primary fuel) (LineParser.primary depth p)
  segments {s : StreamParser σ} {p : LineParser} (span : Span) (text : Text) (continues : Bool) :
    5 * p.ahead.length + 5 ≤ min fuel depth → C.Matches s p →
      C.Returns (s.segments fuel span text continues)
        (LineParser.segments depth span text continues p)

variable {fuel depth : Nat}

theorem MatchedAt.expression_succ (h : MatchedAt C fuel depth)
    (hdepth : 5 * p.ahead.length + 4 ≤ min (fuel + 1) (depth + 1)) (hp : C.Matches s p) :
    C.Returns (s.expression (fuel + 1)) (LineParser.expression (depth + 1) p) := by
  have htarget := (takenAt depth).chain 1 hp.bounded
  rw [StreamParser.expression, LineParser.expression]
  refine (h.chain 1 (by omega) hp).bind fun t ht => ?_
  generalize LineParser.chain depth 1 p = x at htarget ht ⊢
  obtain ⟨target, q⟩ := x
  dsimp only at htarget ht ⊢
  rw [ht.current_eq, hp.current_eq]
  split
  · next hsign =>
    have hkind : q.current.kind = .mark .assign := by simpa [Token.isMark] using hsign
    have hlength := htarget.length_le
    obtain ⟨hadvance, hconsumed, hshorter⟩ := ht.pass (by simp [hkind]) (by simp [hkind])
    have hvalue := (takenAt depth).expression hadvance.bounded
    refine (h.expression (by omega) hadvance).bind fun u hu => ?_
    generalize LineParser.expression depth q.advance = y at hvalue hu ⊢
    obtain ⟨value, r⟩ := y
    dsimp only at hvalue hu ⊢
    rw [hu.spanFrom_eq (hvalue.consumed_ne_nil hconsumed)]
    have hrefused := (hu.report .assignmentTarget ⟨p.current.span.start, q.current.span.start⟩)
    cases target with
    | name note name =>
      cases p.current.isMark .openGroup with
      | false => exact hu.returns _
      | true => exact hrefused.returns _
    | _ => exact hrefused.returns _
  · exact ht.returns _

theorem MatchedAt.chain_succ (h : MatchedAt C fuel depth) (least : Nat)
    (hdepth : 5 * p.ahead.length + 3 ≤ min (fuel + 1) (depth + 1)) (hp : C.Matches s p) :
    C.Returns (s.chain (fuel + 1) least) (LineParser.chain (depth + 1) least p) := by
  have hleft := (takenAt depth).unary hp.bounded
  have hlength := hleft.length_le
  rw [StreamParser.chain, LineParser.chain, hp.current_eq]
  exact (h.unary (by omega) hp).bind fun t ht => h.chainRest least _ none _ (by omega) ht

theorem MatchedAt.chainRest_succ (h : MatchedAt C fuel depth) (least : Nat) (start : Token)
    (last : Option Operator) (left : Expr Span)
    (hdepth : 5 * p.ahead.length + 2 ≤ min (fuel + 1) (depth + 1)) (hp : C.Matches s p) :
    C.Returns (s.chainRest (fuel + 1) least start last left)
      (LineParser.chainRest (depth + 1) least start last left p) := by
  rw [StreamParser.chainRest, LineParser.chainRest, hp.current_eq]
  cases hop : p.current.operator? with
  | none => exact hp.returns _
  | some op =>
    dsimp only
    by_cases hrefused : (decide (op.precedence < least) || LineParser.refuses last op) = true
    · rw [if_pos hrefused, if_pos hrefused]
      exact hp.returns _
    · rw [if_neg hrefused, if_neg hrefused]
      obtain ⟨hadvance, hconsumed, hshorter⟩ := hp.pass
        (by intro hkind; simp [Token.operator?, hkind] at hop)
        (by intro hkind; simp [Token.operator?, hkind] at hop)
      have hright := (takenAt depth).chain (op.precedence + 1) hadvance.bounded
      have hlength := hright.length_le
      refine (h.chain (op.precedence + 1) (by omega) hadvance).bind fun t ht => ?_
      dsimp only
      rw [ht.spanFrom_eq (hright.consumed_ne_nil hconsumed)]
      exact h.chainRest least start (some op) _ (by omega) ht

theorem MatchedAt.unary_succ (h : MatchedAt C fuel depth)
    (hdepth : 5 * p.ahead.length + 2 ≤ min (fuel + 1) (depth + 1)) (hp : C.Matches s p) :
    C.Returns (s.unary (fuel + 1)) (LineParser.unary (depth + 1) p) := by
  rw [StreamParser.unary, LineParser.unary, hp.current_eq]
  dsimp only
  have hsigned (m : Mark) (hkind : p.current.kind = .mark m) :
      C.Returns (s.advance.unary fuel) (LineParser.unary depth p.advance) ∧
        (LineParser.unary depth p.advance).2.consumed ≠ [] := by
    obtain ⟨hadvance, hconsumed, hshorter⟩ := hp.pass (by simp [hkind]) (by simp [hkind])
    have hoperand := (takenAt depth).unary hadvance.bounded
    exact ⟨h.unary (by omega) hadvance, hoperand.consumed_ne_nil hconsumed⟩
  cases hkind : p.current.kind with
  | mark m =>
    cases m with
    | not | minus =>
      obtain ⟨hoperand, hconsumed⟩ := hsigned _ hkind
      refine hoperand.bind fun t ht => ?_
      dsimp only
      rw [ht.spanFrom_eq hconsumed]
      exact ht.returns _
    | _ => exact h.primary (by omega) hp
  | _ => exact h.primary (by omega) hp

theorem MatchedAt.primary_succ (h : MatchedAt C fuel depth)
    (hdepth : 5 * p.ahead.length + 1 ≤ min (fuel + 1) (depth + 1)) (hp : C.Matches s p) :
    C.Returns (s.primary (fuel + 1)) (LineParser.primary (depth + 1) p) := by
  rw [StreamParser.primary, LineParser.primary, hp.current_eq]
  dsimp only
  cases hkind : p.current.kind with
  | name | integer | string =>
    exact (hp.pass (by simp [hkind]) (by simp [hkind])).1.returns _
  | mark m =>
    cases m with
    | dot => exact (hp.pass (by simp [hkind]) (by simp [hkind])).1.returns _
    | openGroup =>
      obtain ⟨hadvance, -, hshorter⟩ := hp.pass (by simp [hkind]) (by simp [hkind])
      refine (h.expression (by omega) hadvance).bind fun t ht => ?_
      generalize LineParser.expression depth p.advance = x at ht ⊢
      obtain ⟨inner, q⟩ := x
      dsimp only at ht ⊢
      rw [ht.current_eq]
      cases hclosed : q.current.isMark .closeGroup with
      | true =>
        have hclose : q.current.kind = .mark .closeGroup := by simpa [Token.isMark] using hclosed
        exact (ht.pass (by simp [hclose]) (by simp [hclose])).1.returns _
      | false => exact (ht.report _ _).returns _
    | _ => exact hp.missingOperand
  | templateStart text continues =>
    obtain ⟨hadvance, hconsumed, hshorter⟩ := hp.pass (by simp [hkind]) (by simp [hkind])
    have hparts := (takenAt depth).segments p.current.span text continues hadvance.bounded
    refine (h.segments _ text continues (by omega) hadvance).bind fun t ht => ?_
    dsimp only
    rw [ht.lastStop_eq (hparts.consumed_ne_nil hconsumed)]
    exact ht.returns _
  | _ => exact hp.missingOperand

theorem MatchedAt.segments_succ (h : MatchedAt C fuel depth) (span : Span) (text : Text)
    (continues : Bool) (hdepth : 5 * p.ahead.length + 5 ≤ min (fuel + 1) (depth + 1))
    (hp : C.Matches s p) :
    C.Returns (s.segments (fuel + 1) span text continues)
      (LineParser.segments (depth + 1) span text continues p) := by
  rw [StreamParser.segments, LineParser.segments]
  cases continues with
  | false => exact hp.returns _
  | true =>
    have hembedded := (takenAt depth).expression hp.bounded
    have hlength := hembedded.length_le
    refine (h.expression (by omega) hp).bind fun t ht => ?_
    generalize LineParser.expression depth p = x at hlength ht ⊢
    obtain ⟨embedded, q⟩ := x
    dsimp only at hlength ht ⊢
    rw [ht.current_eq]
    cases hkind : q.current.kind with
    | templatePart text' continues' =>
      obtain ⟨hadvance, -, hshorter⟩ := ht.pass (by simp [hkind]) (by simp [hkind])
      exact (h.segments _ text' continues' (by omega) hadvance).bind fun u hu => hu.returns _
    | _ => exact (ht.report _ _).returns _

theorem matchedAt (C : Setting σ) (fuel depth : Nat) : MatchedAt C fuel depth := by
  have hnothing {fuel depth : Nat} (h : min fuel depth = 0) : MatchedAt C fuel depth :=
    ⟨fun hp => absurd hp (by omega), fun _ hp => absurd hp (by omega),
      fun _ _ _ _ hp => absurd hp (by omega), fun hp => absurd hp (by omega),
      fun hp => absurd hp (by omega), fun _ _ _ hp => absurd hp (by omega)⟩
  induction depth generalizing fuel with
  | zero => exact hnothing (Nat.min_zero fuel)
  | succ depth ih =>
    cases fuel with
    | zero => exact hnothing (Nat.zero_min _)
    | succ fuel =>
      have h := ih fuel
      exact ⟨h.expression_succ, h.chain_succ, h.chainRest_succ, h.unary_succ, h.primary_succ,
        h.segments_succ⟩

/-! ## Statements -/

/-- An operand is read to its end. -/
theorem Matches.operand (h : C.Matches s p) (hfuel : 5 * p.ahead.length + 4 ≤ fuel) :
    C.Returns (s.expression fuel) p.operand := by
  have hdepth : 5 * p.ahead.length + 4 ≤ p.depth := Nat.le_succ _
  exact (matchedAt C fuel p.depth).expression (Nat.le_min.2 ⟨hfuel, hdepth⟩) h

/-- The text of an operand is made of the same tokens. -/
theorem Matches.operandText_eq {start : StreamParser σ} {ts : List Token} (source : Option Text)
    (hstart : C.Matches start p) (hconsumed : p.consumed ≠ []) (h : C.Matches s q)
    (hpasses : LineParser.Passes ts p q) :
    StreamParser.operandText source start s = LineParser.operandText source p q := by
  have hlast := h.lastStop_eq (hpasses.consumed_ne_nil hconsumed)
  cases source with
  | some source =>
    rw [StreamParser.operandText, LineParser.operandText, hstart.current_eq, hlast]
  | none =>
    have hread : s.consumed = ts.reverse ++ start.consumed := by
      rw [h.consumed, hpasses.consumed, hstart.consumed, List.append_assoc]
    simp [StreamParser.operandText, LineParser.operandText, hread, hpasses.ahead]

/-- Skipping ends where the line does. -/
theorem Matches.skipLine (h : C.Matches s p) (hfuel : p.ahead.length < fuel) :
    ∃ t, s.skipLine fuel = some t ∧
      C.Matches t ⟨p.ahead.reverse ++ p.consumed, [], p.stop, p.reports⟩ := by
  obtain ⟨c, a, stop, r⟩ := p
  obtain ⟨fuel, rfl⟩ := Nat.exists_eq_add_one.2 (Nat.zero_lt_of_lt hfuel)
  induction a generalizing s c fuel with
  | nil =>
    have hends : s.endsLine = true := h.endsLine_iff
    refine ⟨s, ?_, h⟩
    rw [StreamParser.skipLine, if_pos hends]
    rfl
  | cons t a ih =>
    have hends : s.endsLine = false := h.endsLine_iff
    have hmore : a.length < fuel := Nat.lt_of_succ_lt_succ hfuel
    obtain ⟨fuel, rfl⟩ := Nat.exists_eq_add_one.2 (Nat.zero_lt_of_lt hmore)
    obtain ⟨u, hskip, hu⟩ := ih (t :: c) (h.advance (List.cons_ne_nil _ _)).1 fuel hmore
    refine ⟨u, ?_, by simpa using hu⟩
    rw [StreamParser.skipLine, if_neg (by simp [hends]), hskip]

/-- The tokens of a line and the end of the line were passed over, and the given reports were made
on the line. -/
structure Crosses (C : Setting σ) (s : StreamParser σ) (line : List Token)
    (reports : List (Report SyntaxError)) (t : StreamParser σ) : Prop where
  consumed : t.consumed = (line ++ C.behind.take 1).reverse ++ s.consumed
  reports : t.reports = reports ++ C.reports
  upcoming : t.Upcoming C.behind.tail C.ending C.left

/-- At the end of a line the parser goes over to the next one. -/
theorem Matches.finish (h : C.Matches s p) (hfuel : p.ahead.length < fuel) :
    ∃ t, s.finish fuel (!p.reports.isEmpty) = some t ∧
      C.Crosses s p.ahead p.finish.reports t := by
  have hchecked : C.Matches
      (if s.endsLine || !p.reports.isEmpty then s else s.unexpected .newline) p.finish := by
    rw [h.endsLine_iff, LineParser.finish]
    split
    · exact h
    · exact h.unexpected .newline
  obtain ⟨hahead, hconsumed, hstop⟩ := LineParser.passes_finish p
  rw [List.nil_append] at hahead
  obtain ⟨t, hskip, ht⟩ := hchecked.skipLine (hahead ▸ hfuel)
  rw [List.reverse_nil, List.nil_append] at hconsumed
  rw [← hahead, hconsumed] at ht
  have hread : t.consumed = p.ahead.reverse ++ s.consumed := by
    rw [ht.consumed, h.consumed, List.append_assoc]
  have hupcoming : t.Upcoming C.behind C.ending C.left := ht.upcoming
  have hcurrent := hupcoming.current_eq
  have hreports := ht.reports
  rw [StreamParser.finish, hskip]
  cases hbehind : C.behind with
  | nil =>
    have hends := hupcoming.isEnd_stop
    rw [hbehind] at hupcoming hcurrent
    have hline : t.current.isNewline = false := by
      rw [hcurrent]
      simp_all [Token.isEnd, Token.isNewline]
    refine ⟨t, by simp [hline], ?_, hreports, by rwa [hbehind]⟩
    simpa [hbehind] using hread
  | cons u us =>
    have hinput := hupcoming.isEnd_of_mem u (by simp [hbehind])
    have hbounded := h.bounded
    rw [LineParser.Bounded, h.stop] at hbounded
    rw [hbehind] at hupcoming hcurrent hbounded
    have hline : t.current.isNewline = true := by
      rw [hcurrent]
      simp_all [Token.isEnd, Token.isNewline]
    obtain ⟨hpassed, hsame⟩ := hupcoming.consumed_advance
    refine ⟨t.advance, by simp [hline], ?_, hsame.trans hreports, ?_⟩
    · simp [hpassed, hread, hbehind]
    · rw [hbehind]
      exact hupcoming.advance

/-- After the operand of a statement the rest of its line is passed over. -/
theorem Matches.finish_behind {t : StreamParser σ} {ts : List Token} (h : C.Matches s p)
    (hclean : p.reports = []) (hpasses : LineParser.Passes ts p q) (ht : C.Matches t q)
    (hfuel : p.ahead.length < fuel) :
    ∃ u, t.finish fuel (s.reports.length < t.reports.length) = some u ∧
      C.Crosses s p.ahead q.finish.reports u := by
  have hfailed : decide (s.reports.length < t.reports.length) = !q.reports.isEmpty := by
    rw [h.reports, ht.reports, hclean]
    cases q.reports with
    | nil => simp
    | cons r rs =>
      refine decide_eq_true ?_
      simp only [List.length_append, List.length_cons, List.length_nil]
      omega
  have hread : t.consumed = ts.reverse ++ s.consumed := by
    rw [ht.consumed, hpasses.consumed, h.consumed, List.append_assoc]
  obtain ⟨u, hfinish, hconsumed, hreports, hupcoming⟩ :=
    ht.finish (Nat.lt_of_le_of_lt hpasses.length_le hfuel)
  refine ⟨u, hfailed ▸ hfinish, ?_, hreports, hupcoming⟩
  rw [hconsumed, hread, hpasses.ahead]
  simp

/-- A statement is read from the stream as it is from its line, up to the beginning of the next
line. -/
theorem Matches.statement (h : C.Matches s p) (hclean : p.reports = []) (source : Option Text)
    (hfuel : 5 * p.ahead.length + 4 ≤ fuel) :
    ∃ u, s.statement fuel source = some ((p.statement source).1, u) ∧
      C.Crosses s p.ahead (p.statement source).2.reports u := by
  have hshort : p.ahead.length < fuel := by omega
  have hsigned (m : Mark) (hkind : p.current.kind = .mark m) :
      ∃ t u, s.advance.expression fuel = some (p.advance.operand.1, t) ∧
        t.spanFrom p.current = p.advance.operand.2.spanFrom p.current ∧
        StreamParser.operandText source s.advance t =
          LineParser.operandText source p.advance p.advance.operand.2 ∧
        t.finish fuel (s.reports.length < t.reports.length) = some u ∧
        C.Crosses s p.ahead p.advance.operand.2.finish.reports u := by
    obtain ⟨hadvance, hconsumed, hshorter⟩ := h.pass (by simp [hkind]) (by simp [hkind])
    have hsign := (h.bounded.reads_advance (by simp [hkind]) (by simp [hkind])).passes
    obtain ⟨ts, hpasses, -⟩ := LineParser.takes_operand hadvance.bounded
    have hoperand : 5 * p.advance.ahead.length + 4 ≤ fuel := by omega
    obtain ⟨t, hread, ht⟩ := hadvance.operand hoperand
    obtain ⟨u, hfinish, hu⟩ := h.finish_behind hclean (hsign.trans hpasses) ht hshort
    exact ⟨t, u, hread, ht.spanFrom_eq (hpasses.consumed_ne_nil hconsumed) _,
      hadvance.operandText_eq source hconsumed ht hpasses, hfinish, hu⟩
  have hexpr : ∃ t u, s.expression fuel = some (p.operand.1, t) ∧
      t.finish fuel (s.reports.length < t.reports.length) = some u ∧
      C.Crosses s p.ahead p.operand.2.finish.reports u := by
    obtain ⟨ts, hpasses, -⟩ := LineParser.takes_operand h.bounded
    obtain ⟨t, hread, ht⟩ := h.operand hfuel
    obtain ⟨u, hfinish, hu⟩ := h.finish_behind hclean hpasses ht hshort
    exact ⟨t, u, hread, hfinish, hu⟩
  rw [StreamParser.statement, LineParser.statement, h.current_eq]
  cases hkind : p.current.kind with
  | mark m =>
    cases m with
    | greater | less | tilde =>
      obtain ⟨t, u, hread, hspan, htext, hfinish, hu⟩ := hsigned _ hkind
      exact ⟨u, by simp [hread, hspan, htext, hfinish], hu⟩
    | _ =>
      obtain ⟨t, u, hread, hfinish, hu⟩ := hexpr
      exact ⟨u, by simp [hread, hfinish], hu⟩
  | _ =>
    obtain ⟨t, u, hread, hfinish, hu⟩ := hexpr
    exact ⟨u, by simp [hread, hfinish], hu⟩

end Setting

/-! ## Scripts -/

namespace StreamParser

variable {s u q : StreamParser σ} {t ending : Token} {ts behind : List Token} {left : σ}
  {fuel : Nat}

/-- One statement and its line in the tokens that come. -/
theorem Upcoming.statement (hs : s.Upcoming (ts ++ behind) ending left)
    (hts : ∀ t ∈ ts, t.kind ≠ .newline) (hbehind : ∀ t ∈ behind.head?, t.kind = .newline)
    (source : Option Text) (hfuel : 5 * ts.length + 4 ≤ fuel) :
    ∃ u, s.statement fuel source =
        some ((Line.parse source ⟨ts, behind.headD ending⟩).1, u) ∧
      Setting.Crosses ⟨s.consumed, behind, ending, left, s.reports⟩ s ts
        (Line.parse source ⟨ts, behind.headD ending⟩).2.reverse u := by
  have hstop : (behind.headD ending).kind = .newline ∨
      (behind.headD ending).kind = .endOfInput := by
    cases behind with
    | nil => exact Or.inr (by simpa [Token.isEnd] using hs.isEnd_stop)
    | cons t behind => exact Or.inl (hbehind t rfl)
  have hline : Setting.Matches ⟨s.consumed, behind, ending, left, s.reports⟩ s
      (.ofLine ⟨ts, behind.headD ending⟩) :=
    ⟨rfl, hs, rfl, rfl, hstop, hts⟩
  obtain ⟨u, hstatement, hu⟩ := hline.statement rfl source hfuel
  exact ⟨u, hstatement, by rwa [Line.parse, List.reverse_reverse]⟩

theorem skipNewlines_eq (h : s.current.isNewline = false) (hfuel : 0 < fuel) :
    s.skipNewlines fuel = some s := by
  obtain ⟨fuel, rfl⟩ := Nat.exists_eq_add_one.2 hfuel
  rw [skipNewlines, if_neg (by simp [h])]
  rfl

theorem Upcoming.isNewline_current (hs : s.Upcoming [] ending left) :
    s.current.isNewline = false := by
  have hend := hs.isEnd_stop
  have hcurrent : s.current = ending := hs.current_eq
  rw [hcurrent]
  simp_all [Token.isEnd, Token.isNewline]

/-- More fuel than there are tokens makes no difference. -/
theorem Upcoming.skipNewlines_succ (hs : s.Upcoming ts ending left) (hfuel : ts.length < fuel) :
    s.skipNewlines (fuel + 1) = s.skipNewlines fuel := by
  induction ts generalizing s fuel with
  | nil =>
    have hline := hs.isNewline_current
    rw [skipNewlines_eq hline (Nat.succ_pos fuel), skipNewlines_eq hline hfuel]
  | cons t ts ih =>
    obtain ⟨fuel, rfl⟩ := Nat.exists_eq_add_one.2 (Nat.zero_lt_of_lt hfuel)
    have hothers := ih hs.advance (Nat.lt_of_succ_lt_succ hfuel)
    rw [skipNewlines, hothers, skipNewlines]

/-- At the end of the input there is no statement. -/
theorem Upcoming.statements_nil (hs : s.Upcoming [] ending left) (source : Option Text)
    (hfuel : 1 < fuel) :
    s.statements source fuel = some ([], ⟨s.consumed, ending, left, s.reports⟩) := by
  obtain ⟨fuel, rfl⟩ := Nat.exists_eq_add_one.2 (Nat.zero_lt_of_lt hfuel)
  have hend : s.current.isEnd = true := by
    rw [hs.current_eq]
    exact hs.isEnd_stop
  rw [statements, skipNewlines_eq hs.isNewline_current (Nat.lt_of_succ_lt_succ hfuel)]
  cases hs with
  | stop => simp [hend]

/-- The end of a line in front of statements makes no difference. -/
theorem Upcoming.statements_blank (hs : s.Upcoming (t :: ts) ending left)
    (ht : t.kind = .newline) (source : Option Text) (hfuel : ts.length < fuel) :
    s.statements source (fuel + 2) = s.advance.statements source (fuel + 2) := by
  have hline : s.current.isNewline = true := by
    rw [hs.current_eq]
    simp [Token.isNewline, ht]
  have hskip := hs.advance.skipNewlines_succ hfuel
  rw [statements, statements, skipNewlines, if_pos hline, hskip]

/-- A statement in front of others. -/
theorem Upcoming.statements_cons (hs : s.Upcoming (t :: ts) ending left) (ht : t.kind ≠ .newline)
    {source : Option Text} {first : Stmt Span} {others : List (Stmt Span)}
    (hfuel : 0 < fuel) (hfirst : s.statement fuel source = some (first, u))
    (hothers : u.statements source fuel = some (others, q)) :
    s.statements source (fuel + 1) = some (first :: others, q) := by
  have hline : s.current.isNewline = false := by
    rw [hs.current_eq]
    simp [Token.isNewline, ht]
  have hend : s.current.isEnd = false := by
    rw [hs.current_eq]
    exact hs.isEnd_of_mem t List.mem_cons_self
  rw [statements, skipNewlines_eq hline hfuel]
  simp [hend, hfirst, hothers]

/-- Every line of the tokens that come is read as one statement, up to the end of the input. -/
theorem Upcoming.statements (hs : s.Upcoming ts ending left) (source : Option Text)
    (hfuel : 5 * ts.length + 6 ≤ fuel) :
    s.statements source fuel =
      some ((Line.filled ending ts).map (fun l => (l.parse source).1),
        ⟨ts.reverse ++ s.consumed, ending, left,
          ((Line.filled ending ts).flatMap fun l => (l.parse source).2).reverse ++ s.reports⟩) := by
  induction ts using Line.induction generalizing s fuel with
  | empty => exact hs.statements_nil source (by omega)
  | blank t us ht ih =>
    obtain ⟨hconsumed, hreports⟩ := hs.consumed_advance
    rw [List.length_cons] at hfuel
    have hothers := ih hs.advance (show 5 * us.length + 6 ≤ fuel by omega)
    obtain ⟨fuel, rfl⟩ := Nat.exists_eq_add_of_le' (show 2 ≤ fuel by omega)
    rw [hs.statements_blank ht source (by omega), hothers, hconsumed, hreports,
      Line.filled_blank ht, List.reverse_cons, List.append_assoc, List.singleton_append]
  | last ts hts hne =>
    obtain ⟨fuel, rfl⟩ := Nat.exists_eq_add_of_le' (show 1 ≤ fuel by omega)
    rw [← List.append_nil ts] at hs
    obtain ⟨u, hfirst, hconsumed, hreports, hupcoming⟩ :=
      hs.statement hts (by simp) source (show 5 * ts.length + 4 ≤ fuel by omega)
    have hothers := Upcoming.statements_nil hupcoming source (show 1 < fuel by omega)
    rw [hconsumed, hreports] at hothers
    rw [Line.filled_last hts hne]
    obtain ⟨t, ts, rfl⟩ := List.exists_cons_of_ne_nil hne
    rw [hs.statements_cons (hts t List.mem_cons_self) (by omega) hfirst hothers]
    simp
  | line ts t us hts hne ht ih =>
    rw [List.length_append, List.length_cons] at hfuel
    obtain ⟨fuel, rfl⟩ := Nat.exists_eq_add_of_le' (show 1 ≤ fuel by omega)
    obtain ⟨u, hfirst, hconsumed, hreports, hupcoming⟩ :=
      hs.statement hts (by simpa using ht) source (show 5 * ts.length + 4 ≤ fuel by omega)
    have hothers := ih hupcoming (show 5 * us.length + 6 ≤ fuel by omega)
    rw [hconsumed, hreports] at hothers
    rw [Line.filled_line hts hne ht]
    obtain ⟨t', ts, rfl⟩ := List.exists_cons_of_ne_nil hne
    rw [hs.statements_cons (hts t' List.mem_cons_self) (by omega) hfirst hothers]
    simp

end StreamParser

end WireScript
