import WireScript.Proofs.Grammar.Passes

/-!
# Counting faults

Behind a fault the parser goes on with what stands in for the missing part, so that it may find
several in one line.  They can be counted in one pass from left to right.

* `FaultScanner` is this pass.  It keeps a stack of what was opened, and it knows no levels of
  operators: of those that it passed it remembers whether a comparison may follow.
* `LineParser.total` adds the faults that the pass counts ahead of a position to the reports made so
  far, and `LineParser.totalBehind` does so from the end of an expression on.  A step of the parser
  that passes a token or makes a report leaves the sum as it is, if the scanner makes the same step.
-/

namespace WireScript

/-! ## The scanner -/

/-- What was opened and is not closed yet.  A group or an embedded expression stands in an operand,
and so it knows whether a comparison may follow behind it. -/
inductive Opening where
  | group (compared : Bool)
  | embedding (compared : Bool)
  /-- The value of an assignment, to a bare name or to something else. -/
  | value (named : Bool)

/-- Where in an expression a pass over a line has come to. -/
structure FaultScanner where
  /-- Whether an operand is wanted next, rather than something behind one. -/
  wanted : Bool
  /-- Whether nothing of the expression was passed but a bare name, if that. -/
  bare : Bool
  /-- Whether a comparison cannot follow, since it would compare the result of another one. -/
  compared : Bool
  openings : List Opening

/-- Whether a comparison cannot follow an operator and its right operand: behind a tighter operator
this is as it was in front of it. -/
def Operator.comparedBehind (op : Operator) (compared : Bool) : Bool :=
  op.isComparison || (compared && decide (3 < op.precedence))

namespace FaultScanner

/-- The beginning of an expression. -/
def beginning (openings : List Opening) : FaultScanner := ⟨true, true, false, openings⟩

/-- Passes a token where an operand is wanted.  It is a fault if no operand starts with it. -/
def beginOperand (s : FaultScanner) (t : Token) : Nat × FaultScanner :=
  match t.kind with
  | .mark .not | .mark .minus => (0, { s with bare := false })
  | .name _ => (0, { s with wanted := false })
  | .integer _ | .string _ | .mark .dot | .templateStart _ false =>
    (0, { s with wanted := false, bare := false })
  | .mark .openGroup => (0, beginning (.group s.compared :: s.openings))
  | .templateStart _ true => (0, beginning (.embedding s.compared :: s.openings))
  | _ => (1, { s with wanted := false, bare := false })

/-- Passes a token that continues the expression behind an operand. -/
def goOn (s : FaultScanner) (t : Token) : Option FaultScanner :=
  match t.operator? with
  | some op =>
    if s.compared && op.isComparison then none
    else some ⟨true, false, op.comparedBehind s.compared, s.openings⟩
  | none => if t.isMark .assign then some (beginning (.value s.bare :: s.openings)) else none

/-- Passes a token that continues the expression, or else goes on as given. -/
def goOnOr (s : FaultScanner) (t : Token) (ended : Nat × Option FaultScanner) :
    Nat × Option FaultScanner :=
  match s.goOn t with
  | some next => (0, some next)
  | none => ended

/-- Leaves expressions up to one that a token closes or continues.  What is left without being
closed is a fault, and so is an assignment to something else than a name. -/
def close (t : Token) : List Opening → Nat × Option FaultScanner
  | [] => (0, none)
  | .value named :: openings =>
    let (n, next) := close t openings
    (n + if named then 0 else 1, next)
  | .group compared :: openings =>
    let behind : FaultScanner := ⟨false, false, compared, openings⟩
    if t.isMark .closeGroup then (0, some behind)
    else
      let (n, next) := behind.goOnOr t (close t openings)
      (n + 1, next)
  | .embedding compared :: openings =>
    let behind : FaultScanner := ⟨false, false, compared, openings⟩
    match t.kind with
    | .templatePart _ true => (0, some (beginning (.embedding compared :: openings)))
    | .templatePart _ false => (0, some behind)
    | _ =>
      let (n, next) := behind.goOnOr t (close t openings)
      (n + 1, next)

/-- Passes a token; nothing is passed behind the one that ends the whole expression. -/
def step (s : FaultScanner) (t : Token) : Nat × Option FaultScanner :=
  if s.wanted then
    let (n, next) := s.beginOperand t
    (n, some next)
  else s.goOnOr t (close t s.openings)

/-- Counts the faults in tokens in front of the end of a line. -/
def faults (stop : Token) : FaultScanner → List Token → Nat
  | s, [] => (if s.wanted then 1 else 0) + (close stop s.openings).1
  | s, t :: ts => (s.step t).1 + (s.step t).2.elim 0 fun next => faults stop next ts

/-- Counts the faults from the end of an expression on. -/
def faultsBehind (stop : Token) (openings : List Opening) (ts : List Token) : Nat :=
  let (n, next) := close (ts.headD stop) openings
  n + next.elim 0 fun next => faults stop next ts.tail

variable {s next : FaultScanner} {t stop : Token} {ts : List Token} {openings : List Opening}

theorem goOn_of_ends (h : t.kind = .newline ∨ t.kind = .endOfInput) : s.goOn t = none := by
  rcases h with h | h <;> simp [goOn, Token.operator?, Token.isMark, h]

theorem goOn_of_assign (h : t.isMark .assign = true) :
    s.goOn t = some (beginning (.value s.bare :: s.openings)) := by
  have hkind : t.kind = .mark .assign := by simpa [Token.isMark] using h
  simp [goOn, Token.operator?, hkind, Mark.operator?, h]

theorem goOn_of_operator {op : Operator} (hop : t.operator? = some op)
    (h : (s.compared && op.isComparison) = false) :
    s.goOn t = some ⟨true, false, op.comparedBehind s.compared, s.openings⟩ := by
  simp [goOn, hop, h]

theorem goOn_eq_none (hassign : t.isMark .assign = false)
    (h : ∀ op, t.operator? = some op → s.compared = true ∧ op.isComparison = true) :
    s.goOn t = none := by
  unfold goOn
  split
  · next op hop =>
    obtain ⟨hcompared, hop⟩ := h op hop
    simp [hcompared, hop]
  · simp [hassign]

/-- Nothing is closed by the end of a line. -/
theorem close_of_ends (h : t.kind = .newline ∨ t.kind = .endOfInput) (openings : List Opening) :
    (close t openings).2 = none := by
  induction openings with
  | nil => rfl
  | cons opening openings ih =>
    cases opening with
    | value named => exact ih
    | group compared =>
      rcases h with h | h <;> simpa [close, goOnOr, goOn, Token.operator?, Token.isMark, h] using ih
    | embedding compared =>
      rcases h with h | h <;> simpa [close, goOnOr, goOn, Token.operator?, Token.isMark, h] using ih

theorem faults_of_goOn (hs : s.wanted = false) (h : s.goOn t = some next) :
    faults stop s (t :: ts) = faults stop next ts := by
  simp [faults, step, hs, goOnOr, h]

/-- An expression ends where nothing continues it. -/
theorem faults_of_not_goOn (hstop : stop.kind = .newline ∨ stop.kind = .endOfInput)
    (hs : s.wanted = false) (h : s.goOn (ts.headD stop) = none) :
    faults stop s ts = faultsBehind stop s.openings ts := by
  cases ts with
  | nil => simp [faults, faultsBehind, hs, close_of_ends hstop]
  | cons t ts =>
    rw [List.headD_cons] at h
    simp [faults, faultsBehind, step, hs, goOnOr, h]

theorem faultsBehind_nil : faultsBehind stop [] ts = 0 := by
  simp [faultsBehind, close]

theorem faultsBehind_value (named : Bool) : faultsBehind stop (.value named :: openings) ts =
    faultsBehind stop openings ts + if named then 0 else 1 := by
  simp only [faultsBehind, close]
  omega

/-- What continues an expression behind something that was left open. -/
theorem faultsBehind_goOnOr (hstop : stop.kind = .newline ∨ stop.kind = .endOfInput)
    (hs : s.wanted = false) :
    (s.goOnOr (ts.headD stop) (close (ts.headD stop) s.openings)).1 +
        (s.goOnOr (ts.headD stop) (close (ts.headD stop) s.openings)).2.elim 0
          (fun next => faults stop next ts.tail) = faults stop s ts := by
  cases h : s.goOn (ts.headD stop) with
  | none =>
    rw [faults_of_not_goOn hstop hs h]
    simp only [goOnOr, h]
    rfl
  | some next =>
    cases ts with
    | nil => simp [goOn_of_ends hstop] at h
    | cons t ts =>
      rw [List.headD_cons] at h
      simp [goOnOr, h, faults_of_goOn hs h]

/-- A group that is not closed is a fault, and what it stands in goes on. -/
theorem faultsBehind_group (hstop : stop.kind = .newline ∨ stop.kind = .endOfInput)
    (compared : Bool) (h : (ts.headD stop).isMark .closeGroup = false) :
    faultsBehind stop (.group compared :: openings) ts =
      faults stop ⟨false, false, compared, openings⟩ ts + 1 := by
  rw [← faultsBehind_goOnOr hstop rfl]
  simp only [faultsBehind, close, h, Bool.false_eq_true, if_false]
  omega

/-- So is an embedded expression. -/
theorem faultsBehind_embedding (hstop : stop.kind = .newline ∨ stop.kind = .endOfInput)
    (compared : Bool) (h : ∀ text continues, (ts.headD stop).kind ≠ .templatePart text continues) :
    faultsBehind stop (.embedding compared :: openings) ts =
      faults stop ⟨false, false, compared, openings⟩ ts + 1 := by
  rw [← faultsBehind_goOnOr hstop rfl]
  simp only [faultsBehind, close]
  split
  · next hkind => exact absurd hkind (h _ _)
  · next hkind => exact absurd hkind (h _ _)
  · dsimp only
    omega

end FaultScanner

namespace LineParser

open FaultScanner

variable {p : LineParser} {s next : FaultScanner} {openings : List Opening}

/-! ## Positions -/

/-- The reports made so far and the faults ahead. -/
def total (s : FaultScanner) (p : LineParser) : Nat :=
  p.reports.length + s.faults p.stop p.ahead

/-- The reports made so far and the faults ahead, from the end of an expression on. -/
def totalBehind (openings : List Opening) (p : LineParser) : Nat :=
  p.reports.length + faultsBehind p.stop openings p.ahead

/-- A token that does not end lines is passed with its fault. -/
theorem Bounded.total_step (hp : p.Bounded) (hline : p.current.kind ≠ .newline)
    (hinput : p.current.kind ≠ .endOfInput) {n : Nat} (h : s.step p.current = (n, some next)) :
    total s p = total next p.advance + n := by
  have hreads := hp.reads_advance hline hinput
  rw [total, total, hreads.reports, hreads.stop, hreads.ahead, List.singleton_append, faults, h]
  dsimp only [Option.elim_some]
  omega

/-- A token that starts an operand is passed without one. -/
theorem Bounded.total_operand (hp : p.Bounded) (hs : s.wanted = true)
    (hline : p.current.kind ≠ .newline) (hinput : p.current.kind ≠ .endOfInput)
    (h : s.beginOperand p.current = (0, next)) : total s p = total next p.advance := by
  have hstep : s.step p.current = (0, some next) := by simp [step, hs, h]
  exact hp.total_step hline hinput hstep

theorem Bounded.total_goOn (hp : p.Bounded) (hs : s.wanted = false)
    (h : s.goOn p.current = some next) : total s p = total next p.advance := by
  have hstep : s.step p.current = (0, some next) := by simp [step, hs, goOnOr, h]
  refine hp.total_step (fun hkind => ?_) (fun hkind => ?_) hstep
  · simp [goOn_of_ends (Or.inl hkind)] at h
  · simp [goOn_of_ends (Or.inr hkind)] at h

/-- An expression ends where nothing continues it. -/
theorem Bounded.total_of_not_goOn (hp : p.Bounded) (hs : s.wanted = false)
    (h : s.goOn p.current = none) : total s p = totalBehind s.openings p := by
  rw [total, totalBehind, faults_of_not_goOn hp hs h]

theorem length_reports_unexpected (p : LineParser) (wanted : Wanted) :
    (p.unexpected wanted).reports.length = p.reports.length + 1 := by
  dsimp only [unexpected]
  split <;> rfl

theorem ahead_advance (p : LineParser) : p.advance.ahead = p.ahead.tail := by
  unfold advance
  cases hahead : p.ahead with
  | nil => exact hahead
  | cons t ts => rfl

/-- The token in the place of an operand is passed with one fault and one report. -/
theorem total_missingOperand {b c : Bool}
    (h : beginOperand ⟨true, b, c, openings⟩ p.current = (1, ⟨false, false, c, openings⟩)) :
    total ⟨true, b, c, openings⟩ p = total ⟨false, false, c, openings⟩ (missingOperand p).2 := by
  obtain ⟨us, hus⟩ := passes_advance (p.unexpected .expression)
  have hpasses := passes_unexpected p .expression
  have hahead : p.ahead = (p.unexpected .expression).ahead := hpasses.ahead
  have hstop : (missingOperand p).2.stop = p.stop := hus.stop.trans hpasses.stop
  have htail : (missingOperand p).2.ahead = p.ahead.tail := by
    rw [missingOperand, ahead_advance, hahead]
  have hreports : (missingOperand p).2.reports.length = p.reports.length + 1 := by
    rw [missingOperand, reports_advance, length_reports_unexpected]
  rw [total, total, hreports, hstop, htail]
  cases hp : p.ahead with
  | nil =>
    simp only [List.tail_nil, faults, if_true, Bool.false_eq_true, if_false]
    omega
  | cons t ts =>
    have hcurrent : p.current = t := by rw [current, hp, List.headD_cons]
    rw [hcurrent] at h
    simp only [List.tail_cons, faults, step, if_true, h, Option.elim_some]
    omega

theorem totalBehind_report (cause : SyntaxError) (span : Span) :
    totalBehind openings (p.report cause span) = totalBehind openings p + 1 := by
  simp only [totalBehind, report, List.length_cons]
  omega

theorem totalBehind_value (named : Bool) : totalBehind (.value named :: openings) p =
    totalBehind openings p + if named then 0 else 1 := by
  rw [totalBehind, totalBehind, faultsBehind_value]
  omega

/-- What closes a group is passed. -/
theorem Bounded.totalBehind_closeGroup (hp : p.Bounded) (c : Bool)
    (h : p.current.isMark .closeGroup = true) :
    totalBehind (.group c :: openings) p = total ⟨false, false, c, openings⟩ p.advance := by
  have hkind : p.current.kind = .mark .closeGroup := by simpa [Token.isMark] using h
  have hreads := hp.reads_advance (by simp [hkind]) (by simp [hkind])
  rw [totalBehind, total, hreads.reports, hreads.stop, hreads.ahead]
  simp [faultsBehind, close, h]

/-- A group that is not closed has one fault and one report. -/
theorem Bounded.totalBehind_unclosedGroup (hp : p.Bounded) (c : Bool)
    (h : p.current.isMark .closeGroup = false) (cause : SyntaxError) (span : Span) :
    totalBehind (.group c :: openings) p =
      total ⟨false, false, c, openings⟩ (p.report cause span) := by
  rw [totalBehind, total, faultsBehind_group hp c h]
  simp only [report, List.length_cons]
  omega

/-- A segment closes an embedded expression; another one may follow. -/
theorem Bounded.totalBehind_templatePart (hp : p.Bounded) (c : Bool) {text : Text}
    {continues : Bool} (hkind : p.current.kind = .templatePart text continues) :
    totalBehind (.embedding c :: openings) p =
      total (if continues then beginning (.embedding c :: openings)
        else ⟨false, false, c, openings⟩) p.advance := by
  have hreads := hp.reads_advance (by simp [hkind]) (by simp [hkind])
  rw [totalBehind, total, hreads.reports, hreads.stop, hreads.ahead]
  cases continues <;> simp [faultsBehind, close, hkind]

theorem Bounded.totalBehind_unclosedTemplate (hp : p.Bounded) (c : Bool)
    (h : ∀ text continues, p.current.kind ≠ .templatePart text continues) (cause : SyntaxError)
    (span : Span) :
    totalBehind (.embedding c :: openings) p =
      total ⟨false, false, c, openings⟩ (p.report cause span) := by
  rw [totalBehind, total, faultsBehind_embedding hp c h]
  simp only [report, List.length_cons]
  omega

end LineParser

end WireScript
