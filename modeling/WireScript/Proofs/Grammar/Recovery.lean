import WireScript.Proofs.Grammar.Faults

/-!
# Every fault is reported once

The parser reports the faults of a line that the scanner counts, and nothing else but the end of a
line without faults.

* Comparisons.  The scanner does not know at which level an operator is read.  `Tracks` says that
  what it remembers of comparisons tells all the same whether a reader at a level takes the operator
  ahead, and `Tracks.behind` that this stays so behind an operator.
* Readers.  `CountedAt` says that readers of expressions keep the sum of reports and faults ahead.
  It is proved by induction on the depth, with one lemma for each reader.
* Lines.  `Line.length_reports` says how many reports a line leads to.
-/

namespace WireScript

/-- Whether an expression is a bare name. -/
def Expr.isName {α : Type} : Expr α → Bool
  | .name .. => true
  | _ => false

theorem Expr.isName_apply {α : Type} (op : Operator) (a : α) (l r : Expr α) :
    (op.apply a l r).isName = false := by
  cases op <;> rfl

theorem isName_template (stop : Location) (parts : List (Expr Span)) :
    (LineParser.template stop parts).isName = false := by
  cases parts <;> rfl

namespace Operator

variable {op : Operator} {compared : Bool}

theorem isComparison_iff : op.isComparison = true ↔ op.precedence = 3 := by
  simp [isComparison]

theorem comparedBehind_of_tight (h : 3 < op.precedence) (compared : Bool) :
    op.comparedBehind compared = compared := by
  have hne : op.precedence ≠ 3 := by omega
  simp [comparedBehind, isComparison, hne, h]

theorem le_of_comparedBehind (h : op.comparedBehind compared = true) : 4 ≤ op.precedence + 1 := by
  rcases Bool.or_eq_true_iff.1 h with hcompares | hboth
  · have hthree := isComparison_iff.1 hcompares
    omega
  · have htight : 3 < op.precedence := by simpa using (Bool.and_eq_true_iff.1 hboth).2
    omega

end Operator

namespace LineParser

open FaultScanner

variable {p q : LineParser} {openings : List Opening} {depth least : Nat} {last : Option Operator}
  {bare compared compared' : Bool} {op : Operator} {left : Expr Span}

/-! ## Comparisons -/

/-- The operator ahead, if there is one, does not continue what was read at a level. -/
def Stops (least : Nat) (compared : Bool) (p : LineParser) : Prop :=
  ∀ op, p.current.operator? = some op →
    op.precedence < least ∨ compared = true ∧ op.isComparison = true

/-- What the scanner remembers of comparisons is enough to know what a reader at a level does with
the operator ahead, when the operator `last` has been dealt with. -/
structure Tracks (least : Nat) (last : Option Operator) (compared : Bool) (p : LineParser) :
    Prop where
  refuses : ∀ op, p.current.operator? = some op → least ≤ op.precedence →
    refuses last op = (compared && op.isComparison)
  last : compared = true → least ≤ 3 → ∃ op, last = some op ∧ op.precedence ≤ 3

theorem tracks_none (h : compared = true → 4 ≤ least) (p : LineParser) :
    Tracks least none compared p := by
  constructor
  · intro op _ hle
    cases compared with
    | false => rfl
    | true =>
      have hleast := h rfl
      have hne : op.precedence ≠ 3 := by omega
      simp [LineParser.refuses, Operator.isComparison, hne]
  · intro hcompared hle
    have hleast := h hcompared
    omega

theorem refuses_some (last op : Operator) : refuses (some last) op =
    (decide (last.precedence < op.precedence) || (last.isComparison && op.isComparison)) :=
  rfl

/-- At a level of comparisons or a looser one, no tighter operator is taken behind a comparison. -/
theorem Tracks.compared_eq_false (h : Tracks least last compared p) (hleast : least ≤ 3)
    (hrefused : LineParser.refuses last op = false) (htight : 3 < op.precedence) :
    compared = false := by
  cases compared with
  | false => rfl
  | true =>
    obtain ⟨looser, rfl, hloose⟩ := h.last rfl hleast
    have hlt : looser.precedence < op.precedence := by omega
    simp [refuses_some, hlt] at hrefused

/-- What is remembered is enough behind an operator and its right operand as well. -/
theorem Tracks.behind (h : Tracks least last compared p)
    (hrefused : LineParser.refuses last op = false)
    (hright : 3 ≤ op.precedence → compared' = op.comparedBehind compared)
    (hq : Stops (op.precedence + 1) compared' q) : Tracks least (some op) compared' q := by
  have htighter (hleast : least ≤ 3) (htight : 3 < op.precedence) : compared' = false := by
    rw [hright (by omega), Operator.comparedBehind_of_tight htight]
    exact h.compared_eq_false hleast hrefused htight
  constructor
  · intro op' hop' hle'
    rw [refuses_some]
    cases hcompares : op'.isComparison with
    | false =>
      -- nothing but a tighter operator is refused, and that one was read with the right operand
      have hloose : op'.precedence < op.precedence + 1 := by simpa [hcompares] using hq op' hop'
      have hnot : ¬ op.precedence < op'.precedence := by omega
      simp [hnot]
    | true =>
      have hthree := Operator.isComparison_iff.1 hcompares
      rcases Nat.lt_trichotomy op.precedence 3 with hlt | heq | htight
      · have hstuck : compared' = true := by
          have hloose : ¬ op'.precedence < op.precedence + 1 := by omega
          exact ((hq op' hop').resolve_left hloose).1
        simp [hthree, hlt, hstuck]
      · have hcompared : compared' = true := by
          simp [hright (by omega), Operator.comparedBehind, Operator.isComparison, heq]
        simp [hthree, Operator.isComparison, heq, hcompared]
      · have hne : op.precedence ≠ 3 := by omega
        have hnot : ¬ op.precedence < 3 := by omega
        simp [htighter (by omega) htight, hthree, Operator.isComparison, hne, hnot]
  · intro hcompared hleast
    refine ⟨op, rfl, Nat.le_of_not_lt fun htight => ?_⟩
    rw [htighter hleast htight] at hcompared
    cases hcompared

/-! ## Readers -/

/-- A reader passed an operand, or operands with operators between them, and reported the faults
that the scanner counts there. -/
def Counts (bare compared : Bool) (openings : List Opening) (p : LineParser)
    (x : Expr Span × LineParser) (compared' : Bool) : Prop :=
  total ⟨true, bare, compared, openings⟩ p =
    total ⟨false, bare && x.1.isName && !p.current.isMark .openGroup, compared', openings⟩ x.2

/-- A reader at a level passed what continues an operand, and reported the faults that the scanner
counts there. -/
structure CountsOn (least : Nat) (bare compared : Bool) (openings : List Opening) (p : LineParser)
    (left : Expr Span) (x : Expr Span × LineParser) (bare' compared' : Bool) : Prop where
  total : total ⟨false, bare, compared, openings⟩ p =
    total ⟨false, bare', compared', openings⟩ x.2
  bare : x.1 = left ∧ bare' = bare ∨ x.1.isName = false ∧ bare' = false
  compared : 4 ≤ least → compared' = compared
  stops : Stops least compared' x.2

/-- Nothing continues an operand. -/
theorem Stops.countsOn (h : Stops least compared p) (bare : Bool) (openings : List Opening)
    (left : Expr Span) :
    CountsOn least bare compared openings p left (left, p) bare compared :=
  ⟨rfl, Or.inl ⟨rfl, rfl⟩, fun _ => rfl, h⟩

theorem Bounded.length_advance (hp : p.Bounded) (hline : p.current.kind ≠ .newline)
    (hinput : p.current.kind ≠ .endOfInput) : p.advance.ahead.length + 1 = p.ahead.length := by
  rw [(hp.reads_advance hline hinput).ahead]
  rfl

/-- A token that is an operand of its own is passed without a fault. -/
theorem Bounded.counts_token {e : Expr Span} (hp : p.Bounded) (hline : p.current.kind ≠ .newline)
    (hinput : p.current.kind ≠ .endOfInput)
    (h : beginOperand ⟨true, bare, compared, openings⟩ p.current =
      (0, ⟨false, bare && e.isName && !p.current.isMark .openGroup, compared, openings⟩)) :
    Counts bare compared openings p (e, p.advance) compared :=
  hp.total_operand rfl hline hinput h

/-- Nothing is read behind the last segment of a template. -/
theorem segments_false (hdepth : 0 < depth) (span : Span) (text : Text) (p : LineParser) :
    segments depth span text false p = (segmentParts span text, p) := by
  obtain ⟨depth, rfl⟩ := Nat.exists_eq_add_one.2 hdepth
  rfl

end LineParser

open LineParser FaultScanner

/-- Readers with a bound on the depth that is enough report the faults that the scanner counts. -/
structure CountedAt (depth : Nat) : Prop where
  -- Five readers call one another at most until a token is passed, and so a bound has five for each
  -- token ahead and as many more as there are readers from the one in question on.
  expression {p : LineParser} (openings : List Opening) : p.Bounded →
    5 * p.ahead.length + 5 ≤ depth →
    total (beginning openings) p = totalBehind openings (LineParser.expression depth p).2
  chain {p : LineParser} {least : Nat} {compared : Bool} (bare : Bool)
    (openings : List Opening) : p.Bounded → 5 * p.ahead.length + 4 ≤ depth →
    (compared = true → 4 ≤ least) →
    ∃ compared', Counts bare compared openings p (LineParser.chain depth least p) compared' ∧
      (4 ≤ least → compared' = compared) ∧
      Stops least compared' (LineParser.chain depth least p).2
  chainRest {p : LineParser} {least : Nat} {last : Option Operator} {compared : Bool}
    (start : Token) (left : Expr Span) (bare : Bool) (openings : List Opening) : p.Bounded →
    5 * p.ahead.length + 1 ≤ depth → Tracks least last compared p →
    ∃ bare' compared', CountsOn least bare compared openings p left
      (LineParser.chainRest depth least start last left p) bare' compared'
  unary {p : LineParser} (bare compared : Bool) (openings : List Opening) : p.Bounded →
    5 * p.ahead.length + 3 ≤ depth →
    Counts bare compared openings p (LineParser.unary depth p) compared
  primary {p : LineParser} (bare compared : Bool) (openings : List Opening) : p.Bounded →
    5 * p.ahead.length + 2 ≤ depth → p.current.kind ≠ .mark .not →
    p.current.kind ≠ .mark .minus →
    Counts bare compared openings p (LineParser.primary depth p) compared
  segments {p : LineParser} (span : Span) (text : Text) (compared : Bool)
    (openings : List Opening) : p.Bounded → 5 * p.ahead.length + 6 ≤ depth →
    total (beginning (.embedding compared :: openings)) p =
      total ⟨false, false, compared, openings⟩ (LineParser.segments depth span text true p).2

variable {depth least : Nat} {p q : LineParser} {last : Option Operator} {bare compared : Bool}

theorem CountedAt.expression_succ (h : CountedAt depth) (openings : List Opening) (hp : p.Bounded)
    (hdepth : 5 * p.ahead.length + 5 ≤ depth + 1) :
    total (beginning openings) p =
      totalBehind openings (LineParser.expression (depth + 1) p).2 := by
  obtain ⟨c, hcounts, -, hstops⟩ :=
    h.chain true openings hp (by omega) fun hfalse : false = true => nomatch hfalse
  have htakes := (takenAt depth).chain 1 hp
  rw [LineParser.expression]
  generalize LineParser.chain depth 1 p = x at hcounts hstops htakes ⊢
  obtain ⟨target, q⟩ := x
  have hq : q.Bounded := htakes.bounded hp
  have hlength : q.ahead.length ≤ p.ahead.length := htakes.length_le
  have htarget : total (beginning openings) p = total _ q := hcounts
  rw [htarget]
  dsimp only at hstops ⊢
  split
  · next hsign =>
    have hkind : q.current.kind = .mark .assign := by simpa [Token.isMark] using hsign
    have hadvance := hq.length_advance (by simp [hkind]) (by simp [hkind])
    have hvalue := h.expression (.value (target.isName && !p.current.isMark .openGroup) :: openings)
      (bounded_advance.2 hq) (by omega)
    rw [hq.total_goOn rfl (goOn_of_assign hsign), Bool.true_and, hvalue, totalBehind_value]
    generalize LineParser.expression depth q.advance = y
    obtain ⟨value, r⟩ := y
    cases target with
    | name note name => cases p.current.isMark .openGroup <;> simp [Expr.isName, totalBehind_report]
    | _ => simp [Expr.isName, totalBehind_report]
  · next hsign =>
    have hnone : ∀ op, q.current.operator? = some op → c = true ∧ op.isComparison = true :=
      fun op hop => (hstops op hop).resolve_left (by cases op <;> decide)
    rw [hq.total_of_not_goOn rfl (goOn_eq_none (by simpa using hsign) hnone)]

theorem CountedAt.chain_succ (h : CountedAt depth) (bare : Bool) (openings : List Opening)
    (hp : p.Bounded) (hdepth : 5 * p.ahead.length + 4 ≤ depth + 1)
    (hcompared : compared = true → 4 ≤ least) :
    ∃ compared', Counts bare compared openings p (LineParser.chain (depth + 1) least p) compared' ∧
      (4 ≤ least → compared' = compared) ∧
      Stops least compared' (LineParser.chain (depth + 1) least p).2 := by
  have hleft := h.unary bare compared openings hp (by omega)
  have htakes := (takenAt depth).unary hp
  rw [LineParser.chain]
  generalize LineParser.unary depth p = x at hleft htakes ⊢
  obtain ⟨left, q⟩ := x
  have hq : q.Bounded := htakes.bounded hp
  have hlength : q.ahead.length ≤ p.ahead.length := htakes.length_le
  obtain ⟨bare', compared', hrest⟩ := h.chainRest p.current left
    (bare && left.isName && !p.current.isMark .openGroup) openings hq (by omega)
    (tracks_none hcompared q)
  refine ⟨compared', ?_, hrest.compared, hrest.stops⟩
  have htotal := hleft.trans hrest.total
  rcases hrest.bare with ⟨hresult, rfl⟩ | ⟨hresult, rfl⟩
  · rw [Counts, htotal, hresult]
  · rw [Counts, htotal, hresult, Bool.and_false, Bool.false_and]

/-- An operator that is taken is read with its right operand, and then what follows these. -/
theorem CountedAt.chainRest_operator (h : CountedAt depth) (start : Token) (left : Expr Span)
    (bare : Bool) (openings : List Opening) (hp : p.Bounded)
    (hdepth : 5 * p.ahead.length + 1 ≤ depth + 1) (htracks : Tracks least last compared p)
    {op : Operator} (hop : p.current.operator? = some op) (hle : least ≤ op.precedence)
    (hrefused : refuses last op = false) :
    let right := LineParser.chain depth (op.precedence + 1) p.advance
    ∃ bare' compared', CountsOn least bare compared openings p left
      (LineParser.chainRest depth least start (some op)
        (op.apply (right.2.spanFrom start) left right.1) right.2) bare' compared' := by
  have hkind : p.current.kind ≠ .newline ∧ p.current.kind ≠ .endOfInput := by
    constructor <;> intro hkind <;> simp [Token.operator?, hkind] at hop
  have hadvance := hp.length_advance hkind.1 hkind.2
  have hafter := bounded_advance.2 hp
  have hgoOn : goOn ⟨false, bare, compared, openings⟩ p.current =
      some ⟨true, false, op.comparedBehind compared, openings⟩ :=
    goOn_of_operator hop ((htracks.refuses op hop hle).symm.trans hrefused)
  obtain ⟨compared₁, hright, hsame, hstops⟩ := h.chain false openings hafter (by omega)
    fun hcompared : op.comparedBehind compared = true => Operator.le_of_comparedBehind hcompared
  have htakes := (takenAt depth).chain (op.precedence + 1) hafter
  generalize LineParser.chain depth (op.precedence + 1) p.advance = x at hright hstops htakes ⊢
  obtain ⟨right, q⟩ := x
  have hq : q.Bounded := htakes.bounded hafter
  have hlength : q.ahead.length ≤ p.advance.ahead.length := htakes.length_le
  have hbehind : Tracks least (some op) compared₁ q :=
    htracks.behind hrefused (fun htight => hsame (by omega)) hstops
  obtain ⟨bare', compared', hrest⟩ := h.chainRest start
    (op.apply (q.spanFrom start) left right) false openings hq (by omega) hbehind
  refine ⟨bare', compared', ?_, Or.inr ?_, fun htight => ?_, hrest.stops⟩
  · rw [hp.total_goOn rfl hgoOn]
    exact hright.trans hrest.total
  · rcases hrest.bare with ⟨hresult, rfl⟩ | hbare
    · exact ⟨by rw [hresult, Expr.isName_apply], rfl⟩
    · exact hbare
  · rw [hrest.compared htight, hsame (by omega), Operator.comparedBehind_of_tight (by omega)]

theorem CountedAt.chainRest_succ (h : CountedAt depth) (start : Token) (left : Expr Span)
    (bare : Bool) (openings : List Opening) (hp : p.Bounded)
    (hdepth : 5 * p.ahead.length + 1 ≤ depth + 1) (htracks : Tracks least last compared p) :
    ∃ bare' compared', CountsOn least bare compared openings p left
      (LineParser.chainRest (depth + 1) least start last left p) bare' compared' := by
  rw [LineParser.chainRest]
  split
  · next hnone =>
    have hstops : Stops least compared p := fun op hop => by simp [hop] at hnone
    exact ⟨bare, compared, hstops.countsOn bare openings left⟩
  · next op hop =>
    split
    · next hleft =>
      have hstops : Stops least compared p := by
        intro op' hop'
        obtain rfl : op = op' := Option.some.inj (hop.symm.trans hop')
        rcases Nat.lt_or_ge op.precedence least with hloose | hle
        · exact Or.inl hloose
        · have hrefused : refuses last op = true := by simpa [Nat.not_lt_of_le hle] using hleft
          exact Or.inr (by simpa using (htracks.refuses op hop hle).symm.trans hrefused)
      exact ⟨bare, compared, hstops.countsOn bare openings left⟩
    · next htaken =>
      have htaken : least ≤ op.precedence ∧ refuses last op = false := by simpa using htaken
      exact h.chainRest_operator start left bare openings hp hdepth htracks hop htaken.1 htaken.2

theorem CountedAt.unary_succ (h : CountedAt depth) (bare compared : Bool)
    (openings : List Opening) (hp : p.Bounded) (hdepth : 5 * p.ahead.length + 3 ≤ depth + 1) :
    Counts bare compared openings p (LineParser.unary (depth + 1) p) compared := by
  have hsigned (hkind : p.current.kind = .mark .not ∨ p.current.kind = .mark .minus) :
      total ⟨true, bare, compared, openings⟩ p =
        total ⟨false, false, compared, openings⟩ (LineParser.unary depth p.advance).2 := by
    have hline : p.current.kind ≠ .newline := by rcases hkind with h | h <;> simp [h]
    have hinput : p.current.kind ≠ .endOfInput := by rcases hkind with h | h <;> simp [h]
    have hsign : beginOperand ⟨true, bare, compared, openings⟩ p.current =
        (0, ⟨true, false, compared, openings⟩) := by
      rcases hkind with h | h <;> simp [beginOperand, h]
    have hadvance := hp.length_advance hline hinput
    rw [hp.total_operand rfl hline hinput hsign]
    exact h.unary false compared openings (bounded_advance.2 hp) (by omega)
  rw [LineParser.unary]
  dsimp only
  split
  · next hkind => simpa [Counts, Expr.isName] using hsigned (Or.inl hkind)
  · next hkind => simpa [Counts, Expr.isName] using hsigned (Or.inr hkind)
  · next hnot hminus => exact h.primary bare compared openings hp (by omega) hnot hminus

theorem CountedAt.primary_succ (h : CountedAt depth) (bare compared : Bool)
    (openings : List Opening) (hp : p.Bounded) (hdepth : 5 * p.ahead.length + 2 ≤ depth + 1)
    (hnot : p.current.kind ≠ .mark .not) (hminus : p.current.kind ≠ .mark .minus) :
    Counts bare compared openings p (LineParser.primary (depth + 1) p) compared := by
  have hafter := bounded_advance.2 hp
  rw [LineParser.primary]
  dsimp only
  split
  · next hkind =>
    exact hp.counts_token (by simp [hkind]) (by simp [hkind])
      (by simp [beginOperand, hkind, Expr.isName, Token.isMark])
  · next hkind =>
    exact hp.counts_token (by simp [hkind]) (by simp [hkind])
      (by simp [beginOperand, hkind, Expr.isName])
  · next hkind =>
    exact hp.counts_token (by simp [hkind]) (by simp [hkind])
      (by simp [beginOperand, hkind, Expr.isName])
  · next hkind =>
    exact hp.counts_token (by simp [hkind]) (by simp [hkind])
      (by simp [beginOperand, hkind, Expr.isName])
  · next hkind =>
    have hadvance := hp.length_advance (by simp [hkind]) (by simp [hkind])
    have hopened := hp.total_operand (s := ⟨true, bare, compared, openings⟩) rfl (by simp [hkind])
      (by simp [hkind]) (by rw [beginOperand, hkind])
    have htakes := (takenAt depth).expression hafter
    have hinner := hopened.trans (h.expression _ hafter (by omega))
    generalize LineParser.expression depth p.advance = x at htakes hinner ⊢
    obtain ⟨inner, q⟩ := x
    have hq : q.Bounded := htakes.bounded hafter
    dsimp only at hinner ⊢
    split
    · next hclose =>
      rw [hq.totalBehind_closeGroup compared hclose] at hinner
      simpa [Counts, Token.isMark, hkind] using hinner
    · next hopen =>
      rw [hq.totalBehind_unclosedGroup compared (by simpa using hopen) .unclosedGroup
        ⟨p.current.span.start, q.current.span.start⟩] at hinner
      simpa [Counts, Token.isMark, hkind] using hinner
  · next text continues hkind =>
    have hadvance := hp.length_advance (by simp [hkind]) (by simp [hkind])
    cases continues with
    | false =>
      rw [segments_false (by omega)]
      exact hp.counts_token (by simp [hkind]) (by simp [hkind])
        (by simp [beginOperand, hkind, isName_template])
    | true =>
      have hopened := hp.total_operand (s := ⟨true, bare, compared, openings⟩) rfl
        (by simp [hkind]) (by simp [hkind]) (by rw [beginOperand, hkind])
      have hparts := h.segments p.current.span text compared openings hafter (by omega)
      simpa [Counts, isName_template] using hopened.trans hparts
  · next hname hinteger hstring hdot hgroup htemplate =>
    have hfault : beginOperand ⟨true, bare, compared, openings⟩ p.current =
        (1, ⟨false, false, compared, openings⟩) := by
      unfold beginOperand
      split
      · next hkind => exact absurd hkind hnot
      · next hkind => exact absurd hkind hminus
      · next hkind => exact absurd hkind (hname _)
      · next hkind => exact absurd hkind (hinteger _)
      · next hkind => exact absurd hkind (hstring _)
      · next hkind => exact absurd hkind hdot
      · next hkind => exact absurd hkind (htemplate _ _)
      · next hkind => exact absurd hkind hgroup
      · next hkind => exact absurd hkind (htemplate _ _)
      · rfl
    simpa [Counts, Expr.isName, LineParser.missingOperand] using total_missingOperand hfault

theorem CountedAt.segments_succ (h : CountedAt depth) (span : Span) (text : Text)
    (compared : Bool) (openings : List Opening) (hp : p.Bounded)
    (hdepth : 5 * p.ahead.length + 6 ≤ depth + 1) :
    total (beginning (.embedding compared :: openings)) p =
      total ⟨false, false, compared, openings⟩
        (LineParser.segments (depth + 1) span text true p).2 := by
  have hembedded := h.expression (.embedding compared :: openings) hp (by omega)
  have htakes := (takenAt depth).expression hp
  rw [LineParser.segments, hembedded]
  dsimp only
  rw [if_pos rfl]
  generalize LineParser.expression depth p = x at htakes ⊢
  obtain ⟨embedded, q⟩ := x
  have hq : q.Bounded := htakes.bounded hp
  have hlength : q.ahead.length ≤ p.ahead.length := htakes.length_le
  dsimp only
  split
  · next text' continues hkind =>
    have hadvance := hq.length_advance (by simp [hkind]) (by simp [hkind])
    rw [hq.totalBehind_templatePart compared hkind]
    cases continues with
    | false => rw [segments_false (by omega), if_neg Bool.false_ne_true]
    | true =>
      exact h.segments q.current.span text' compared openings (bounded_advance.2 hq) (by omega)
  · next hpart => exact hq.totalBehind_unclosedTemplate compared hpart _ _

theorem countedAt (depth : Nat) : CountedAt depth := by
  induction depth with
  | zero =>
    constructor <;> intros <;> omega
  | succ depth ih =>
    exact ⟨ih.expression_succ, ih.chain_succ, ih.chainRest_succ, ih.unary_succ, ih.primary_succ,
      ih.segments_succ⟩

/-! ## Lines -/

namespace LineParser

/-- Reading an operand reports what the scanner counts. -/
theorem Bounded.length_reports_operand (hp : p.Bounded) :
    p.operand.2.reports.length = p.reports.length + faults p.stop (beginning []) p.ahead := by
  have hcounts := (countedAt p.depth).expression [] hp (Nat.le_refl _)
  rw [totalBehind, faultsBehind_nil] at hcounts
  exact hcounts.symm

/-- The end of a line is reported only if nothing else was. -/
theorem length_reports_finish (p : LineParser) :
    p.finish.reports.length = p.reports.length ∨
      p.reports.length = 0 ∧ p.finish.reports.length = 1 := by
  unfold finish
  split
  · exact Or.inl rfl
  · next h =>
    have hnone : p.ahead ≠ [] ∧ p.reports = [] := by simpa using h
    refine Or.inr ⟨by rw [hnone.2, List.length_nil], ?_⟩
    rw [length_reports_unexpected, hnone.2, List.length_nil]

end LineParser

/-- The tokens of a line behind the sign that it may start with. -/
def Line.behindSign (line : Line) : List Token :=
  match line.tokens with
  | [] => []
  | t :: ts => if t.isMark .greater || t.isMark .less || t.isMark .tilde then ts else t :: ts

/-- The faults of a line: the operands and closing signs that are missing, and the assignments to
something else than a bare name. -/
def Line.faults (line : Line) : Nat :=
  FaultScanner.faults line.stop (beginning []) line.behindSign

variable {line : Line}

theorem Line.behindSign_of_sign {t stop : Token} {ts : List Token}
    (h : (t.isMark .greater || t.isMark .less || t.isMark .tilde) = true) :
    behindSign ⟨t :: ts, stop⟩ = ts :=
  if_pos h

/-- A statement is read as the operand behind its sign. -/
theorem Line.exists_position (source : Option Text)
    (hstop : line.stop.kind = .newline ∨ line.stop.kind = .endOfInput) :
    ∃ p : LineParser, p.stop = line.stop ∧ p.ahead = line.behindSign ∧ p.reports = [] ∧
      ((ofLine line).statement source).2 = p.operand.2.finish := by
  obtain ⟨tokens, stop⟩ := line
  cases tokens with
  | nil =>
    refine ⟨ofLine ⟨[], stop⟩, rfl, rfl, rfl, ?_⟩
    have hkind : (ofLine ⟨[], stop⟩).current.kind = .newline ∨
        (ofLine ⟨[], stop⟩).current.kind = .endOfInput := hstop
    unfold statement
    dsimp only
    rcases hkind with hkind | hkind <;> rw [hkind]
  | cons t ts =>
    have hcurrent : (ofLine ⟨t :: ts, stop⟩).current = t := rfl
    unfold statement
    dsimp only
    rw [hcurrent]
    split
    · next hkind =>
      exact ⟨_, rfl, (behindSign_of_sign (by simp [Token.isMark, hkind])).symm, rfl, rfl⟩
    · next hkind =>
      exact ⟨_, rfl, (behindSign_of_sign (by simp [Token.isMark, hkind])).symm, rfl, rfl⟩
    · next hkind =>
      exact ⟨_, rfl, (behindSign_of_sign (by simp [Token.isMark, hkind])).symm, rfl, rfl⟩
    · next hgreater hless htilde =>
      have hnot (m : Mark) (h : t.kind ≠ .mark m) : t.isMark m = false := by
        simpa [Token.isMark] using h
      have hsign : (t.isMark .greater || t.isMark .less || t.isMark .tilde) = false := by
        rw [hnot _ hgreater, hnot _ hless, hnot _ htilde]
        rfl
      exact ⟨ofLine ⟨t :: ts, stop⟩, rfl, (if_neg (by simp [hsign])).symm, rfl, rfl⟩

/-- Every fault of a line is reported.  If there is none, the end of the line may be. -/
theorem Line.length_reports (source : Option Text)
    (hstop : line.stop.kind = .newline ∨ line.stop.kind = .endOfInput) :
    (line.parse source).2.length = line.faults ∨
      line.faults = 0 ∧ (line.parse source).2.length = 1 := by
  obtain ⟨p, hpstop, hahead, hnone, hstatement⟩ := line.exists_position source hstop
  have hp : p.Bounded := by rwa [Bounded, hpstop]
  have hoperand : p.operand.2.reports.length = line.faults := by
    rw [hp.length_reports_operand, hnone, hpstop, hahead, List.length_nil, Nat.zero_add, faults]
  have hparse : (line.parse source).2.length = p.operand.2.finish.reports.length := by
    rw [← hstatement]
    exact List.length_reverse
  rcases length_reports_finish p.operand.2 with h | h <;> omega

/-- A line has several reports exactly if it has several faults. -/
theorem Line.length_reports_le_one_iff (source : Option Text)
    (hstop : line.stop.kind = .newline ∨ line.stop.kind = .endOfInput) :
    (line.parse source).2.length ≤ 1 ↔ line.faults ≤ 1 := by
  rcases line.length_reports source hstop with h | h <;> omega

end WireScript
