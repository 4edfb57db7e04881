import WireScript.Proofs.Grammar.Places

/-!
# The layout of trees

Where the nodes of a tree stand on the line that it was read from.

* `Expr.Nested` says that the parts of every node stand within the node, one behind the other.
* `LineParser.Orderly` is the invariant of the parser: the tokens of the line stand in order, and
  so do the two ends of every report.  `Follows` says that one position comes behind another one,
  `Fits` that a tree stands between a token and a position.
* `LaidAt` says of all readers of expressions that they keep the invariant and, if they find nothing
  wrong, return trees that fit.  It is proved by induction on the depth, with one lemma for each
  reader.
-/

namespace WireScript

open LineParser

/-! ## Nested trees -/

/-- The two ends of a stretch of source are in order. -/
def Span.Forward (a : Span) : Prop := a.start.offset ≤ a.stop.offset

/-- A stretch of source lies within another one. -/
structure Span.Within (a b : Span) : Prop where
  start : b.start.offset ≤ a.start.offset
  stop : a.stop.offset ≤ b.stop.offset

/-- A stretch of source ends in front of another one. -/
def Span.Before (a b : Span) : Prop := a.stop.offset ≤ b.start.offset

theorem Span.Within.refl (a : Span) : a.Within a := ⟨Nat.le_refl _, Nat.le_refl _⟩

theorem Span.Within.trans {a b c : Span} (h : a.Within b) (h' : b.Within c) : a.Within c :=
  ⟨Nat.le_trans h'.start h.start, Nat.le_trans h.stop h'.stop⟩

theorem Span.Within.forward {a b : Span} (h : a.Within b) (ha : a.Forward) : b.Forward :=
  Nat.le_trans h.start (Nat.le_trans ha h.stop)

namespace Expr

/-- The parts of every node stand within the node, one behind the other. -/
def Nested : Expr Span → Prop
  | integer a _ | string a _ | name a _ | dot a => a.Forward
  | binary a _ l r | and a l r | or a l r | concat a l r =>
    (l.Nested ∧ l.note.Within a) ∧ (r.Nested ∧ r.note.Within a) ∧ l.note.Before r.note
  | not a e => e.Nested ∧ e.note.Within a
  | assign a b _ e => (b.Forward ∧ b.Within a) ∧ (e.Nested ∧ e.note.Within a) ∧ b.Before e.note

variable {e l r : Expr Span} {a : Span}

theorem Nested.forward (h : e.Nested) : e.note.Forward := by
  induction e with
  | integer | string | name | dot => exact h
  | binary a op l r ihl | and a l r ihl | or a l r ihl | concat a l r ihl =>
    exact h.1.2.forward (ihl h.1.1)
  | not a e ih => exact h.2.forward (ih h.1)
  | assign a b x e => exact h.1.2.forward h.1.1

/-- All stretches of a nested tree have their ends in order. -/
theorem Nested.forall_notes (h : e.Nested) : ∀ a ∈ e.notes, a.Forward := by
  have hnote := h.forward
  induction e with
  | integer | string | name | dot => exact List.forall_mem_singleton.2 hnote
  | binary a op l r ihl ihr | and a l r ihl ihr | or a l r ihl ihr | concat a l r ihl ihr =>
    exact List.forall_mem_cons.2 ⟨hnote, List.forall_mem_append.2
      ⟨ihl h.1.1 h.1.1.forward, ihr h.2.1.1 h.2.1.1.forward⟩⟩
  | not a e ih => exact List.forall_mem_cons.2 ⟨hnote, ih h.1 h.1.forward⟩
  | assign a b x e ih =>
    exact List.forall_mem_cons.2 ⟨hnote, List.forall_mem_cons.2
      ⟨h.1.1, ih h.2.1.1 h.2.1.1.forward⟩⟩

/-- An operator between two operands makes a nested tree. -/
theorem Nested.apply (op : Operator) (hl : l.Nested) (hr : r.Nested) (hla : l.note.Within a)
    (hra : r.note.Within a) (hlr : l.note.Before r.note) :
    (op.apply a l r).Nested ∧ (op.apply a l r).note = a := by
  have hnode := And.intro (And.intro hl hla) (And.intro (And.intro hr hra) hlr)
  cases op with
  | notEqual | atMost | atLeast => exact ⟨⟨hnode, .refl a⟩, rfl⟩
  | _ => exact ⟨hnode, rfl⟩

end Expr

/-- The operand of a statement stands within the statement. -/
def Stmt.Nested (s : Stmt Span) : Prop := s.operand.Nested ∧ s.operand.note.Within s.note

theorem Stmt.Nested.forall_notes {s : Stmt Span} (h : s.Nested) : ∀ a ∈ s.notes, a.Forward :=
  List.forall_mem_cons.2 ⟨h.2.forward h.1.forward, h.1.forall_notes⟩

/-! ## Lines in order -/

/-- Tokens that stand one behind the other. -/
structure InOrder (ts : List Token) : Prop where
  forward : ∀ t ∈ ts, t.span.Forward
  before : ts.Pairwise fun t u => t.span.Before u.span

theorem InOrder.sublist {ts us : List Token} (h : InOrder us) (hts : ts.Sublist us) :
    InOrder ts :=
  ⟨fun t ht => h.forward t (hts.subset ht), h.before.sublist hts⟩

namespace LineParser

/-- All tokens of the line at a position, and the one that ends it. -/
def line (p : LineParser) : List Token := p.consumed.reverse ++ (p.ahead ++ [p.stop])

/-- The tokens of the line stand in order, and so do the ends of what is reported. -/
structure Orderly (p : LineParser) : Prop where
  bounded : p.Bounded
  line : InOrder p.line
  reports : ∀ r ∈ p.reports, r.span.Forward

variable {p q r : LineParser}

theorem line_advance (p : LineParser) : p.advance.line = p.line := by
  obtain ⟨c, a, s, r⟩ := p
  cases a with
  | nil => rfl
  | cons t a => simp [advance, line]

theorem current_mem_line (p : LineParser) : p.current ∈ p.line := by
  obtain ⟨c, a, s, r⟩ := p
  cases a <;> simp [current, line]

theorem Orderly.forward (h : p.Orderly) : p.current.span.Forward :=
  h.line.forward _ p.current_mem_line

theorem Orderly.advance (h : p.Orderly) : p.advance.Orderly :=
  ⟨bounded_advance.2 h.bounded, p.line_advance ▸ h.line,
    fun r hr => h.reports r (by rwa [reports_advance] at hr)⟩

theorem Orderly.report (h : p.Orderly) (cause : SyntaxError) {a : Span} (ha : a.Forward) :
    (p.report cause a).Orderly :=
  ⟨h.bounded, h.line, List.forall_mem_cons.2 ⟨ha, h.reports⟩⟩

theorem Orderly.unexpected (h : p.Orderly) (wanted : Wanted) : (p.unexpected wanted).Orderly := by
  unfold LineParser.unexpected
  dsimp only
  split
  · exact h.report _ h.forward
  · exact h.report _ h.forward

theorem current_unexpected (p : LineParser) (wanted : Wanted) :
    (p.unexpected wanted).current = p.current := by
  unfold LineParser.unexpected
  dsimp only
  split <;> rfl

/-- What was read ends in front of the next token. -/
theorem Orderly.lastStop_le (h : p.Orderly) (hp : p.consumed ≠ []) :
    p.lastStop.offset ≤ p.current.span.start.offset := by
  obtain ⟨c, a, s, r⟩ := p
  obtain ⟨t, c, rfl⟩ := List.exists_cons_of_ne_nil hp
  have hbefore := h.line.before
  simp only [LineParser.line, List.reverse_cons, List.append_assoc] at hbefore
  have htail := (List.pairwise_append.1 hbefore).2.1
  refine (List.pairwise_cons.1 htail).1 (current ⟨t :: c, a, s, r⟩) ?_
  cases a <;> simp [current]

/-- A later position starts later. -/
theorem Orderly.start_le_advance (h : p.Orderly) :
    p.current.span.start.offset ≤ p.advance.current.span.start.offset := by
  obtain ⟨c, a, s, r⟩ := p
  cases a with
  | nil => exact Nat.le_refl _
  | cons t a =>
    exact Nat.le_trans h.forward (h.advance.lastStop_le (List.cons_ne_nil _ _))

/-- A token that was passed over is the last that was read. -/
theorem Bounded.lastStop_advance (h : p.Bounded) (hline : p.current.kind ≠ .newline)
    (hinput : p.current.kind ≠ .endOfInput) :
    p.advance.consumed ≠ [] ∧ p.advance.lastStop = p.current.span.stop := by
  have hconsumed := (h.reads_advance hline hinput).consumed
  rw [lastStop, hconsumed]
  exact ⟨by simp, rfl⟩

/-! ## Trees on a line -/

/-- One position comes behind another one, and what was reported there is still reported. -/
structure Follows (p q : LineParser) : Prop where
  orderly : q.Orderly
  start_le : p.current.span.start.offset ≤ q.current.span.start.offset
  clean : q.reports = [] → p.reports = []

/-- A tree stands between a token and a position behind it. -/
structure Fits (start : Token) (e : Expr Span) (q : LineParser) : Prop where
  nested : e.Nested
  start : start.span.start.offset ≤ e.note.start.offset
  stop : e.note.stop.offset ≤ q.lastStop.offset
  behind : q.lastStop.offset ≤ q.current.span.start.offset

/-- A reader went from one position to another behind it and, if there is no report by then,
returned a tree that stands between a token and where it stopped. -/
def Lays (start : Token) (p : LineParser) (x : Expr Span × LineParser) : Prop :=
  Follows p x.2 ∧ (x.2.reports = [] → Fits start x.1 x.2)

theorem Follows.refl (h : p.Orderly) : Follows p p := ⟨h, Nat.le_refl _, id⟩

theorem Follows.trans (h : Follows p q) (h' : Follows q r) : Follows p r :=
  ⟨h'.orderly, Nat.le_trans h.start_le h'.start_le, fun hr => h.clean (h'.clean hr)⟩

theorem Orderly.follows_advance (h : p.Orderly) : Follows p p.advance :=
  ⟨h.advance, h.start_le_advance, fun hnil => by rwa [reports_advance] at hnil⟩

theorem Follows.report (h : Follows p q) (cause : SyntaxError) {a : Span} (ha : a.Forward) :
    Follows p (q.report cause a) :=
  ⟨h.orderly.report cause ha, h.start_le, fun hnil => absurd hnil (List.cons_ne_nil _ _)⟩

theorem Orderly.follows_unexpected (h : p.Orderly) (wanted : Wanted) :
    Follows p (p.unexpected wanted) :=
  ⟨h.unexpected wanted, Nat.le_of_eq (by rw [current_unexpected]),
    fun hnil => absurd hnil (reports_unexpected_ne_nil p wanted)⟩

theorem Orderly.lays_missingOperand (h : p.Orderly) : Lays p.current p (missingOperand p) := by
  have hunexpected := h.follows_unexpected .expression
  refine ⟨hunexpected.trans hunexpected.orderly.follows_advance, fun hnil => ?_⟩
  rw [missingOperand, reports_advance] at hnil
  exact absurd hnil (reports_unexpected_ne_nil p .expression)

/-- A token that stands for itself. -/
theorem Orderly.lays_token (h : p.Orderly) (hline : p.current.kind ≠ .newline)
    (hinput : p.current.kind ≠ .endOfInput) {e : Expr Span} (hnote : e.note = p.current.span)
    (he : e.note.Forward → e.Nested) : Lays p.current p (e, p.advance) := by
  obtain ⟨hconsumed, hlast⟩ := h.bounded.lastStop_advance hline hinput
  refine ⟨h.follows_advance, fun _ => ⟨?_, ?_, ?_, h.advance.lastStop_le hconsumed⟩⟩
  · exact he (hnote ▸ h.forward)
  · exact Nat.le_of_eq (by rw [hnote])
  · exact Nat.le_of_eq (by rw [hnote, hlast])

/-- A node of one part. -/
theorem Fits.within {start t : Token} {e : Expr Span} (h : Fits t e q)
    (hstart : start.span.start.offset ≤ t.span.start.offset) : e.note.Within (q.spanFrom start) :=
  ⟨Nat.le_trans hstart h.start, h.stop⟩

/-- A node of two parts, the first of which ends in front of the second. -/
theorem Fits.within_left {start t : Token} {a : Span} {r : Expr Span} (h : Fits t r q)
    (ha : start.span.start.offset ≤ a.start.offset) (har : a.Before r.note) :
    a.Within (q.spanFrom start) :=
  ⟨ha, Nat.le_trans har (Nat.le_trans h.nested.forward h.stop)⟩

/-- What stands in front of a position ends in front of what stands behind its next token. -/
theorem Fits.before {start : Token} {l e : Expr Span} (h : Fits start l p) (hp : p.Orderly)
    (hr : Fits p.advance.current e q) : l.note.Before e.note :=
  Nat.le_trans h.stop (Nat.le_trans h.behind (Nat.le_trans hp.start_le_advance hr.start))

/-- A node that reaches from a token to where its last part was read. -/
theorem Fits.node {start t : Token} {e r : Expr Span} (h : Fits t r q) (he : e.Nested)
    (hnote : e.note = q.spanFrom start) : Fits start e q :=
  ⟨he, Nat.le_of_eq (by rw [hnote]; rfl), Nat.le_of_eq (by rw [hnote]; rfl), h.behind⟩

end LineParser

/-! ## The readers of expressions -/

/-- Parts of a template that stand one behind the other between two offsets. -/
def PartsFit (start : Nat) : List (Expr Span) → Nat → Prop
  | [], stop => start ≤ stop
  | e :: es, stop => e.Nested ∧ start ≤ e.note.start.offset ∧ PartsFit e.note.stop.offset es stop

theorem PartsFit.mono {a b stop : Nat} {parts : List (Expr Span)} (h : PartsFit b parts stop)
    (hab : a ≤ b) : PartsFit a parts stop := by
  cases parts with
  | nil => exact Nat.le_trans hab h
  | cons e es => exact ⟨h.1, Nat.le_trans hab h.2.1, h.2.2⟩

/-- A segment in front of parts behind it. -/
theorem PartsFit.segment {a : Span} {stop : Nat} (text : Text) (parts : List (Expr Span))
    (ha : a.Forward) (h : PartsFit a.stop.offset parts stop) :
    PartsFit a.start.offset (segmentParts a text ++ parts) stop := by
  unfold segmentParts
  split
  · exact h.mono ha
  · exact ⟨ha, Nat.le_refl _, h⟩

/-- The concatenation of parts that stand one behind the other is nested. -/
theorem PartsFit.template {a : Nat} {here : Location} {parts : List (Expr Span)}
    (h : PartsFit a parts here.offset) :
    (template here parts).Nested ∧ a ≤ (template here parts).note.start.offset ∧
      (template here parts).note.stop = here := by
  induction parts generalizing a with
  | nil => exact ⟨Nat.le_refl _, h, rfl⟩
  | cons e es ih =>
    obtain ⟨he, hstart, hes⟩ := h
    obtain ⟨hrest, hbefore, hstop⟩ := ih hes
    have hleft : e.note.Within ⟨e.note.start, (LineParser.template here es).note.stop⟩ :=
      ⟨Nat.le_refl _, Nat.le_trans hbefore hrest.forward⟩
    have hright : (LineParser.template here es).note.Within
        ⟨e.note.start, (LineParser.template here es).note.stop⟩ :=
      ⟨Nat.le_trans he.forward hbefore, Nat.le_refl _⟩
    exact ⟨⟨⟨he, hleft⟩, ⟨hrest, hright⟩, hbefore⟩, hstart, hstop⟩

/-- A reader went from one position to another behind it and, if there is no report by then,
returned parts that stand between an offset and where it stopped. -/
def LaysParts (start : Nat) (p : LineParser) (x : List (Expr Span) × LineParser) : Prop :=
  Follows p x.2 ∧ (x.2.reports = [] →
    PartsFit start x.1 x.2.lastStop.offset ∧
      x.2.lastStop.offset ≤ x.2.current.span.start.offset)

/-- Readers with a bound on the depth keep the line in order and return trees that fit. -/
structure LaidAt (depth : Nat) : Prop where
  expression {p : LineParser} : p.Orderly → Lays p.current p (LineParser.expression depth p)
  chain {p : LineParser} (least : Nat) : p.Orderly →
    Lays p.current p (LineParser.chain depth least p)
  chainRest {p : LineParser} {start : Token} {left : Expr Span} (least : Nat)
    (last : Option Operator) : p.Orderly → (p.reports = [] → Fits start left p) →
    Lays start p (LineParser.chainRest depth least start last left p)
  unary {p : LineParser} : p.Orderly → Lays p.current p (LineParser.unary depth p)
  primary {p : LineParser} : p.Orderly → Lays p.current p (LineParser.primary depth p)
  segments {p : LineParser} {span : Span} (text : Text) (continues : Bool) : p.Orderly →
    span.Forward → span.stop.offset ≤ p.lastStop.offset →
    p.lastStop.offset ≤ p.current.span.start.offset →
    LaysParts span.start.offset p (LineParser.segments depth span text continues p)

variable {depth : Nat} {p q : LineParser}

theorem LaidAt.expression_succ (h : LaidAt depth) (hp : p.Orderly) :
    Lays p.current p (LineParser.expression (depth + 1) p) := by
  obtain ⟨htarget, hfits⟩ := h.chain 1 hp
  rw [LineParser.expression]
  generalize LineParser.chain depth 1 p = x at htarget hfits ⊢
  obtain ⟨target, q⟩ := x
  dsimp only at htarget hfits ⊢
  split
  · obtain ⟨hvalue, hvalueFits⟩ := h.expression htarget.orderly.advance
    have hsign := htarget.trans htarget.orderly.follows_advance
    generalize LineParser.expression depth q.advance = y at hvalue hvalueFits ⊢
    obtain ⟨value, r⟩ := y
    dsimp only at hvalue hvalueFits ⊢
    split
    · next note x hopen =>
      refine ⟨hsign.trans hvalue, fun hnil => ?_⟩
      have hr := hvalueFits hnil
      have hl := hfits (htarget.orderly.follows_advance.clean (hvalue.clean hnil))
      have hbefore := hl.before htarget.orderly hr
      refine hr.node ⟨⟨hl.nested, hr.within_left hl.start hbefore⟩, ⟨hr.nested, ?_⟩, hbefore⟩ rfl
      exact hr.within hsign.start_le
    · have hrefused := (hsign.trans hvalue).report .assignmentTarget
        (a := ⟨p.current.span.start, q.current.span.start⟩) htarget.start_le
      exact ⟨hrefused, fun hnil => absurd hnil (List.cons_ne_nil _ _)⟩
  · exact ⟨htarget, hfits⟩

theorem LaidAt.chain_succ (h : LaidAt depth) (least : Nat) (hp : p.Orderly) :
    Lays p.current p (LineParser.chain (depth + 1) least p) := by
  obtain ⟨hleft, hfits⟩ := h.unary hp
  obtain ⟨hrest, hrestFits⟩ := h.chainRest least none hleft.orderly hfits
  rw [LineParser.chain]
  exact ⟨hleft.trans hrest, hrestFits⟩

theorem LaidAt.chainRest_succ (h : LaidAt depth) {start : Token} {left : Expr Span} (least : Nat)
    (last : Option Operator) (hp : p.Orderly) (hleft : p.reports = [] → Fits start left p) :
    Lays start p (LineParser.chainRest (depth + 1) least start last left p) := by
  rw [LineParser.chainRest]
  split
  · exact ⟨.refl hp, hleft⟩
  · next op _ =>
    split
    · exact ⟨.refl hp, hleft⟩
    · obtain ⟨hright, hfits⟩ := h.chain (op.precedence + 1) hp.advance
      generalize LineParser.chain depth (op.precedence + 1) p.advance = x at hright hfits ⊢
      obtain ⟨right, q⟩ := x
      dsimp only at hright hfits ⊢
      have hsign := hp.follows_advance.trans hright
      have hnode (hnil : q.reports = []) :
          Fits start (op.apply (q.spanFrom start) left right) q := by
        have hl := hleft (hsign.clean hnil)
        have hr := hfits hnil
        have hbefore := hl.before hp hr
        have hstart := Nat.le_trans hl.start (Nat.le_trans hl.nested.forward hbefore)
        have hnested := Expr.Nested.apply op hl.nested hr.nested
          (hr.within_left hl.start hbefore) ⟨hstart, hr.stop⟩ hbefore
        exact hr.node hnested.1 hnested.2
      obtain ⟨hrest, hrestFits⟩ := h.chainRest least (some op) hright.orderly hnode
      exact ⟨hsign.trans hrest, hrestFits⟩

theorem LaidAt.unary_succ (h : LaidAt depth) (hp : p.Orderly) :
    Lays p.current p (LineParser.unary (depth + 1) p) := by
  obtain ⟨hoperand, hfits⟩ := h.unary hp.advance
  have hsign := hp.follows_advance.trans hoperand
  rw [LineParser.unary]
  dsimp only
  split
  · refine ⟨hsign, fun hnil => ?_⟩
    have he := hfits hnil
    exact he.node ⟨he.nested, he.within hp.start_le_advance⟩ rfl
  · next hkind =>
    -- the zero that the operand is taken from stands where the sign does
    refine ⟨hsign, fun hnil => ?_⟩
    have he := hfits hnil
    obtain ⟨hconsumed, hlast⟩ := hp.bounded.lastStop_advance (by simp [hkind]) (by simp [hkind])
    have hbefore : p.current.span.Before (LineParser.unary depth p.advance).1.note :=
      Nat.le_trans (hlast ▸ hp.advance.lastStop_le hconsumed) he.start
    refine he.node ⟨⟨hp.forward, he.within_left (Nat.le_refl _) hbefore⟩, ⟨he.nested, ?_⟩,
      hbefore⟩ rfl
    exact he.within hp.start_le_advance
  · exact h.primary hp

theorem LaidAt.primary_succ (h : LaidAt depth) (hp : p.Orderly) :
    Lays p.current p (LineParser.primary (depth + 1) p) := by
  rw [LineParser.primary]
  dsimp only
  split
  · next hkind => exact hp.lays_token (by simp [hkind]) (by simp [hkind]) rfl id
  · next hkind => exact hp.lays_token (by simp [hkind]) (by simp [hkind]) rfl id
  · next hkind => exact hp.lays_token (by simp [hkind]) (by simp [hkind]) rfl id
  · next hkind => exact hp.lays_token (by simp [hkind]) (by simp [hkind]) rfl id
  · obtain ⟨hinner, hfits⟩ := h.expression hp.advance
    generalize LineParser.expression depth p.advance = x at hinner hfits ⊢
    obtain ⟨inner, q⟩ := x
    dsimp only at hinner hfits ⊢
    have hopen := hp.follows_advance.trans hinner
    split
    · next hclosed =>
      have hclose : q.current.kind = .mark .closeGroup := by simpa [Token.isMark] using hclosed
      obtain ⟨hconsumed, hlast⟩ :=
        hopen.orderly.bounded.lastStop_advance (by simp [hclose]) (by simp [hclose])
      refine ⟨hopen.trans hopen.orderly.follows_advance, fun hnil => ?_⟩
      have he := hfits (hopen.orderly.follows_advance.clean hnil)
      refine ⟨he.nested, Nat.le_trans hp.start_le_advance he.start, ?_,
        hopen.orderly.advance.lastStop_le hconsumed⟩
      rw [hlast]
      exact Nat.le_trans he.stop (Nat.le_trans he.behind hopen.orderly.forward)
    · have hunclosed := hopen.report .unclosedGroup
        (a := ⟨p.current.span.start, q.current.span.start⟩) hopen.start_le
      exact ⟨hunclosed, fun hnil => absurd hnil (List.cons_ne_nil _ _)⟩
  · next text continues hkind =>
    obtain ⟨hconsumed, hlast⟩ := hp.bounded.lastStop_advance (by simp [hkind]) (by simp [hkind])
    obtain ⟨hparts, hfits⟩ := h.segments text continues hp.advance hp.forward
      (Nat.le_of_eq (by rw [hlast])) (hp.advance.lastStop_le hconsumed)
    refine ⟨hp.follows_advance.trans hparts, fun hnil => ?_⟩
    obtain ⟨hfit, hbehind⟩ := hfits hnil
    obtain ⟨hnested, hstart, hstop⟩ := hfit.template
    exact ⟨hnested, hstart, Nat.le_of_eq (congrArg _ hstop), hbehind⟩
  · exact hp.lays_missingOperand

theorem LaidAt.segments_succ (h : LaidAt depth) {span : Span} (text : Text) (continues : Bool)
    (hp : p.Orderly) (hspan : span.Forward) (hlast : span.stop.offset ≤ p.lastStop.offset)
    (hbehind : p.lastStop.offset ≤ p.current.span.start.offset) :
    LaysParts span.start.offset p (LineParser.segments (depth + 1) span text continues p) := by
  rw [LineParser.segments]
  dsimp only
  split
  · obtain ⟨hembedded, hfits⟩ := h.expression hp
    generalize LineParser.expression depth p = x at hembedded hfits ⊢
    obtain ⟨embedded, q⟩ := x
    dsimp only at hembedded hfits ⊢
    split
    · next text' continues' hkind =>
      have hq := hembedded.orderly
      obtain ⟨hconsumed, hstop⟩ := hq.bounded.lastStop_advance (by simp [hkind]) (by simp [hkind])
      obtain ⟨hothers, hothersFit⟩ := h.segments text' continues' hq.advance hq.forward
        (Nat.le_of_eq (by rw [hstop])) (hq.advance.lastStop_le hconsumed)
      refine ⟨hembedded.trans (hq.follows_advance.trans hothers), fun hnil => ?_⟩
      have he := hfits ((hq.follows_advance.trans hothers).clean hnil)
      obtain ⟨hparts, hend⟩ := hothersFit hnil
      have hstart := Nat.le_trans hlast (Nat.le_trans hbehind he.start)
      have hrest := hparts.mono (Nat.le_trans he.stop he.behind)
      exact ⟨.segment text (embedded :: _) hspan ⟨he.nested, hstart, hrest⟩, hend⟩
    · have hunclosed := hembedded.report .unclosedTemplate hembedded.orderly.forward
      exact ⟨hunclosed, fun hnil => absurd hnil (List.cons_ne_nil _ _)⟩
  · refine ⟨.refl hp, fun _ => ⟨?_, hbehind⟩⟩
    have hliteral := PartsFit.segment text [] hspan hlast
    rwa [List.append_nil] at hliteral

theorem laidAt (depth : Nat) : LaidAt depth := by
  induction depth with
  | zero =>
    refine ⟨Orderly.lays_missingOperand, fun _ => Orderly.lays_missingOperand,
      fun _ _ hp _ => ?_, Orderly.lays_missingOperand, Orderly.lays_missingOperand,
      fun _ _ hp _ _ _ => ⟨hp.follows_unexpected .expression, fun hnil => ?_⟩⟩
    · obtain ⟨hfollows, -⟩ := hp.lays_missingOperand
      refine ⟨hfollows, fun hnil => ?_⟩
      rw [LineParser.chainRest, missingOperand, reports_advance] at hnil
      exact absurd hnil (reports_unexpected_ne_nil _ .expression)
    · exact absurd hnil (reports_unexpected_ne_nil _ .expression)
  | succ depth ih =>
    exact ⟨ih.expression_succ, ih.chain_succ, ih.chainRest_succ, ih.unary_succ, ih.primary_succ,
      ih.segments_succ⟩

/-! ## Statements -/

theorem LineParser.Orderly.operand (hp : p.Orderly) : Lays p.current p p.operand :=
  (laidAt p.depth).expression hp

theorem LineParser.Orderly.finish (hp : p.Orderly) : p.finish.Orderly := by
  unfold LineParser.finish
  split
  · exact hp
  · exact hp.unexpected .newline

/-- What is reported on a line in order has its ends in order, and a statement that is read without
a report is nested and reaches no further than what was read. -/
theorem LineParser.Orderly.statement (hp : p.Orderly) (source : Option Text) :
    (p.statement source).2.Orderly ∧
      ((p.statement source).2.reports = [] →
        (p.statement source).1.Nested ∧
          (p.statement source).1.note.Within ((p.statement source).2.spanFrom p.current)) := by
  obtain ⟨hbehind, hbehindFits⟩ := hp.advance.operand
  obtain ⟨hvalue, hvalueFits⟩ := hp.operand
  have hsigned (h : p.advance.operand.2.finish.reports = []) :
      (p.advance.operand.1.Nested ∧
        p.advance.operand.1.note.Within (p.advance.operand.2.spanFrom p.current)) ∧
      (p.advance.operand.2.spanFrom p.current).Within
        (p.advance.operand.2.finish.spanFrom p.current) := by
    obtain ⟨hnil, hahead⟩ := finish_reports_eq_nil_iff.1 h
    have he := hbehindFits hnil
    rw [finish_of_ahead_eq_nil hahead]
    exact ⟨⟨he.nested, he.within hp.start_le_advance⟩, .refl _⟩
  unfold LineParser.statement
  dsimp only
  split
  · exact ⟨hbehind.orderly.finish, hsigned⟩
  · exact ⟨hbehind.orderly.finish, hsigned⟩
  · exact ⟨hbehind.orderly.finish, hsigned⟩
  · refine ⟨hvalue.orderly.finish, fun hnil => ?_⟩
    obtain ⟨hclean, hahead⟩ := finish_reports_eq_nil_iff.1 hnil
    have he := hvalueFits hclean
    rw [finish_of_ahead_eq_nil hahead]
    exact ⟨⟨he.nested, .refl _⟩, he.within (Nat.le_refl _)⟩

/-! ## Lines -/

/-- A line in order is read in order. -/
theorem Line.parse_orderly (source : Option Text) {line : Line}
    (hstop : line.stop.kind = .newline ∨ line.stop.kind = .endOfInput)
    (hline : InOrder (line.tokens ++ [line.stop])) :
    (∀ r ∈ (line.parse source).2, r.span.Forward) ∧
      ((line.parse source).2 = [] → (line.parse source).1.Nested) := by
  have horderly : (ofLine line).Orderly := ⟨hstop, hline, List.forall_mem_nil _⟩
  obtain ⟨hreports, hnested⟩ := horderly.statement source
  refine ⟨fun r hr => hreports.reports r (List.mem_reverse.1 hr), fun hnil => (hnested ?_).1⟩
  simpa [Line.parse] using hnil

/-- A line of tokens has them in their order, and ends with the end of a line or of the input. -/
theorem Line.of_mem_filled {stop : Token} {ts : List Token} {line : Line}
    (h : line ∈ Line.filled stop ts) :
    (line.tokens ++ [line.stop]).Sublist (ts ++ [stop]) ∧
      (line.stop.kind = .newline ∨ line.stop = stop) := by
  induction ts using Line.induction with
  | empty => cases h
  | blank t us ht ih =>
    rw [Line.filled_blank ht] at h
    exact ⟨(ih h).1.trans (List.sublist_cons_self _ _), (ih h).2⟩
  | last ts hts hne =>
    rw [Line.filled_last hts hne] at h
    obtain rfl := List.mem_singleton.1 h
    exact ⟨.refl _, Or.inr rfl⟩
  | line ts t us hts hne ht ih =>
    rw [Line.filled_line hts hne ht] at h
    rcases List.mem_cons.1 h with rfl | h
    · refine ⟨?_, Or.inl ht⟩
      rw [List.append_assoc, List.cons_append]
      exact (List.Sublist.refl ts).append ((List.nil_sublist _).cons_cons t)
    · refine ⟨?_, (ih h).2⟩
      rw [List.append_assoc, List.cons_append]
      exact ((ih h).1.trans (List.sublist_cons_self _ _)).trans (List.sublist_append_right _ _)

end WireScript
