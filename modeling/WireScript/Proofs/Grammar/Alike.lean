import Mathlib.Data.List.Forall2
import WireScript.Proofs.Grammar.Script

/-!
# Parsing what is alike

The parser does not look at where tokens stand, and not at the texts of strings either: lines that
are alike up to these are read in the same way.

* A `Likeness` says which locations and which texts of two sources stand for each other.  Stretches
  of source, tokens, trees, reports and positions in a line are alike if their parts are.
* `AlikeAt` says of all readers of expressions that they keep positions alike and return trees that
  are alike.  It is proved by induction on the depth, with one lemma for each reader.
* `Likeness.forall₂_statements` says the same of the statements of lines and of the reports on them.

Nothing that is read has a location of its own making: what is alike to itself has only locations
that come from its tokens.  So a likeness of a source with itself is a way to say something about
every location in a script and in the reports on it.
-/

namespace WireScript

open LineParser

/-- Which locations and which texts of two sources stand for each other. -/
structure Likeness where
  /-- Locations where a stretch of source may start. -/
  start : Location → Location → Prop
  /-- Locations where a stretch of source may stop. -/
  stop : Location → Location → Prop
  /-- Texts of strings. -/
  text : Text → Text → Prop
  stop_of_start {here there : Location} : start here there → stop here there
  text_refl (t : Text) : text t t

namespace Likeness

variable (R : Likeness)

/-! ## What is alike -/

structure Spans (a b : Span) : Prop where
  start : R.start a.start b.start
  stop : R.stop a.stop b.stop

/-- Kinds are alike if they are equal up to the text of a string. -/
def Kinds (k l : TokenKind) : Prop :=
  k = l ∨ ∃ t u, k = .string t ∧ l = .string u ∧ R.text t u

structure Tokens (t u : Token) : Prop where
  kind : R.Kinds t.kind u.kind
  describe : t.describe = u.describe
  span : R.Spans t.span u.span

/-- Tokens inside of a line: something else may start where they stop. -/
structure Inner (t u : Token) : Prop extends R.Tokens t u where
  last : R.start t.span.stop u.span.stop

structure Lines (l m : Line) : Prop where
  tokens : List.Forall₂ R.Inner l.tokens m.tokens
  stop : R.Tokens l.stop m.stop

structure Reports (r s : Report SyntaxError) : Prop where
  cause : r.cause = s.cause
  span : R.Spans r.span s.span

inductive Exprs : Expr Span → Expr Span → Prop where
  | integer {a b : Span} {n : Int} (h : R.Spans a b) : Exprs (.integer a n) (.integer b n)
  | string {a b : Span} {t u : Text} (h : R.Spans a b) (ht : R.text t u) :
      Exprs (.string a t) (.string b u)
  | name {a b : Span} {x : Text} (h : R.Spans a b) : Exprs (.name a x) (.name b x)
  | dot {a b : Span} (h : R.Spans a b) : Exprs (.dot a) (.dot b)
  | binary {a b : Span} {op : IntOp} {l r l' r' : Expr Span} (h : R.Spans a b)
      (hl : Exprs l l') (hr : Exprs r r') : Exprs (.binary a op l r) (.binary b op l' r')
  | and {a b : Span} {l r l' r' : Expr Span} (h : R.Spans a b) (hl : Exprs l l')
      (hr : Exprs r r') : Exprs (.and a l r) (.and b l' r')
  | or {a b : Span} {l r l' r' : Expr Span} (h : R.Spans a b) (hl : Exprs l l')
      (hr : Exprs r r') : Exprs (.or a l r) (.or b l' r')
  | not {a b : Span} {e e' : Expr Span} (h : R.Spans a b) (he : Exprs e e') :
      Exprs (.not a e) (.not b e')
  | concat {a b : Span} {l r l' r' : Expr Span} (h : R.Spans a b) (hl : Exprs l l')
      (hr : Exprs r r') : Exprs (.concat a l r) (.concat b l' r')
  | assign {a b c d : Span} {x : Text} {e e' : Expr Span} (h : R.Spans a b) (hx : R.Spans c d)
      (he : Exprs e e') : Exprs (.assign a c x e) (.assign b d x e')

inductive Stmts : Stmt Span → Stmt Span → Prop where
  | send {a b : Span} {e e' : Expr Span} (h : R.Spans a b) (he : R.Exprs e e') :
      Stmts (.send a e) (.send b e')
  | receive {a b : Span} {e e' : Expr Span} {t : Text} (h : R.Spans a b) (he : R.Exprs e e') :
      Stmts (.receive a e t) (.receive b e' t)
  | assert {a b : Span} {e e' : Expr Span} {t : Text} (h : R.Spans a b) (he : R.Exprs e e') :
      Stmts (.assert a e t) (.assert b e' t)
  | expr {a b : Span} {e e' : Expr Span} (h : R.Spans a b) (he : R.Exprs e e') :
      Stmts (.expr a e) (.expr b e')

/-- Positions in lines that have a token. -/
structure Parsers (p q : LineParser) : Prop where
  consumed : List.Forall₂ R.Inner p.consumed q.consumed
  ahead : List.Forall₂ R.Inner p.ahead q.ahead
  stop : R.Tokens p.stop q.stop
  reports : List.Forall₂ R.Reports p.reports q.reports
  filled : p.consumed ≠ [] ∨ p.ahead ≠ []

/-- What readers return and where they stop. -/
def Results (x y : Expr Span × LineParser) : Prop :=
  R.Exprs x.1 y.1 ∧ R.Parsers x.2 y.2

variable {R}

/-! ## Tokens -/

section Tokens

variable {t u t' u' : Token}

theorem Kinds.eq_mark_iff {k l : TokenKind} (h : R.Kinds k l) (m : Mark) :
    k = .mark m ↔ l = .mark m := by
  rcases h with rfl | ⟨t, u, rfl, rfl, -⟩
  · rfl
  · simp

theorem Tokens.isMark (h : R.Tokens t u) (m : Mark) : t.isMark m = u.isMark m := by
  rw [Bool.eq_iff_iff]
  simpa [Token.isMark] using h.kind.eq_mark_iff m

theorem Tokens.isEnd (h : R.Tokens t u) : t.isEnd = u.isEnd := by
  unfold Token.isEnd
  rcases h.kind with hkind | ⟨v, w, ht, hu, -⟩
  · rw [hkind]
  · rw [ht, hu]
    rfl

theorem Tokens.isNewline (h : R.Tokens t u) : t.isNewline = u.isNewline := by
  unfold Token.isNewline
  rcases h.kind with hkind | ⟨v, w, ht, hu, -⟩
  · rw [hkind]
  · rw [ht, hu]
    rfl

theorem Tokens.operator? (h : R.Tokens t u) : t.operator? = u.operator? := by
  unfold Token.operator?
  rcases h.kind with hkind | ⟨v, w, ht, hu, -⟩
  · rw [hkind]
  · rw [ht, hu]

/-- The stretch in front of a token, from the start of another one. -/
theorem Tokens.upTo (h : R.Tokens t u) (h' : R.Tokens t' u') :
    R.Spans ⟨t.span.start, t'.span.start⟩ ⟨u.span.start, u'.span.start⟩ :=
  ⟨h.span.start, R.stop_of_start h'.span.start⟩

end Tokens

/-! ## Trees -/

section Trees

variable {e e' l r l' r' : Expr Span} {a b : Span}

theorem Exprs.note (h : R.Exprs e e') : R.Spans e.note e'.note := by
  cases h <;> assumption

theorem Exprs.apply (op : Operator) (h : R.Spans a b) (hl : R.Exprs l l') (hr : R.Exprs r r') :
    R.Exprs (op.apply a l r) (op.apply b l' r') := by
  cases op with
  | or => exact .or h hl hr
  | and => exact .and h hl hr
  | notEqual | atMost | atLeast => exact .not h (.binary h hl hr)
  | equal | less | greater | plus | minus | times | dividedBy | remainder =>
    exact .binary h hl hr

theorem Exprs.template {here there : Location} {parts parts' : List (Expr Span)}
    (h : R.start here there) (hparts : List.Forall₂ R.Exprs parts parts') :
    R.Exprs (template here parts) (template there parts') := by
  induction hparts with
  | nil => exact .string ⟨h, R.stop_of_start h⟩ (R.text_refl _)
  | cons hpart _ ih => exact .concat ⟨hpart.note.start, ih.note.stop⟩ hpart ih

theorem forall₂_segmentParts (h : R.Spans a b) (t : Text) :
    List.Forall₂ R.Exprs (segmentParts a t) (segmentParts b t) := by
  unfold segmentParts
  split
  · exact .nil
  · exact .cons (.string h (R.text_refl t)) .nil

/-- Trees that are alike are equal up to their notes, if these stand for each other and texts only
for themselves. -/
theorem Exprs.map_eq {β : Type} {f g : Span → β} (hnote : ∀ a b, R.Spans a b → f a = g b)
    (htext : ∀ t u, R.text t u → t = u) (h : R.Exprs e e') : e.map f = e'.map g := by
  induction h with
  | integer h | name h | dot h => simp only [Expr.map, hnote _ _ h]
  | string h ht => simp only [Expr.map, hnote _ _ h, htext _ _ ht]
  | binary h _ _ ihl ihr | and h _ _ ihl ihr | or h _ _ ihl ihr | concat h _ _ ihl ihr =>
    simp only [Expr.map, hnote _ _ h, ihl, ihr]
  | not h _ ih => simp only [Expr.map, hnote _ _ h, ih]
  | assign h hx _ ih => simp only [Expr.map, hnote _ _ h, hnote _ _ hx, ih]

theorem Stmts.map_eq {β : Type} {f g : Span → β} (hnote : ∀ a b, R.Spans a b → f a = g b)
    (htext : ∀ t u, R.text t u → t = u) {s s' : Stmt Span} (h : R.Stmts s s') :
    s.map f = s'.map g := by
  cases h with
  | send h he | receive h he | assert h he | expr h he =>
    simp only [Stmt.map, hnote _ _ h, he.map_eq hnote htext]

end Trees

/-! ## Positions -/

section Parsers

variable {p q : LineParser}

theorem Parsers.current (h : R.Parsers p q) : R.Tokens p.current q.current := by
  obtain ⟨c, a, s, r⟩ := p
  obtain ⟨c', a', s', r'⟩ := q
  cases h.ahead with
  | nil => exact h.stop
  | cons ht _ => exact ht.toTokens

theorem Parsers.lastStop (h : R.Parsers p q) : R.start p.lastStop q.lastStop := by
  obtain ⟨c, a, s, r⟩ := p
  obtain ⟨c', a', s', r'⟩ := q
  cases h.consumed with
  | cons ht _ => exact ht.last
  | nil =>
    cases h.ahead with
    | nil => exact absurd h.filled (by simp)
    | cons ht _ => exact ht.last

theorem Parsers.spanFrom (h : R.Parsers p q) {t u : Token} (ht : R.Tokens t u) :
    R.Spans (p.spanFrom t) (q.spanFrom u) :=
  ⟨ht.span.start, R.stop_of_start h.lastStop⟩

theorem Parsers.advance (h : R.Parsers p q) : R.Parsers p.advance q.advance := by
  obtain ⟨c, a, s, r⟩ := p
  obtain ⟨c', a', s', r'⟩ := q
  cases h.ahead with
  | nil => exact h
  | cons ht hrest =>
    exact ⟨.cons ht h.consumed, hrest, h.stop, h.reports, Or.inl (List.cons_ne_nil _ _)⟩

theorem Parsers.report (h : R.Parsers p q) (cause : SyntaxError) {a b : Span}
    (hspan : R.Spans a b) : R.Parsers (p.report cause a) (q.report cause b) :=
  ⟨h.consumed, h.ahead, h.stop, .cons ⟨rfl, hspan⟩ h.reports, h.filled⟩

theorem Parsers.unexpected (h : R.Parsers p q) (wanted : Wanted) :
    R.Parsers (p.unexpected wanted) (q.unexpected wanted) := by
  have ht := h.current
  unfold LineParser.unexpected
  dsimp only
  rw [← ht.isEnd, ← ht.describe]
  split
  · exact h.report _ ht.span
  · exact h.report _ ht.span

theorem Parsers.missingOperand (h : R.Parsers p q) :
    R.Results (missingOperand p) (missingOperand q) :=
  ⟨.string h.current.span (R.text_refl []), (h.unexpected .expression).advance⟩

theorem Parsers.depth_eq (h : R.Parsers p q) : p.depth = q.depth := by
  rw [LineParser.depth, LineParser.depth, h.ahead.length_eq]

theorem isEmpty_eq {α β : Type} {r : α → β → Prop} {xs : List α} {ys : List β}
    (h : List.Forall₂ r xs ys) : xs.isEmpty = ys.isEmpty := by
  cases h <;> rfl

theorem Parsers.finish (h : R.Parsers p q) : R.Parsers p.finish q.finish := by
  unfold LineParser.finish
  rw [isEmpty_eq h.ahead, isEmpty_eq h.reports]
  split
  · exact h
  · exact h.unexpected .newline

end Parsers

/-! ## The readers of expressions -/

/-- Readers with a bound on the depth keep positions alike and return trees that are alike. -/
structure AlikeAt (R : Likeness) (depth : Nat) : Prop where
  expression {p q : LineParser} : R.Parsers p q →
    R.Results (LineParser.expression depth p) (LineParser.expression depth q)
  chain {p q : LineParser} (least : Nat) : R.Parsers p q →
    R.Results (LineParser.chain depth least p) (LineParser.chain depth least q)
  chainRest {p q : LineParser} {start start' : Token} {left left' : Expr Span} (least : Nat)
    (last : Option Operator) : R.Parsers p q → R.Tokens start start' → R.Exprs left left' →
    R.Results (LineParser.chainRest depth least start last left p)
      (LineParser.chainRest depth least start' last left' q)
  unary {p q : LineParser} : R.Parsers p q →
    R.Results (LineParser.unary depth p) (LineParser.unary depth q)
  primary {p q : LineParser} : R.Parsers p q →
    R.Results (LineParser.primary depth p) (LineParser.primary depth q)
  segments {p q : LineParser} {a b : Span} (text : Text) (continues : Bool) : R.Parsers p q →
    R.Spans a b →
    List.Forall₂ R.Exprs (LineParser.segments depth a text continues p).1
      (LineParser.segments depth b text continues q).1 ∧
    R.Parsers (LineParser.segments depth a text continues p).2
      (LineParser.segments depth b text continues q).2

variable {depth : Nat} {p q : LineParser}

theorem AlikeAt.expression_succ (h : AlikeAt R depth) (hp : R.Parsers p q) :
    R.Results (LineParser.expression (depth + 1) p) (LineParser.expression (depth + 1) q) := by
  have hstart := hp.current
  obtain ⟨htarget, hafter⟩ := h.chain 1 hp
  rw [LineParser.expression, LineParser.expression]
  generalize LineParser.chain depth 1 p = x at htarget hafter ⊢
  generalize LineParser.chain depth 1 q = y at htarget hafter ⊢
  obtain ⟨target, p₁⟩ := x
  obtain ⟨target', q₁⟩ := y
  dsimp only at htarget hafter ⊢
  have hsign := hafter.current
  rw [← hsign.isMark, ← hstart.isMark]
  split
  · obtain ⟨hvalue, hend⟩ := h.expression hafter.advance
    have hrefused := And.intro htarget (hend.report .assignmentTarget (hstart.upTo hsign))
    cases htarget with
    | name hx =>
      cases p.current.isMark .openGroup with
      | false => exact ⟨.assign (hend.spanFrom hstart) hx hvalue, hend⟩
      | true => exact hrefused
    | _ => exact hrefused
  · exact ⟨htarget, hafter⟩

theorem AlikeAt.chain_succ (h : AlikeAt R depth) (least : Nat) (hp : R.Parsers p q) :
    R.Results (LineParser.chain (depth + 1) least p) (LineParser.chain (depth + 1) least q) := by
  obtain ⟨hleft, hafter⟩ := h.unary hp
  rw [LineParser.chain, LineParser.chain]
  exact h.chainRest least none hafter hp.current hleft

theorem AlikeAt.chainRest_succ (h : AlikeAt R depth) {start start' : Token}
    {left left' : Expr Span} (least : Nat) (last : Option Operator) (hp : R.Parsers p q)
    (hstart : R.Tokens start start') (hleft : R.Exprs left left') :
    R.Results (LineParser.chainRest (depth + 1) least start last left p)
      (LineParser.chainRest (depth + 1) least start' last left' q) := by
  rw [LineParser.chainRest, LineParser.chainRest, ← hp.current.operator?]
  split
  · exact ⟨hleft, hp⟩
  · next op _ =>
    split
    · exact ⟨hleft, hp⟩
    · obtain ⟨hright, hafter⟩ := h.chain (op.precedence + 1) hp.advance
      exact h.chainRest least (some op) hafter hstart
        (.apply op (hafter.spanFrom hstart) hleft hright)

theorem AlikeAt.unary_succ (h : AlikeAt R depth) (hp : R.Parsers p q) :
    R.Results (LineParser.unary (depth + 1) p) (LineParser.unary (depth + 1) q) := by
  have hstart := hp.current
  obtain ⟨hoperand, hafter⟩ := h.unary hp.advance
  have hspan := hafter.spanFrom hstart
  rw [LineParser.unary, LineParser.unary]
  dsimp only
  rcases hstart.kind with hkind | ⟨t, u, ht, hu, -⟩
  · rw [← hkind]
    split
    · exact ⟨.not hspan hoperand, hafter⟩
    · exact ⟨.binary hspan (.integer hstart.span) hoperand, hafter⟩
    · exact h.primary hp
  · rw [ht, hu]
    exact h.primary hp

theorem AlikeAt.primary_succ (h : AlikeAt R depth) (hp : R.Parsers p q) :
    R.Results (LineParser.primary (depth + 1) p) (LineParser.primary (depth + 1) q) := by
  have ht := hp.current
  rw [LineParser.primary, LineParser.primary]
  dsimp only
  rcases ht.kind with hkind | ⟨t, u, hstring, hstring', htext⟩
  · rw [← hkind]
    split
    · exact ⟨.name ht.span, hp.advance⟩
    · exact ⟨.integer ht.span, hp.advance⟩
    · exact ⟨.string ht.span (R.text_refl _), hp.advance⟩
    · exact ⟨.dot ht.span, hp.advance⟩
    · obtain ⟨hinner, hafter⟩ := h.expression hp.advance
      have hclose := hafter.current
      rw [← hclose.isMark]
      split
      · exact ⟨hinner, hafter.advance⟩
      · exact ⟨hinner, hafter.report _ (ht.upTo hclose)⟩
    · next text continues _ =>
      obtain ⟨hparts, hafter⟩ := h.segments text continues hp.advance ht.span
      exact ⟨.template hafter.lastStop hparts, hafter⟩
    · exact hp.missingOperand
  · rw [hstring, hstring']
    exact ⟨.string ht.span htext, hp.advance⟩

theorem AlikeAt.segments_succ (h : AlikeAt R depth) {a b : Span} (text : Text) (continues : Bool)
    (hp : R.Parsers p q) (hspan : R.Spans a b) :
    List.Forall₂ R.Exprs (LineParser.segments (depth + 1) a text continues p).1
        (LineParser.segments (depth + 1) b text continues q).1 ∧
      R.Parsers (LineParser.segments (depth + 1) a text continues p).2
        (LineParser.segments (depth + 1) b text continues q).2 := by
  have hliteral := forall₂_segmentParts hspan text
  rw [LineParser.segments, LineParser.segments]
  dsimp only
  split
  · obtain ⟨hembedded, hafter⟩ := h.expression hp
    have ht := hafter.current
    have hunclosed := hafter.report .unclosedTemplate ht.span
    rcases ht.kind with hkind | ⟨t, u, hstring, hstring', -⟩
    · rw [← hkind]
      split
      · next text' continues' _ =>
        obtain ⟨hothers, hend⟩ := h.segments text' continues' hafter.advance ht.span
        exact ⟨List.rel_append hliteral (.cons hembedded hothers), hend⟩
      · exact ⟨List.rel_append hliteral (.cons hembedded .nil), hunclosed⟩
    · rw [hstring, hstring']
      exact ⟨List.rel_append hliteral (.cons hembedded .nil), hunclosed⟩
  · exact ⟨hliteral, hp⟩

theorem alikeAt (R : Likeness) (depth : Nat) : AlikeAt R depth := by
  induction depth with
  | zero =>
    exact ⟨Parsers.missingOperand, fun _ => Parsers.missingOperand,
      fun _ _ hp _ _ => hp.missingOperand, Parsers.missingOperand, Parsers.missingOperand,
      fun _ _ hp _ => ⟨.nil, hp.unexpected .expression⟩⟩
  | succ depth ih =>
    exact ⟨ih.expression_succ, ih.chain_succ, ih.chainRest_succ, ih.unary_succ, ih.primary_succ,
      ih.segments_succ⟩

theorem Parsers.operand (h : R.Parsers p q) : R.Results p.operand q.operand := by
  unfold LineParser.operand
  rw [h.depth_eq]
  exact (alikeAt R _).expression h

/-! ## Statements -/

/-- Slices of two sources between places that stand for each other are equal up to the white space
around them. -/
def Slices (R : Likeness) (source source' : Text) : Prop :=
  ∀ {a a' b b' : Location}, R.start a a' → R.start b b' →
    (source.slice a.offset b.offset).stripped = (source'.slice a'.offset b'.offset).stripped

variable {source source' : Text}

theorem Slices.operandText_eq (hs : R.Slices source source') {start start' : LineParser}
    (hstart : R.Parsers start start') (hstop : R.Parsers p q) :
    operandText (some source) start p = operandText (some source') start' q :=
  hs hstart.current.span.start hstop.lastStop

theorem Parsers.statement (hs : R.Slices source source') (h : R.Parsers p q) :
    R.Stmts (p.statement (some source)).1 (q.statement (some source')).1 ∧
      R.Parsers (p.statement (some source)).2 (q.statement (some source')).2 := by
  have hstart := h.current
  obtain ⟨hbehind, hafter⟩ := h.advance.operand
  have htext := hs.operandText_eq h.advance hafter
  have hspan := hafter.spanFrom hstart
  obtain ⟨hvalue, hend⟩ := h.operand
  have hexpr := And.intro (Stmts.expr hvalue.note hvalue) hend.finish
  unfold LineParser.statement
  dsimp only
  rcases hstart.kind with hkind | ⟨t, u, ht, hu, -⟩
  · rw [← hkind, htext]
    split
    · exact ⟨.send hspan hbehind, hafter.finish⟩
    · exact ⟨.receive hspan hbehind, hafter.finish⟩
    · exact ⟨.assert hspan hbehind, hafter.finish⟩
    · exact hexpr
  · rw [ht, hu]
    exact hexpr

/-! ## Lines -/

/-- A line with a token that is alike another one is read in the same way. -/
theorem Lines.parse (hs : R.Slices source source') {l m : Line} (h : R.Lines l m)
    (hfilled : l.tokens ≠ []) :
    R.Stmts (l.parse (some source)).1 (m.parse (some source')).1 ∧
      List.Forall₂ R.Reports (l.parse (some source)).2 (m.parse (some source')).2 := by
  have hline : R.Parsers (ofLine l) (ofLine m) :=
    ⟨.nil, h.tokens, h.stop, .nil, Or.inr hfilled⟩
  obtain ⟨hstatement, hend⟩ := hline.statement hs
  exact ⟨hstatement, List.rel_reverse hend.reports⟩

/-- Tokens among those of a source: only the end of a line stops where nothing can start. -/
structure Among (R : Likeness) (t u : Token) : Prop extends R.Tokens t u where
  last : t.kind ≠ .newline → R.start t.span.stop u.span.stop

theorem forall₂_split {stop stop' : Token} (hstop : R.Tokens stop stop') {ts us : List Token}
    (h : List.Forall₂ R.Among ts us) :
    List.Forall₂ R.Lines (Line.split stop ts) (Line.split stop' us) := by
  induction h with
  | nil => exact .cons ⟨.nil, hstop⟩ .nil
  | @cons t u ts us ht _ ih =>
    rw [Line.split, Line.split, ← ht.isNewline]
    split
    · exact .cons ⟨.nil, ht.toTokens⟩ ih
    · next hline =>
      have hinner : R.Inner t u := ⟨ht.toTokens, ht.last (by simpa [Token.isNewline] using hline)⟩
      generalize Line.split stop ts = ls at ih ⊢
      generalize Line.split stop' us = ms at ih ⊢
      cases ih with
      | nil => exact .cons ⟨.cons hinner .nil, hstop⟩ .nil
      | cons hfirst hothers => exact .cons ⟨.cons hinner hfirst.tokens, hfirst.stop⟩ hothers

/-- The lines of tokens that are alike are alike. -/
theorem forall₂_filled {stop stop' : Token} (hstop : R.Tokens stop stop') {ts us : List Token}
    (h : List.Forall₂ R.Among ts us) :
    List.Forall₂ R.Lines (Line.filled stop ts) (Line.filled stop' us) := by
  refine List.rel_filter (fun l m hlm => ?_) (forall₂_split hstop h)
  show (!l.tokens.isEmpty) = true ↔ (!m.tokens.isEmpty) = true
  rw [isEmpty_eq hlm.tokens]

/-- Lines that are alike give statements that are alike. -/
theorem forall₂_statements (hs : R.Slices source source') {ls ms : List Line}
    (hfilled : ∀ l ∈ ls, l.tokens ≠ []) (h : List.Forall₂ R.Lines ls ms) :
    List.Forall₂ R.Stmts (ls.map fun l => (l.parse (some source)).1)
        (ms.map fun m => (m.parse (some source')).1) ∧
      List.Forall₂ R.Reports (ls.flatMap fun l => (l.parse (some source)).2)
        (ms.flatMap fun m => (m.parse (some source')).2) := by
  induction h with
  | nil => exact ⟨.nil, .nil⟩
  | cons hline _ ih =>
    obtain ⟨hfirst, hrest⟩ := List.forall_mem_cons.1 hfilled
    obtain ⟨hstatement, hreports⟩ := hline.parse hs hfirst
    obtain ⟨hstatements, hothers⟩ := ih hrest
    exact ⟨.cons hstatement hstatements, List.rel_append hreports hothers⟩

end Likeness

/-! ## Scripts -/

theorem Line.ne_nil_of_mem_filled {stop : Token} {ts : List Token} {line : Line}
    (h : line ∈ filled stop ts) : line.tokens ≠ [] := by
  simpa using List.of_mem_filter h

section Parse

variable {source : Option Text} {ts : List Token} {here : Location}

/-- What is parsed are the lines in front of the end of the input. -/
theorem parse_atEnd (source : Option Text) (hts : ∀ t ∈ ts, t.isEnd = false) (here : Location) :
    (parse source (ts ++ [.atEnd here])).script.statements =
        (Line.filled (.atEnd here) ts).map (fun l => (l.parse source).1) ∧
      (parse source (ts ++ [.atEnd here])).reports =
        (Line.filled (.atEnd here) ts).flatMap (fun l => (l.parse source).2) := by
  have hbody := takeWhile_atEnd hts here
  have hstop : (ts ++ [Token.atEnd here]).find? (·.isEnd) = some (.atEnd here) := by
    rw [List.find?_append, List.find?_eq_none.2 fun t ht => by simp [hts t ht]]
    rfl
  constructor
  · simp only [parse, hbody, hstop, Option.getD_some, Line.filled, List.map_map]
    rfl
  · simp only [parse, hbody, hstop, Option.getD_some, Line.filled, List.flatMap_map]

end Parse

end WireScript
