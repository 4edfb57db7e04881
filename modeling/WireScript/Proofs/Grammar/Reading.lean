import WireScript.Proofs.Grammar.Basic

/-!
# Reading along a line

What both directions of the correctness of the parser share.

* `LineParser.Reads` relates two positions in one line: the tokens between them, and nothing found
  wrong between them.
* The operators are sorted by level.  `Operator.leftLevel` is the level that an operator wants of
  its left operand, and `refuses_eq` says that the parser's refusal is exactly a left operand that
  is too loose.  `Derives.apply` is the rule of the grammar for an operator at any level.
* `bare` forgets the positions of a tree, and `bare_template_segment` says how the tree of a
  template grows at its front.
-/

namespace WireScript

/-! ## Positions -/

namespace LineParser

/-- From one position to another in the same line the parser passed over the given tokens and found
nothing wrong. -/
structure Reads (ts : List Token) (p q : LineParser) : Prop where
  ahead : p.ahead = ts ++ q.ahead
  consumed : q.consumed = ts.reverse ++ p.consumed
  stop : q.stop = p.stop
  reports : q.reports = p.reports

/-- The line ends with a token that ends lines. -/
def Bounded (p : LineParser) : Prop :=
  p.stop.kind = .newline ∨ p.stop.kind = .endOfInput

variable {p q r : LineParser} {ts us : List Token} {t : Token}

theorem Reads.refl (p : LineParser) : Reads [] p p :=
  ⟨rfl, rfl, rfl, rfl⟩

theorem Reads.trans (h : Reads ts p q) (h' : Reads us q r) : Reads (ts ++ us) p r where
  ahead := by rw [h.ahead, h'.ahead, List.append_assoc]
  consumed := by rw [h'.consumed, h.consumed, List.reverse_append, List.append_assoc]
  stop := h'.stop.trans h.stop
  reports := h'.reports.trans h.reports

theorem Reads.eq_of_nil (h : Reads [] p q) : p = q := by
  obtain ⟨c, a, s, r⟩ := p
  obtain ⟨c', a', s', r'⟩ := q
  obtain ⟨ha, hc, hs, hr⟩ := h
  cases ha
  cases hc
  cases hs
  cases hr
  rfl

/-- There is a position between the first tokens and the others. -/
theorem Reads.split (h : Reads (ts ++ us) p r) : ∃ q, Reads ts p q ∧ Reads us q r := by
  refine ⟨⟨ts.reverse ++ p.consumed, us ++ r.ahead, p.stop, p.reports⟩,
    ⟨?_, rfl, rfl, rfl⟩, ⟨rfl, ?_, h.stop, h.reports⟩⟩
  · rw [h.ahead, List.append_assoc]
  · rw [h.consumed, List.reverse_append, List.append_assoc]

theorem Reads.current_eq (h : Reads (t :: ts) p q) : p.current = t := by
  simp [current, h.ahead]

theorem Reads.advance (h : Reads (t :: ts) p q) : Reads ts p.advance q := by
  obtain ⟨c, a, s, r⟩ := p
  obtain ⟨rfl, hc, hs, hr⟩ := h
  exact ⟨rfl, by simpa [LineParser.advance] using hc, hs, hr⟩

theorem Bounded.of_reads (hp : p.Bounded) (h : Reads ts p q) : q.Bounded := by
  rwa [Bounded, h.stop]

@[simp] theorem bounded_advance : p.advance.Bounded ↔ p.Bounded := by
  unfold Bounded advance
  split <;> rfl

@[simp] theorem bounded_report {cause : SyntaxError} {span : Span} :
    (p.report cause span).Bounded ↔ p.Bounded :=
  Iff.rfl

@[simp] theorem bounded_unexpected {wanted : Wanted} :
    (p.unexpected wanted).Bounded ↔ p.Bounded := by
  dsimp only [unexpected]
  split <;> rfl

@[simp] theorem reports_advance : p.advance.reports = p.reports := by
  unfold advance
  split <;> rfl

theorem reports_unexpected_ne_nil (p : LineParser) (wanted : Wanted) :
    (p.unexpected wanted).reports ≠ [] := by
  dsimp only [unexpected]
  split <;> simp [report]

/-- A token that does not end lines can be passed over. -/
theorem Bounded.reads_advance (hp : p.Bounded) (hline : p.current.kind ≠ .newline)
    (hinput : p.current.kind ≠ .endOfInput) : Reads [p.current] p p.advance := by
  obtain ⟨c, a, s, r⟩ := p
  cases a with
  | nil => exact hp.elim (fun h => absurd h hline) (fun h => absurd h hinput)
  | cons t a => exact ⟨rfl, rfl, rfl, rfl⟩

end LineParser

/-! ## Operators by level -/

/-- The level of the left operand of an operator.  Comparisons want a tighter one than they make;
all others may follow an operator of their own level. -/
def Operator.leftLevel (op : Operator) : Nat :=
  if op.isComparison then 4 else op.precedence

theorem Operator.precedence_le_leftLevel (op : Operator) : op.precedence ≤ op.leftLevel := by
  cases op <;> decide

namespace Grammar

/-- The parts of an expression by how tightly they bind. -/
def level : Nat → Symbol
  | 0 => .expression
  | 1 => .disjunction
  | 2 => .conjunction
  | 3 => .comparison
  | 4 => .sum
  | 5 => .product
  | _ => .unary

/-- The level of an operand that ends with the given operator and its right operand, or without
one. -/
def reached : Option Operator → Nat
  | none => 6
  | some op => op.precedence

/-- An operator is refused where the operand in front of it is too loose to be its left one. -/
theorem refuses_eq (last : Option Operator) (op : Operator) :
    LineParser.refuses last op = decide (reached last < op.leftLevel) := by
  cases last with
  | none => cases op <;> rfl
  | some last => cases last <;> cases op <;> rfl

variable {t : Token} {ts us : List Token} {l r e : Tree}

theorem Derives.loosen_succ {n : Nat} (h : Derives (level (n + 1)) ts e) :
    Derives (level n) ts e := by
  match n with
  | 0 => exact .ofDisjunction h
  | 1 => exact .ofConjunction h
  | 2 => exact .ofComparison h
  | 3 => exact .ofSum h
  | 4 => exact .ofProduct h
  | 5 => exact .ofUnary h
  | _ + 6 => exact h

/-- What is a part of an expression at one level is one at every looser level. -/
theorem Derives.loosen {m n : Nat} (h : Derives (level n) ts e) (hmn : m ≤ n) :
    Derives (level m) ts e := by
  induction hmn with
  | refl => exact h
  | step _ ih => exact ih h.loosen_succ

/-- An operator between two operands of its levels makes a part of an expression at its level. -/
theorem Derives.apply {op : Operator} (hl : Derives (level op.leftLevel) ts l)
    (ht : t.operator? = some op) (hr : Derives (level (op.precedence + 1)) us r) :
    Derives (level op.precedence) (ts ++ t :: us) (op.apply () l r) := by
  unfold Token.operator? at ht
  split at ht
  · next m hkind =>
    cases m <;> cases ht
    case or => exact .or hl hkind hr
    case and => exact .and hl hkind hr
    case equal | notEqual | less | greater | atMost | atLeast => exact .compare hl hkind rfl hr
    case plus | minus => exact .add hl hkind rfl hr
    case star | slash | percent => exact .multiply hl hkind rfl hr
  · cases ht

/-! ## Trees without positions -/

/-- A tree without its positions. -/
abbrev bare (e : Expr Span) : Tree := e.map fun _ => ()

theorem bare_apply (op : Operator) (span : Span) (l r : Expr Span) :
    bare (op.apply span l r) = op.apply () (bare l) (bare r) := by
  cases op <;> rfl

theorem bare_template_cons (stop : Location) (part : Expr Span) (parts : List (Expr Span)) :
    bare (LineParser.template stop (part :: parts)) =
      .concat () (bare part) (bare (LineParser.template stop parts)) :=
  rfl

/-- A segment in front of the parts of a template. -/
theorem bare_template_segment (stop : Location) (span : Span) (text : Text)
    (parts : List (Expr Span)) :
    bare (LineParser.template stop (LineParser.segmentParts span text ++ parts)) =
      withSegment text (bare (LineParser.template stop parts)) := by
  unfold LineParser.segmentParts withSegment
  split
  · rfl
  · rfl

end Grammar

end WireScript
