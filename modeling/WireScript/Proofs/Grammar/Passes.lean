import WireScript.Proofs.Grammar.Reading

/-!
# What a reader passes over

A reader of expressions goes forward along its line, whatever it finds wrong there, and every name
in what it returns is a token that it passed over.

* `LineParser.Passes` relates two positions in one line by the tokens between them.
* `Takes` says that a reader went from one position to another and that the names it knows by then
  are names it was given or tokens between the two.
* `TakenAt` says so of all readers of expressions.  It is proved by induction on the depth, with one
  lemma for each reader.
-/

namespace WireScript

/-! ## Names -/

/-- The names in an expression, each with the note of its node. -/
def Expr.names {α : Type} : Expr α → List (α × Text)
  | integer .. | string .. | dot .. => []
  | name a x => [(a, x)]
  | binary _ _ l r | and _ l r | or _ l r | concat _ l r => l.names ++ r.names
  | not _ e => e.names
  | assign _ a x e => (a, x) :: e.names

/-- The name that a token is, with the place where it stands. -/
def Token.name? (t : Token) : Option (Span × Text) :=
  match t.kind with
  | .name x => some (t.span, x)
  | _ => none

theorem Expr.names_apply {α : Type} (op : Operator) (a : α) (l r : Expr α) :
    (op.apply a l r).names = l.names ++ r.names := by
  cases op <;> rfl

theorem names_template (stop : Location) (parts : List (Expr Span)) :
    (LineParser.template stop parts).names = parts.flatMap Expr.names := by
  induction parts with
  | nil => rfl
  | cons part parts ih => exact congrArg (part.names ++ ·) ih

theorem names_segmentParts (span : Span) (text : Text) :
    (LineParser.segmentParts span text).flatMap Expr.names = [] := by
  unfold LineParser.segmentParts
  split <;> rfl

namespace LineParser

/-! ## Positions -/

/-- From one position to another in the same line the parser passed over the given tokens. -/
structure Passes (ts : List Token) (p q : LineParser) : Prop where
  ahead : p.ahead = ts ++ q.ahead
  consumed : q.consumed = ts.reverse ++ p.consumed
  stop : q.stop = p.stop

variable {p q r : LineParser} {ts us : List Token} {known found more : List (Span × Text)}

theorem Reads.passes (h : Reads ts p q) : Passes ts p q := ⟨h.ahead, h.consumed, h.stop⟩

theorem Passes.refl (p : LineParser) : Passes [] p p := ⟨rfl, rfl, rfl⟩

theorem Passes.trans (h : Passes ts p q) (h' : Passes us q r) : Passes (ts ++ us) p r where
  ahead := by rw [h.ahead, h'.ahead, List.append_assoc]
  consumed := by rw [h'.consumed, h.consumed, List.reverse_append, List.append_assoc]
  stop := h'.stop.trans h.stop

theorem Passes.length_le (h : Passes ts p q) : q.ahead.length ≤ p.ahead.length := by
  rw [h.ahead, List.length_append]
  exact Nat.le_add_left _ _

/-- What was read before is not read again. -/
theorem Passes.consumed_ne_nil (h : Passes ts p q) (hp : p.consumed ≠ []) : q.consumed ≠ [] := by
  rw [h.consumed]
  exact List.append_ne_nil_of_right_ne_nil _ hp

theorem Passes.bounded (h : Passes ts p q) (hp : p.Bounded) : q.Bounded := by
  rwa [Bounded, h.stop]

/-- Where reading stopped is the end of a token of the line, if there is a token. -/
theorem Passes.exists_lastStop (h : Passes ts p q) (hp : p.consumed = []) (hne : p.ahead ≠ []) :
    ∃ t ∈ p.ahead, q.lastStop = t.span.stop := by
  have hconsumed := h.consumed
  rw [hp, List.append_nil] at hconsumed
  rw [lastStop, hconsumed, h.ahead]
  cases htokens : ts.reverse with
  | nil =>
    obtain rfl := List.reverse_eq_nil_iff.1 htokens
    obtain ⟨t, us, hahead⟩ := List.exists_cons_of_ne_nil hne
    rw [h.ahead, List.nil_append] at hahead
    exact ⟨t, by simp [hahead], by simp [current, hahead]⟩
  | cons t us =>
    have ht : t ∈ ts := List.mem_reverse.1 (htokens ▸ List.mem_cons_self)
    exact ⟨t, List.mem_append_left _ ht, rfl⟩

theorem passes_report (p : LineParser) (cause : SyntaxError) (span : Span) :
    Passes [] p (p.report cause span) := ⟨rfl, rfl, rfl⟩

theorem passes_unexpected (p : LineParser) (wanted : Wanted) :
    Passes [] p (p.unexpected wanted) := by
  unfold unexpected
  dsimp only
  split <;> exact passes_report p _ _

theorem passes_finish (p : LineParser) : Passes [] p p.finish := by
  unfold finish
  split
  · exact .refl p
  · exact passes_unexpected p .newline

/-- The next token is passed over if there is one. -/
theorem passes_advance (p : LineParser) : ∃ ts, Passes ts p p.advance := by
  obtain ⟨c, a, s, r⟩ := p
  cases a with
  | nil => exact ⟨[], .refl _⟩
  | cons t a => exact ⟨[t], rfl, rfl, rfl⟩

/-! ## Names in what is read -/

/-- A reader went from one position to another.  The names it found are names that were known or
tokens that it passed over. -/
def Takes (known : List (Span × Text)) (p : LineParser) (found : List (Span × Text))
    (q : LineParser) : Prop :=
  ∃ ts, Passes ts p q ∧ found ⊆ known ++ ts.filterMap Token.name?

theorem Takes.refl (known : List (Span × Text)) (p : LineParser) : Takes known p known p :=
  ⟨[], .refl p, List.subset_append_left _ _⟩

theorem Takes.trans (h : Takes known p found q) (h' : Takes found q more r) :
    Takes known p more r := by
  obtain ⟨ts, hts, hfound⟩ := h
  obtain ⟨us, hus, hmore⟩ := h'
  refine ⟨ts ++ us, hts.trans hus, fun x hx => ?_⟩
  rw [List.filterMap_append, ← List.append_assoc]
  exact (List.append_subset.2 ⟨List.subset_append_of_subset_left _ hfound,
    List.subset_append_right _ _⟩) (hmore hx)

/-- Fewer names are found as well. -/
theorem Takes.mono (h : Takes known p found q) (hmore : more ⊆ found) : Takes known p more q := by
  obtain ⟨ts, hts, hfound⟩ := h
  exact ⟨ts, hts, List.Subset.trans hmore hfound⟩

/-- Names that are known besides stay known. -/
theorem Takes.beside (h : Takes known p found q) (besides : List (Span × Text)) :
    Takes (besides ++ known) p (besides ++ found) q := by
  obtain ⟨ts, hts, hfound⟩ := h
  refine ⟨ts, hts, ?_⟩
  rw [List.append_assoc]
  exact List.append_subset.2 ⟨List.subset_append_left _ _,
    List.subset_append_of_subset_right _ hfound⟩

theorem takes_report (known : List (Span × Text)) (p : LineParser) (cause : SyntaxError)
    (span : Span) : Takes known p known (p.report cause span) :=
  ⟨[], passes_report p cause span, List.subset_append_left _ _⟩

theorem takes_unexpected (known : List (Span × Text)) (p : LineParser) (wanted : Wanted) :
    Takes known p known (p.unexpected wanted) :=
  ⟨[], passes_unexpected p wanted, List.subset_append_left _ _⟩

theorem takes_advance (known : List (Span × Text)) (p : LineParser) :
    Takes known p known p.advance := by
  obtain ⟨ts, hts⟩ := passes_advance p
  exact ⟨ts, hts, List.subset_append_left _ _⟩

theorem takes_missingOperand (known : List (Span × Text)) (p : LineParser) :
    Takes known p known (missingOperand p).2 :=
  (takes_unexpected known p .expression).trans (takes_advance known _)

theorem takes_finish (known : List (Span × Text)) (p : LineParser) :
    Takes known p known p.finish :=
  ⟨[], passes_finish p, List.subset_append_left _ _⟩

theorem Takes.bounded (h : Takes known p found q) (hp : p.Bounded) : q.Bounded := by
  obtain ⟨ts, hts, -⟩ := h
  exact hts.bounded hp

theorem Takes.length_le (h : Takes known p found q) : q.ahead.length ≤ p.ahead.length := by
  obtain ⟨ts, hts, -⟩ := h
  exact hts.length_le

theorem Takes.consumed_ne_nil (h : Takes known p found q) (hp : p.consumed ≠ []) :
    q.consumed ≠ [] := by
  obtain ⟨ts, hts, -⟩ := h
  exact hts.consumed_ne_nil hp

/-- A name is passed over in the place where it stands. -/
theorem takes_name {x : Text} (hp : p.Bounded) (hkind : p.current.kind = .name x) :
    Takes [] p [(p.current.span, x)] p.advance := by
  have hreads := hp.reads_advance (by simp [hkind]) (by simp [hkind])
  refine ⟨[p.current], hreads.passes, ?_⟩
  simp [Token.name?, hkind]

end LineParser

open LineParser

/-- Readers with a bound on the depth go forward, and the names that they find are known or passed
over. -/
structure TakenAt (depth : Nat) : Prop where
  expression {p : LineParser} : p.Bounded →
    Takes [] p (LineParser.expression depth p).1.names (LineParser.expression depth p).2
  chain {p : LineParser} (least : Nat) : p.Bounded →
    Takes [] p (LineParser.chain depth least p).1.names (LineParser.chain depth least p).2
  chainRest {p : LineParser} (least : Nat) (start : Token) (last : Option Operator)
    (left : Expr Span) : p.Bounded →
    Takes left.names p (LineParser.chainRest depth least start last left p).1.names
      (LineParser.chainRest depth least start last left p).2
  unary {p : LineParser} : p.Bounded →
    Takes [] p (LineParser.unary depth p).1.names (LineParser.unary depth p).2
  primary {p : LineParser} : p.Bounded →
    Takes [] p (LineParser.primary depth p).1.names (LineParser.primary depth p).2
  segments {p : LineParser} (span : Span) (text : Text) (continues : Bool) : p.Bounded →
    Takes [] p ((LineParser.segments depth span text continues p).1.flatMap Expr.names)
      (LineParser.segments depth span text continues p).2

variable {depth : Nat} {p q : LineParser}

theorem TakenAt.expression_succ (h : TakenAt depth) (hp : p.Bounded) :
    Takes [] p (LineParser.expression (depth + 1) p).1.names
      (LineParser.expression (depth + 1) p).2 := by
  have htarget := h.chain 1 hp
  rw [LineParser.expression]
  generalize LineParser.chain depth 1 p = x at htarget ⊢
  obtain ⟨target, q⟩ := x
  dsimp only at htarget ⊢
  split
  · have hq := bounded_advance.2 (htarget.bounded hp)
    have hsign := htarget.trans (takes_advance _ q)
    have hvalue := (h.expression hq).beside target.names
    rw [List.append_nil] at hvalue
    generalize LineParser.expression depth q.advance = y at hvalue ⊢
    obtain ⟨value, r⟩ := y
    dsimp only at hvalue ⊢
    have hboth := hsign.trans hvalue
    split
    · exact hboth
    · exact (hboth.mono (List.subset_append_left _ _)).trans (takes_report _ _ _ _)
  · exact htarget

theorem TakenAt.chain_succ (h : TakenAt depth) (least : Nat) (hp : p.Bounded) :
    Takes [] p (LineParser.chain (depth + 1) least p).1.names
      (LineParser.chain (depth + 1) least p).2 := by
  have hleft := h.unary hp
  rw [LineParser.chain]
  exact hleft.trans (h.chainRest least _ none _ (hleft.bounded hp))

theorem TakenAt.chainRest_succ (h : TakenAt depth) (least : Nat) (start : Token)
    (last : Option Operator) (left : Expr Span) (hp : p.Bounded) :
    Takes left.names p (LineParser.chainRest (depth + 1) least start last left p).1.names
      (LineParser.chainRest (depth + 1) least start last left p).2 := by
  rw [LineParser.chainRest]
  split
  · exact .refl _ p
  · next op _ =>
    split
    · exact .refl _ p
    · have hright := (h.chain (op.precedence + 1) (bounded_advance.2 hp)).beside left.names
      rw [List.append_nil] at hright
      generalize LineParser.chain depth (op.precedence + 1) p.advance = x at hright ⊢
      obtain ⟨right, q⟩ := x
      dsimp only at hright ⊢
      have hboth := (takes_advance _ p).trans hright
      rw [← Expr.names_apply op (q.spanFrom start)] at hboth
      exact hboth.trans (h.chainRest least start (some op) _ (hboth.bounded hp))

theorem TakenAt.unary_succ (h : TakenAt depth) (hp : p.Bounded) :
    Takes [] p (LineParser.unary (depth + 1) p).1.names (LineParser.unary (depth + 1) p).2 := by
  have hoperand := (takes_advance [] p).trans (h.unary (bounded_advance.2 hp))
  rw [LineParser.unary]
  dsimp only
  split
  · exact hoperand
  · exact hoperand
  · exact h.primary hp

theorem TakenAt.primary_succ (h : TakenAt depth) (hp : p.Bounded) :
    Takes [] p (LineParser.primary (depth + 1) p).1.names (LineParser.primary (depth + 1) p).2 := by
  have hadvance := takes_advance [] p
  have hafter := bounded_advance.2 hp
  rw [LineParser.primary]
  dsimp only
  split
  · next hkind => exact takes_name hp hkind
  · exact hadvance
  · exact hadvance
  · exact hadvance
  · have hinner := hadvance.trans (h.expression hafter)
    split
    · exact hinner.trans (takes_advance _ _)
    · exact hinner.trans (takes_report _ _ _ _)
  · next text continues _ =>
    have hparts := hadvance.trans (h.segments p.current.span text continues hafter)
    rwa [← names_template] at hparts
  · exact takes_missingOperand [] p

theorem TakenAt.segments_succ (h : TakenAt depth) (span : Span) (text : Text) (continues : Bool)
    (hp : p.Bounded) :
    Takes [] p ((LineParser.segments (depth + 1) span text continues p).1.flatMap Expr.names)
      (LineParser.segments (depth + 1) span text continues p).2 := by
  rw [LineParser.segments]
  dsimp only
  split
  · have hembedded := h.expression hp
    generalize LineParser.expression depth p = x at hembedded ⊢
    obtain ⟨embedded, q⟩ := x
    dsimp only at hembedded ⊢
    split
    · next text' continues' _ =>
      have hq := bounded_advance.2 (hembedded.bounded hp)
      have hothers := (h.segments q.current.span text' continues' hq).beside embedded.names
      rw [List.append_nil] at hothers
      simpa [names_segmentParts] using (hembedded.trans (takes_advance _ q)).trans hothers
    · simpa [names_segmentParts] using hembedded.trans (takes_report _ _ _ _)
  · rw [names_segmentParts]
    exact .refl [] p

theorem takenAt (depth : Nat) : TakenAt depth := by
  induction depth with
  | zero =>
    have hnone (p : LineParser) := takes_missingOperand [] p
    refine ⟨fun _ => hnone _, fun _ _ => hnone _, fun _ _ _ left _ => ?_, fun _ => hnone _,
      fun _ => hnone _, fun _ _ _ _ => takes_unexpected [] _ _⟩
    exact (takes_missingOperand left.names _).mono (List.nil_subset _)
  | succ depth ih =>
    exact ⟨ih.expression_succ, ih.chain_succ, ih.chainRest_succ, ih.unary_succ, ih.primary_succ,
      ih.segments_succ⟩

/-! ## Statements -/

namespace LineParser

theorem takes_operand (hp : p.Bounded) : Takes [] p p.operand.1.names p.operand.2 :=
  (takenAt p.depth).expression hp

/-- The statement on a line has the names of what was passed over. -/
theorem takes_statement (hp : p.Bounded) (source : Option Text) :
    Takes [] p (p.statement source).1.operand.names (p.statement source).2 := by
  have hsigned := (takes_advance [] p).trans (takes_operand (bounded_advance.2 hp))
  have hfinished := hsigned.trans (takes_finish _ _)
  unfold statement
  dsimp only
  split
  · exact hfinished
  · exact hfinished
  · exact hfinished
  · exact (takes_operand hp).trans (takes_finish _ _)

end LineParser

end WireScript
