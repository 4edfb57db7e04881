import WireScript.Proofs.Grammar.Reading

/-!
# What derives is accepted

A reader of expressions that stands in front of tokens that derive passes over them without a
report, and returns the tree of the derivation, if what follows cannot go on with the expression.

`IsRead` says so for one part of the grammar, and `Derives.isRead` proves it for all of them by
induction on the derivation.  For the levels of the operators the statement has to be open at its
end, since the climbing loop does not return between two operands: `IsChain` says that the loop gets
behind the tokens with their tree in hand and an operator behind it that is loose enough.

A depth is enough if it is five times the number of tokens and a little more; every reader has its
own little more.
-/

namespace WireScript.Grammar

open LineParser

variable {p q r : LineParser} {ts us : List Token} {t : Token} {e l : Tree} {k least depth : Nat}

/-! ## The end of an operand -/

/-- The loop ends in front of a token that is no operator of its level. -/
theorem chainRest_of_loose {start : Token} {last : Option Operator} {left : Expr Span}
    (h : ∀ op, p.current.operator? = some op → op.precedence < least) :
    LineParser.chainRest (depth + 1) least start last left p = (left, p) := by
  rw [LineParser.chainRest]
  split
  · rfl
  · next op hop =>
    rw [if_pos]
    simp [h op hop]

/-- The loop goes on with an operator that does not bind too loosely, behind an operand that does
not bind too loosely for it. -/
theorem chainRest_of_tight {start : Token} {last : Option Operator} {left right : Expr Span}
    {op : Operator} (hop : p.current.operator? = some op) (hleast : least ≤ op.precedence)
    (hlast : op.leftLevel ≤ reached last)
    (hright : LineParser.chain depth (op.precedence + 1) p.advance = (right, q)) :
    LineParser.chainRest (depth + 1) least start last left p =
      LineParser.chainRest depth least start (some op) (op.apply (q.spanFrom start) left right)
        q := by
  rw [LineParser.chainRest]
  have hgo : ¬ (decide (op.precedence < least) || refuses last op) = true := by
    rw [refuses_eq]
    simpa using ⟨hleast, hlast⟩
  simp only [hop, hright, if_neg hgo]

/-- An operand that does not start with a negation or a sign is an atom. -/
theorem unary_of_atom (hnot : p.current.kind ≠ .mark .not)
    (hminus : p.current.kind ≠ .mark .minus) :
    LineParser.unary (depth + 1) p = LineParser.primary depth p := by
  rw [LineParser.unary]
  dsimp only
  split
  · next h => exact absurd h hnot
  · next h => exact absurd h hminus
  · rfl

theorem Derives.head_of_atom (h : Derives .atom ts e) :
    ∃ t us, ts = t :: us ∧ t.kind ≠ .mark .not ∧ t.kind ≠ .mark .minus := by
  cases h with
  | name ht | integer ht | string ht | dot ht => exact ⟨_, _, rfl, by simp [ht], by simp [ht]⟩
  | group ht | template ht => exact ⟨_, _, rfl, by simp [ht], by simp [ht]⟩

/-! ## What it means to be read -/

/-- The climbing loop gets behind the tokens with their tree in hand.  The operator that it has seen
last binds at least as tightly as given, and there is depth left to go on. -/
def IsChain (k : Nat) (ts : List Token) (e : Tree) : Prop :=
  ∀ depth least p q, least ≤ k → Reads ts p q → 5 * ts.length + 4 ≤ depth →
    (∀ op, q.current.operator? = some op → op.precedence ≤ k) →
    ∃ rest last e', depth ≤ rest + 1 + ts.length ∧ k ≤ reached last ∧ bare e' = e ∧
      LineParser.chain depth least p = LineParser.chainRest rest least p.current last e' q

/-- The readers get behind the tokens with their tree in hand. -/
def IsRead : Symbol → List Token → Tree → Prop
  | .expression, ts, e => ∀ depth p q, Reads ts p q → 5 * ts.length + 5 ≤ depth →
    q.current.operator? = none → q.current.isMark .assign = false →
    ∃ e', LineParser.expression depth p = (e', q) ∧ bare e' = e
  | .disjunction, ts, e => IsChain 1 ts e
  | .conjunction, ts, e => IsChain 2 ts e
  | .comparison, ts, e => IsChain 3 ts e
  | .sum, ts, e => IsChain 4 ts e
  | .product, ts, e => IsChain 5 ts e
  | .unary, ts, e => ∀ depth p q, Reads ts p q → 5 * ts.length + 3 ≤ depth →
    ∃ e', LineParser.unary depth p = (e', q) ∧ bare e' = e
  | .atom, ts, e => ∀ depth p q, Reads ts p q → 5 * ts.length + 2 ≤ depth →
    ∃ e', LineParser.primary depth p = (e', q) ∧ bare e' = e
  | .rest continues, ts, e => ∀ depth span text p q, Reads ts p q → 5 * ts.length + 6 ≤ depth →
    ∃ parts, segments depth span text continues p = (parts, q) ∧
      ∀ stop, bare (template stop parts) = withSegment text e

/-! ## Chains -/

theorem IsChain.loosen {m : Nat} (h : IsChain k ts e) (hm : m ≤ k) : IsChain m ts e := by
  intro depth least p q hleast hreads hdepth hnext
  obtain ⟨rest, last, e', hrest, hlast, he, hchain⟩ := h depth least p q
    (Nat.le_trans hleast hm) hreads hdepth fun op hop => Nat.le_trans (hnext op hop) hm
  exact ⟨rest, last, e', hrest, Nat.le_trans hm hlast, he, hchain⟩

/-- An operand without operators is a chain at every level. -/
theorem IsChain.of_unary (h : IsRead .unary ts e) (hk : k ≤ 6) : IsChain k ts e := by
  intro depth least p q hleast hreads hdepth hnext
  obtain ⟨depth, rfl⟩ : ∃ n, depth = n + 1 := ⟨depth - 1, by omega⟩
  obtain ⟨e', hunary, he⟩ := h depth p q hreads (by omega)
  refine ⟨depth, none, e', by omega, hk, he, ?_⟩
  rw [LineParser.chain, hunary]

/-- A chain in front of anything that cannot go on with it is read to its end. -/
theorem IsChain.chain_eq (h : IsChain k ts e) (depth : Nat) (hk : least ≤ k)
    (hreads : Reads ts p q) (hdepth : 5 * ts.length + 4 ≤ depth)
    (hnext : ∀ op, q.current.operator? = some op → op.precedence < least) :
    ∃ e', LineParser.chain depth least p = (e', q) ∧ bare e' = e := by
  obtain ⟨rest, last, e', hrest, -, he, hchain⟩ := h depth least p q hk hreads hdepth
    fun op hop => Nat.le_of_lt (Nat.lt_of_lt_of_le (hnext op hop) hk)
  obtain ⟨rest, rfl⟩ : ∃ n, rest = n + 1 := ⟨rest - 1, by omega⟩
  rw [chainRest_of_loose hnext] at hchain
  exact ⟨e', hchain, he⟩

/-- One more round of the loop: an operator and its right operand behind a chain. -/
theorem IsChain.apply (op : Operator) {i : Nat} {r : Tree} (hi : op.leftLevel = i)
    (hk : op.precedence = k) (hl : IsChain i ts l) (ht : t.operator? = some op)
    (hr : IsChain (k + 1) us r) : IsChain k (ts ++ t :: us) (op.apply () l r) := by
  subst hi hk
  intro depth least p q hleast hreads hdepth hnext
  -- the loop gets behind the left operand, and then one round takes the operator and the right one
  obtain ⟨p₁, hleft, hrest⟩ := hreads.split
  have hcurrent := hrest.current_eq
  rw [List.length_append, List.length_cons] at hdepth
  obtain ⟨rest, last, l', hrest_le, hlast, hl', hchain⟩ := hl depth least p p₁
    (Nat.le_trans hleast op.precedence_le_leftLevel) hleft (by omega) fun op' hop' => by
      rw [hcurrent, ht] at hop'
      cases hop'
      exact op.precedence_le_leftLevel
  obtain ⟨rest, rfl⟩ : ∃ n, rest = n + 1 := ⟨rest - 1, by omega⟩
  obtain ⟨r', hright, hr'⟩ := hr.chain_eq rest (Nat.le_refl _) hrest.advance (by omega)
    fun op' hop' => Nat.lt_succ_of_le (hnext op' hop')
  refine ⟨rest, some op, op.apply (q.spanFrom p.current) l' r', ?_, Nat.le_refl _, ?_, ?_⟩
  · rw [List.length_append, List.length_cons]
    omega
  · rw [bare_apply, hl', hr']
  · rw [hchain]
    exact chainRest_of_tight (by rw [hcurrent, ht]) hleast hlast hright

/-! ## Every derivation -/

/-- The operators of comparisons, sums and products are operators of these levels. -/
theorem exists_operator_of_compared {m : Mark} {f : Tree → Tree → Tree} (hm : compared m = some f)
    (ht : t.kind = .mark m) :
    ∃ op, t.operator? = some op ∧ op.leftLevel = 4 ∧ op.precedence = 3 ∧ f = op.apply () := by
  unfold Token.operator?
  rw [ht]
  cases m <;> cases hm <;> exact ⟨_, rfl, rfl, rfl, rfl⟩

theorem exists_operator_of_added {m : Mark} {op : IntOp} (hm : added m = some op)
    (ht : t.kind = .mark m) : ∃ o : Operator, t.operator? = some o ∧ o.leftLevel = 4 ∧
      o.precedence = 4 ∧ Expr.binary () op = o.apply () := by
  unfold Token.operator?
  rw [ht]
  cases m <;> cases hm <;> exact ⟨_, rfl, rfl, rfl, rfl⟩

theorem exists_operator_of_multiplied {m : Mark} {op : IntOp} (hm : multiplied m = some op)
    (ht : t.kind = .mark m) : ∃ o : Operator, t.operator? = some o ∧ o.leftLevel = 5 ∧
      o.precedence = 5 ∧ Expr.binary () op = o.apply () := by
  unfold Token.operator?
  rw [ht]
  cases m <;> cases hm <;> exact ⟨_, rfl, rfl, rfl, rfl⟩

theorem isRead_assign {s : Token} {x : Text} (ht : t.kind = .name x) (hs : s.kind = .mark .assign)
    (h : IsRead .expression ts e) : IsRead .expression (t :: s :: ts) (.assign () () x e) := by
  intro depth p q hreads hdepth hop hassign
  rw [List.length_cons, List.length_cons] at hdepth
  obtain ⟨depth, rfl⟩ : ∃ n, depth = n + 4 := ⟨depth - 4, by omega⟩
  have hname := hreads.current_eq
  have hsign := hreads.advance.current_eq
  have htarget : LineParser.chain (depth + 3) 1 p = (.name t.span x, p.advance) := by
    rw [LineParser.chain, unary_of_atom (by simp [hname, ht]) (by simp [hname, ht])]
    rw [LineParser.primary, hname, ht]
    apply chainRest_of_loose
    simp [Token.operator?, hsign, hs, Mark.operator?]
  obtain ⟨e', hvalue, he⟩ := h (depth + 3) p.advance.advance q hreads.advance.advance (by omega)
    hop hassign
  refine ⟨.assign (q.spanFrom p.current) t.span x e', ?_, ?_⟩
  · rw [LineParser.expression, htarget]
    simp only [hsign, Token.isMark, hs, hvalue, hname, ht]
    rfl
  · rw [← he]
    rfl

theorem isRead_of_disjunction (h : IsRead .disjunction ts e) : IsRead .expression ts e := by
  intro depth p q hreads hdepth hop hassign
  obtain ⟨depth, rfl⟩ : ∃ n, depth = n + 1 := ⟨depth - 1, by omega⟩
  obtain ⟨e', hchain, he⟩ := IsChain.chain_eq h depth (Nat.le_refl 1) hreads (by omega)
    (by simp [hop])
  refine ⟨e', ?_, he⟩
  rw [LineParser.expression, hchain]
  simp [hassign]

theorem isRead_not (ht : t.kind = .mark .not) (h : IsRead .unary ts e) :
    IsRead .unary (t :: ts) (.not () e) := by
  intro depth p q hreads hdepth
  rw [List.length_cons] at hdepth
  obtain ⟨depth, rfl⟩ : ∃ n, depth = n + 1 := ⟨depth - 1, by omega⟩
  obtain ⟨e', hunary, he⟩ := h depth p.advance q hreads.advance (by omega)
  refine ⟨.not (q.spanFrom p.current) e', ?_, ?_⟩
  · rw [LineParser.unary]
    simp only [hreads.current_eq, ht, hunary]
  · rw [← he]
    rfl

theorem isRead_negate (ht : t.kind = .mark .minus) (h : IsRead .unary ts e) :
    IsRead .unary (t :: ts) (.binary () .sub (.integer () 0) e) := by
  intro depth p q hreads hdepth
  rw [List.length_cons] at hdepth
  obtain ⟨depth, rfl⟩ : ∃ n, depth = n + 1 := ⟨depth - 1, by omega⟩
  obtain ⟨e', hunary, he⟩ := h depth p.advance q hreads.advance (by omega)
  refine ⟨.binary (q.spanFrom p.current) .sub (.integer p.current.span 0) e', ?_, ?_⟩
  · rw [LineParser.unary]
    simp only [hreads.current_eq, ht, hunary]
  · rw [← he]
    rfl

theorem isRead_of_atom (hderives : Derives .atom ts e) (h : IsRead .atom ts e) :
    IsRead .unary ts e := by
  intro depth p q hreads hdepth
  obtain ⟨depth, rfl⟩ : ∃ n, depth = n + 1 := ⟨depth - 1, by omega⟩
  obtain ⟨t, us, rfl, hnot, hminus⟩ := hderives.head_of_atom
  rw [← hreads.current_eq] at hnot hminus
  rw [unary_of_atom hnot hminus]
  exact h depth p q hreads (by omega)

/-- A token that is an operand by itself. -/
theorem isRead_token {a : Expr Span}
    (h : ∀ depth p, p.current = t → LineParser.primary (depth + 1) p = (a, p.advance)) :
    IsRead .atom [t] (bare a) := by
  intro depth p q hreads hdepth
  obtain ⟨depth, rfl⟩ : ∃ n, depth = n + 1 := ⟨depth - 1, by omega⟩
  have hq : p.advance = q := hreads.advance.eq_of_nil
  exact ⟨a, by rw [h depth p hreads.current_eq, hq], rfl⟩

theorem isRead_group {o c : Token} (ho : o.kind = .mark .openGroup)
    (h : IsRead .expression ts e) (hc : c.kind = .mark .closeGroup) :
    IsRead .atom (o :: (ts ++ [c])) e := by
  intro depth p q hreads hdepth
  rw [List.length_cons, List.length_append, List.length_singleton] at hdepth
  obtain ⟨depth, rfl⟩ : ∃ n, depth = n + 1 := ⟨depth - 1, by omega⟩
  obtain ⟨r, hinner, hclose⟩ := hreads.advance.split
  have hcurrent := hclose.current_eq
  have hq : r.advance = q := hclose.advance.eq_of_nil
  obtain ⟨e', hexpr, he⟩ := h depth p.advance r hinner (by omega)
    (by simp [Token.operator?, hcurrent, hc, Mark.operator?])
    (by simp [Token.isMark, hcurrent, hc])
  refine ⟨e', ?_, he⟩
  rw [LineParser.primary]
  simp [hreads.current_eq, ho, hexpr, Token.isMark, hcurrent, hc, hq]

theorem isRead_template {text : Text} {continues : Bool}
    (ht : t.kind = .templateStart text continues) (h : IsRead (.rest continues) ts e) :
    IsRead .atom (t :: ts) (withSegment text e) := by
  intro depth p q hreads hdepth
  rw [List.length_cons] at hdepth
  obtain ⟨depth, rfl⟩ : ∃ n, depth = n + 1 := ⟨depth - 1, by omega⟩
  obtain ⟨parts, hsegments, htree⟩ := h depth t.span text p.advance q hreads.advance (by omega)
  refine ⟨template q.lastStop parts, ?_, htree _⟩
  rw [LineParser.primary]
  simp only [hreads.current_eq, ht, hsegments]

theorem isRead_complete : IsRead (.rest false) [] (.string () [.scalar '\r', .scalar '\n']) := by
  intro depth span text p q hreads hdepth
  obtain ⟨depth, rfl⟩ : ∃ n, depth = n + 1 := ⟨depth - 1, by omega⟩
  refine ⟨segmentParts span text, ?_, fun stop => ?_⟩
  · rw [segments, hreads.eq_of_nil]
    rfl
  · have hsegment := bare_template_segment stop span text []
    rwa [List.append_nil] at hsegment

theorem isRead_embed {text : Text} {continues : Bool} {r : Tree} (h : IsRead .expression ts e)
    (ht : t.kind = .templatePart text continues) (hr : IsRead (.rest continues) us r) :
    IsRead (.rest true) (ts ++ t :: us) (.concat () e (withSegment text r)) := by
  intro depth span text' p q hreads hdepth
  rw [List.length_append, List.length_cons] at hdepth
  obtain ⟨depth, rfl⟩ : ∃ n, depth = n + 1 := ⟨depth - 1, by omega⟩
  obtain ⟨p₁, hleft, hright⟩ := hreads.split
  have hcurrent := hright.current_eq
  obtain ⟨e', hexpr, he⟩ := h depth p p₁ hleft (by omega)
    (by simp [Token.operator?, hcurrent, ht]) (by simp [Token.isMark, hcurrent, ht])
  obtain ⟨parts, hsegments, htree⟩ := hr depth t.span text p₁.advance q hright.advance (by omega)
  refine ⟨segmentParts span text' ++ e' :: parts, ?_, fun stop => ?_⟩
  · rw [segments]
    simp [hexpr, hcurrent, ht, hsegments]
  · rw [bare_template_segment, bare_template_cons, htree, he]

/-- Tokens that derive are read, with the tree of the derivation. -/
theorem Derives.isRead {N : Symbol} (h : Derives N ts e) : IsRead N ts e := by
  induction h with
  | assign ht hs _ ih => exact isRead_assign ht hs ih
  | ofDisjunction _ ih => exact isRead_of_disjunction ih
  | or _ ht _ ihl ihr =>
    exact IsChain.apply .or rfl rfl ihl (by rw [Token.operator?, ht]; rfl) ihr
  | and _ ht _ ihl ihr =>
    exact IsChain.apply .and rfl rfl ihl (by rw [Token.operator?, ht]; rfl) ihr
  | ofConjunction _ ih => exact IsChain.loosen (k := 2) ih (by decide)
  | ofComparison _ ih => exact IsChain.loosen (k := 3) ih (by decide)
  | ofSum _ ih => exact IsChain.loosen (k := 4) ih (by decide)
  | ofProduct _ ih => exact IsChain.loosen (k := 5) ih (by decide)
  | ofUnary _ ih => exact IsChain.of_unary ih (by decide)
  | compare _ ht hm _ ihl ihr =>
    obtain ⟨op, hop, hleft, hprec, rfl⟩ := exists_operator_of_compared hm ht
    exact IsChain.apply op hleft hprec ihl hop ihr
  | add _ ht hm _ ihl ihr =>
    obtain ⟨op, hop, hleft, hprec, htree⟩ := exists_operator_of_added hm ht
    rw [htree]
    exact IsChain.apply op hleft hprec ihl hop ihr
  | multiply _ ht hm _ ihl ihr =>
    obtain ⟨op, hop, hleft, hprec, htree⟩ := exists_operator_of_multiplied hm ht
    rw [htree]
    exact IsChain.apply op hleft hprec ihl hop (IsChain.of_unary ihr (by decide))
  | not ht _ ih => exact isRead_not ht ih
  | negate ht _ ih => exact isRead_negate ht ih
  | ofAtom h ih => exact isRead_of_atom h ih
  | name ht => exact isRead_token fun _ _ hp => by rw [LineParser.primary, hp, ht]
  | integer ht => exact isRead_token fun _ _ hp => by rw [LineParser.primary, hp, ht]
  | string ht => exact isRead_token fun _ _ hp => by rw [LineParser.primary, hp, ht]
  | dot ht => exact isRead_token fun _ _ hp => by rw [LineParser.primary, hp, ht]
  | group ho _ hc ih => exact isRead_group ho ih hc
  | template ht _ ih => exact isRead_template ht ih
  | complete => exact isRead_complete
  | embed _ ht _ ihl ihr => exact isRead_embed ihl ht ihr

end WireScript.Grammar
