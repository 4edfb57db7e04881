import WireScript.Script.Parser

/-!
# The grammar of scripts

What tokens make a script, and which tree they make, without any account of how they are read.

* `Symbol` names the parts of an expression, from the loosest to the tightest, and `Derives` says
  which tokens make which of them.  Every rule gives the tree of what it derives: comparisons
  without an operator of their own are negations, a sign in front is a difference, and a template is
  a chain of concatenations that ends with the end of a line.
* `DerivesStatement` and `DerivesScript` do the same for statements and for the lines of a script.
* `Derives.exists_head` and `Derives.inside` say what tokens can stand in an expression, first
  of all and at all.
-/

namespace WireScript.Grammar

/-- An expression without positions. -/
abbrev Tree := Expr Unit

/-- The parts of an expression. -/
inductive Symbol where
  | expression
  /-- Conditions of which one has to hold. -/
  | disjunction
  /-- Conditions all of which have to hold. -/
  | conjunction
  | comparison
  | sum
  | product
  | unary
  | atom
  /-- What follows a segment of a template, which may be the end of it. -/
  | rest (continues : Bool)
  deriving DecidableEq

/-- The tree of a comparison. -/
def compared : Mark → Option (Tree → Tree → Tree)
  | .equal => some fun l r => .binary () .eq l r
  | .notEqual => some fun l r => .not () (.binary () .eq l r)
  | .less => some fun l r => .binary () .lt l r
  | .greater => some fun l r => .binary () .gt l r
  | .atMost => some fun l r => .not () (.binary () .gt l r)
  | .atLeast => some fun l r => .not () (.binary () .lt l r)
  | _ => none

/-- The operators between the terms of a sum. -/
def added : Mark → Option IntOp
  | .plus => some .add
  | .minus => some .sub
  | _ => none

/-- The operators between the factors of a product. -/
def multiplied : Mark → Option IntOp
  | .star => some .mul
  | .slash => some .div
  | .percent => some .rem
  | _ => none

/-- A segment in front of the rest of a template.  An empty segment is left out. -/
def withSegment (text : Text) (e : Tree) : Tree :=
  if text.isEmpty then e else .concat () (.string () text) e

/-- Tokens that make a part of an expression, and the tree that they make. -/
inductive Derives : Symbol → List Token → Tree → Prop where
  | assign {t s : Token} {x : Text} {ts : List Token} {e : Tree} (ht : t.kind = .name x)
      (hs : s.kind = .mark .assign) (h : Derives .expression ts e) :
      Derives .expression (t :: s :: ts) (.assign () () x e)
  | ofDisjunction {ts : List Token} {e : Tree} (h : Derives .disjunction ts e) :
      Derives .expression ts e
  | or {t : Token} {ts us : List Token} {l r : Tree} (hl : Derives .disjunction ts l)
      (ht : t.kind = .mark .or) (hr : Derives .conjunction us r) :
      Derives .disjunction (ts ++ t :: us) (.or () l r)
  | ofConjunction {ts : List Token} {e : Tree} (h : Derives .conjunction ts e) :
      Derives .disjunction ts e
  | and {t : Token} {ts us : List Token} {l r : Tree} (hl : Derives .conjunction ts l)
      (ht : t.kind = .mark .and) (hr : Derives .comparison us r) :
      Derives .conjunction (ts ++ t :: us) (.and () l r)
  | ofComparison {ts : List Token} {e : Tree} (h : Derives .comparison ts e) :
      Derives .conjunction ts e
  | compare {t : Token} {m : Mark} {f : Tree → Tree → Tree} {ts us : List Token} {l r : Tree}
      (hl : Derives .sum ts l) (ht : t.kind = .mark m) (hm : compared m = some f)
      (hr : Derives .sum us r) : Derives .comparison (ts ++ t :: us) (f l r)
  | ofSum {ts : List Token} {e : Tree} (h : Derives .sum ts e) : Derives .comparison ts e
  | add {t : Token} {m : Mark} {op : IntOp} {ts us : List Token} {l r : Tree}
      (hl : Derives .sum ts l) (ht : t.kind = .mark m) (hm : added m = some op)
      (hr : Derives .product us r) : Derives .sum (ts ++ t :: us) (.binary () op l r)
  | ofProduct {ts : List Token} {e : Tree} (h : Derives .product ts e) : Derives .sum ts e
  | multiply {t : Token} {m : Mark} {op : IntOp} {ts us : List Token} {l r : Tree}
      (hl : Derives .product ts l) (ht : t.kind = .mark m) (hm : multiplied m = some op)
      (hr : Derives .unary us r) : Derives .product (ts ++ t :: us) (.binary () op l r)
  | ofUnary {ts : List Token} {e : Tree} (h : Derives .unary ts e) : Derives .product ts e
  | not {t : Token} {ts : List Token} {e : Tree} (ht : t.kind = .mark .not)
      (h : Derives .unary ts e) : Derives .unary (t :: ts) (.not () e)
  | negate {t : Token} {ts : List Token} {e : Tree} (ht : t.kind = .mark .minus)
      (h : Derives .unary ts e) : Derives .unary (t :: ts) (.binary () .sub (.integer () 0) e)
  | ofAtom {ts : List Token} {e : Tree} (h : Derives .atom ts e) : Derives .unary ts e
  | name {t : Token} {x : Text} (ht : t.kind = .name x) : Derives .atom [t] (.name () x)
  | integer {t : Token} {n : Int} (ht : t.kind = .integer n) : Derives .atom [t] (.integer () n)
  | string {t : Token} {s : Text} (ht : t.kind = .string s) : Derives .atom [t] (.string () s)
  | dot {t : Token} (ht : t.kind = .mark .dot) : Derives .atom [t] (.dot ())
  | group {o c : Token} {ts : List Token} {e : Tree} (ho : o.kind = .mark .openGroup)
      (h : Derives .expression ts e) (hc : c.kind = .mark .closeGroup) :
      Derives .atom (o :: (ts ++ [c])) e
  | template {t : Token} {text : Text} {continues : Bool} {ts : List Token} {e : Tree}
      (ht : t.kind = .templateStart text continues) (h : Derives (.rest continues) ts e) :
      Derives .atom (t :: ts) (withSegment text e)
  | complete : Derives (.rest false) [] (.string () [.scalar '\r', .scalar '\n'])
  | embed {t : Token} {text : Text} {continues : Bool} {ts us : List Token} {e r : Tree}
      (h : Derives .expression ts e) (ht : t.kind = .templatePart text continues)
      (hr : Derives (.rest continues) us r) :
      Derives (.rest true) (ts ++ t :: us) (.concat () e (withSegment text r))

/-- The text that a statement remembers of its operand: the stretch of the source from its first
token to its last one without the white space around it, or without a source the lexemes of the
tokens with spaces between them. -/
def remembered (source : Option Text) (ts : List Token) : Text :=
  match source with
  | some source =>
    let start := (ts.head?.map (·.span.start.offset)).getD 0
    let stop := (ts.getLast?.map (·.span.stop.offset)).getD 0
    (source.slice start stop).stripped
  | none => Text.join " " (ts.map (·.lexeme))

/-- Tokens that make a statement, and the statement that they make. -/
inductive DerivesStatement (source : Option Text) : List Token → Stmt Unit → Prop where
  | send {t : Token} {ts : List Token} {e : Tree} (ht : t.kind = .mark .greater)
      (h : Derives .expression ts e) : DerivesStatement source (t :: ts) (.send () e)
  | receive {t : Token} {ts : List Token} {e : Tree} (ht : t.kind = .mark .less)
      (h : Derives .expression ts e) :
      DerivesStatement source (t :: ts) (.receive () e (remembered source ts))
  | assert {t : Token} {ts : List Token} {e : Tree} (ht : t.kind = .mark .tilde)
      (h : Derives .expression ts e) :
      DerivesStatement source (t :: ts) (.assert () e (remembered source ts))
  | expr {ts : List Token} {e : Tree} (h : Derives .expression ts e) :
      DerivesStatement source ts (.expr () e)

/-- Tokens that make a script, and its statements: between two statements the line ends, and there
may be lines without a statement anywhere. -/
inductive DerivesScript (source : Option Text) : List Token → List (Stmt Unit) → Prop where
  | empty : DerivesScript source [] []
  | blank {t : Token} {ts : List Token} {ss : List (Stmt Unit)} (ht : t.kind = .newline)
      (h : DerivesScript source ts ss) : DerivesScript source (t :: ts) ss
  | last {ts : List Token} {s : Stmt Unit} (h : DerivesStatement source ts s) :
      DerivesScript source ts [s]
  | line {t : Token} {ts us : List Token} {s : Stmt Unit} {ss : List (Stmt Unit)}
      (h : DerivesStatement source ts s) (ht : t.kind = .newline)
      (hrest : DerivesScript source us ss) : DerivesScript source (ts ++ t :: us) (s :: ss)

/-! ## The tokens of an expression -/

/-- Whether an operand can start with a token of the kind. -/
def opensOperand : TokenKind → Bool
  | .name _ | .integer _ | .string _ | .templateStart _ _ => true
  | .mark m => m == .dot || m == .openGroup || m == .not || m == .minus
  | _ => false

variable {N : Symbol} {ts : List Token} {e : Tree} {s : Stmt Unit} {source : Option Text}

/-- An expression has a first token, and an operand starts there. -/
theorem Derives.exists_head (h : Derives N ts e) (hN : ∀ continues, N ≠ .rest continues) :
    ∃ t us, ts = t :: us ∧ opensOperand t.kind = true := by
  have hfront {us vs : List Token} (h : ∃ t ws, us = t :: ws ∧ opensOperand t.kind = true) :
      ∃ t ws, us ++ vs = t :: ws ∧ opensOperand t.kind = true := by
    obtain ⟨t, ws, rfl, ht⟩ := h
    exact ⟨t, ws ++ vs, rfl, ht⟩
  induction h with
  | assign ht => exact ⟨_, _, rfl, by rw [ht]; rfl⟩
  | ofDisjunction _ ih | ofConjunction _ ih | ofComparison _ ih | ofSum _ ih | ofProduct _ ih
  | ofUnary _ ih | ofAtom _ ih => exact ih (by simp)
  | or _ _ _ ih | and _ _ _ ih => exact hfront (ih (by simp))
  | compare _ _ _ _ ih | add _ _ _ _ ih | multiply _ _ _ _ ih => exact hfront (ih (by simp))
  | not ht | negate ht => exact ⟨_, _, rfl, by rw [ht]; rfl⟩
  | name ht | integer ht | string ht | dot ht => exact ⟨_, _, rfl, by rw [ht]; rfl⟩
  | group ho => exact ⟨_, _, rfl, by rw [ho]; rfl⟩
  | template ht => exact ⟨_, _, rfl, by rw [ht]; rfl⟩
  | complete | embed => exact absurd rfl (hN _)

/-- No line and no input ends inside an expression. -/
theorem Derives.inside (h : Derives N ts e) :
    ∀ t ∈ ts, t.kind ≠ .newline ∧ t.kind ≠ .endOfInput := by
  have hjoin {t : Token} {us vs : List Token}
      (hus : ∀ s ∈ us, s.kind ≠ .newline ∧ s.kind ≠ .endOfInput)
      (hvs : ∀ s ∈ vs, s.kind ≠ .newline ∧ s.kind ≠ .endOfInput)
      (ht : t.kind ≠ .newline ∧ t.kind ≠ .endOfInput) :
      ∀ s ∈ us ++ t :: vs, s.kind ≠ .newline ∧ s.kind ≠ .endOfInput :=
    List.forall_mem_append.2 ⟨hus, List.forall_mem_cons.2 ⟨ht, hvs⟩⟩
  induction h with
  | assign ht hs _ ih => simpa [ht, hs] using ih
  | ofDisjunction _ ih | ofConjunction _ ih | ofComparison _ ih | ofSum _ ih | ofProduct _ ih
  | ofUnary _ ih | ofAtom _ ih => exact ih
  | or _ ht _ ihl ihr | and _ ht _ ihl ihr =>
    apply hjoin ihl ihr
    simp [ht]
  | compare _ ht _ _ ihl ihr | add _ ht _ _ ihl ihr | multiply _ ht _ _ ihl ihr =>
    apply hjoin ihl ihr
    simp [ht]
  | not ht _ ih | negate ht _ ih => simpa [ht] using ih
  | name ht | integer ht | string ht | dot ht => simp [ht]
  | group ho _ hc ih =>
    have hclosed := hjoin ih (List.forall_mem_nil _) (by rw [hc]; simp)
    simpa [ho] using hclosed
  | template ht _ ih => simpa [ht] using ih
  | complete => simp
  | embed _ ht _ ihl ihr =>
    apply hjoin ihl ihr
    simp [ht]

/-- A name alone is an expression of one token, if it does not stand in parentheses. -/
theorem Derives.eq_singleton_of_name {x : Text} (h : Derives N ts (.name () x))
    (hN : ∀ continues, N ≠ .rest continues) :
    (∃ t, ts = [t] ∧ t.kind = .name x) ∨ ∃ t us, ts = t :: us ∧ t.kind = .mark .openGroup := by
  generalize he : (Expr.name () x : Tree) = e at h
  induction h with
  | assign | or | and | add | multiply | not | negate | integer | string | dot => cases he
  | ofDisjunction _ ih | ofConjunction _ ih | ofComparison _ ih | ofSum _ ih | ofProduct _ ih
  | ofUnary _ ih | ofAtom _ ih => exact ih (by simp) he
  | @compare _ m f _ _ l r _ _ hm =>
    have hne : f l r ≠ .name () x := by
      cases m with
      | equal | notEqual | less | greater | atMost | atLeast =>
        cases hm
        simp
      | _ => cases hm
    exact absurd he.symm hne
  | name ht =>
    cases he
    exact Or.inl ⟨_, rfl, ht⟩
  | group ho => exact Or.inr ⟨_, _, rfl, ho⟩
  | @template _ text continues _ e _ h =>
    have hne : withSegment text e ≠ .name () x := by
      unfold withSegment
      cases h with
      | complete => split <;> simp
      | embed => split <;> simp
    exact absurd he.symm hne
  | complete | embed => exact absurd rfl (hN _)

theorem DerivesStatement.inside (h : DerivesStatement source ts s) :
    ∀ t ∈ ts, t.kind ≠ .newline ∧ t.kind ≠ .endOfInput := by
  cases h with
  | send ht h | receive ht h | assert ht h =>
    exact List.forall_mem_cons.2 ⟨by simp [ht], h.inside⟩
  | expr h => exact h.inside

/-- A statement stands on one line. -/
theorem DerivesStatement.not_newline (h : DerivesStatement source ts s) :
    ∀ t ∈ ts, t.kind ≠ .newline :=
  fun t ht => (h.inside t ht).1

theorem DerivesStatement.ne_nil (h : DerivesStatement source ts s) : ts ≠ [] := by
  cases h with
  | send | receive | assert => simp
  | expr h =>
    obtain ⟨t, us, rfl, _⟩ := h.exists_head (by simp)
    simp

/-! ## Lines without a statement -/

variable {bs : List Token} {ss : List (Stmt Unit)}

theorem DerivesScript.of_blank (hbs : ∀ t ∈ bs, t.kind = .newline)
    (h : DerivesScript source ts ss) : DerivesScript source (bs ++ ts) ss := by
  induction bs with
  | nil => exact h
  | cons t bs ih =>
    obtain ⟨ht, hbs⟩ := List.forall_mem_cons.1 hbs
    exact .blank ht (ih hbs)

/-- A statement with nothing but ends of lines behind it. -/
theorem DerivesStatement.before_blank (h : DerivesStatement source ts s)
    (hbs : ∀ t ∈ bs, t.kind = .newline) : DerivesScript source (ts ++ bs) [s] := by
  cases bs with
  | nil => exact (List.append_nil ts).symm ▸ .last h
  | cons t bs =>
    obtain ⟨ht, hbs⟩ := List.forall_mem_cons.1 hbs
    have hrest : DerivesScript source (bs ++ []) [] := .of_blank hbs .empty
    exact .line h ht (List.append_nil bs ▸ hrest)

end WireScript.Grammar
