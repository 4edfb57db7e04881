import WireScript.Proofs.Grammar.Printing

/-!
# Expressions as they are written

The parser makes trees that have fewer kinds of nodes than the language has kinds of expressions:
half of the comparisons, the sign in front and the template become something else.  This module has
the expressions of the language themselves, so that it can be said what becomes of them.

* `Written` is an expression with all of its operators, parentheses and templates, `Written.kinds`
  are the tokens it is written with, and `Written.Fits` says that it needs no more parentheses than
  it has.
* `Written.lower` is the tree that the parser makes of it.
* `derives_iff_written` relates the three to the grammar: tokens make a tree if and only if they
  are those of a written expression that becomes this tree.
-/

namespace WireScript.Grammar

/-! ## Syntax -/

mutual

/-- An expression as it is written. -/
inductive Written where
  | integer (n : Int)
  | string (t : Text)
  | name (x : Text)
  | dot
  | binary (op : Operator) (left right : Written)
  | not (operand : Written)
  /-- An expression with a sign in front. -/
  | negate (operand : Written)
  | assign (target : Text) (value : Written)
  /-- An expression in parentheses. -/
  | group (inner : Written)
  /-- A template from its first segment on. -/
  | template (segment : Text) (rest : TemplateRest)

/-- What follows a segment of a template. -/
inductive TemplateRest where
  | stop
  | embed (inner : Written) (segment : Text) (rest : TemplateRest)

end

/-- Whether a template goes on behind a segment. -/
def TemplateRest.continues : TemplateRest → Bool
  | .stop => false
  | .embed .. => true

mutual

/-- The tokens of an expression. -/
def Written.kinds : Written → List TokenKind
  | .integer n => [.integer n]
  | .string t => [.string t]
  | .name x => [.name x]
  | .dot => [.mark .dot]
  | .binary op l r => l.kinds ++ .mark op.mark :: r.kinds
  | .not w => .mark .not :: w.kinds
  | .negate w => .mark .minus :: w.kinds
  | .assign x w => .name x :: .mark .assign :: w.kinds
  | .group w => .mark .openGroup :: (w.kinds ++ [.mark .closeGroup])
  | .template text rest => .templateStart text rest.continues :: rest.kinds

def TemplateRest.kinds : TemplateRest → List TokenKind
  | .stop => []
  | .embed w text rest => w.kinds ++ .templatePart text rest.continues :: rest.kinds

end

mutual

/-- Whether an expression can be written where one of a level is wanted.  An operand that is too
loose for its place has to stand in parentheses. -/
def Written.Fits : Written → Nat → Prop
  | .integer _, _ | .string _, _ | .name _, _ | .dot, _ => True
  | .binary op l r, wanted =>
    wanted ≤ op.precedence ∧ l.Fits op.leftLevel ∧ r.Fits (op.precedence + 1)
  | .not w, wanted | .negate w, wanted => wanted ≤ 6 ∧ w.Fits 6
  | .assign _ w, wanted => wanted = 0 ∧ w.Fits 0
  | .group w, _ => w.Fits 0
  | .template _ rest, _ => rest.Fits

def TemplateRest.Fits : TemplateRest → Prop
  | .stop => True
  | .embed w _ rest => w.Fits 0 ∧ rest.Fits

end

mutual

/-- The tree of an expression. -/
def Written.lower : Written → Tree
  | .integer n => .integer () n
  | .string t => .string () t
  | .name x => .name () x
  | .dot => .dot ()
  | .binary op l r => op.apply () l.lower r.lower
  | .not w => .not () w.lower
  | .negate w => .binary () .sub (.integer () 0) w.lower
  | .assign x w => .assign () () x w.lower
  | .group w => w.lower
  | .template text rest => withSegment text rest.lower

def TemplateRest.lower : TemplateRest → Tree
  | .stop => .string () [.scalar '\r', .scalar '\n']
  | .embed w text rest => .concat () w.lower (withSegment text rest.lower)

end

/-! ## What is written derives -/

/-- The token of an operator is its sign. -/
theorem operator?_eq_some_iff {t : Token} {op : Operator} :
    t.operator? = some op ↔ t.kind = .mark op.mark := by
  constructor
  · intro h
    unfold Token.operator? at h
    split at h
    · next m hkind => cases m <;> cases h <;> exact hkind
    · cases h
  · intro h
    simp [Token.operator?, h]

mutual

/-- The tokens of an expression derive its tree. -/
theorem Written.derives {wanted : Nat} (hwanted : wanted ≤ 6) :
    ∀ {w : Written} {ts : List Token}, w.Fits wanted → ts.map (·.kind) = w.kinds →
      Derives (level wanted) ts w.lower
  | .integer n, ts, _, hts => derives_atom hwanted hts fun _ => .integer
  | .string t, ts, _, hts => derives_atom hwanted hts fun _ => .string
  | .name x, ts, _, hts => derives_atom hwanted hts fun _ => .name
  | .dot, ts, _, hts => derives_atom hwanted hts fun _ => .dot
  | .binary op l r, ts, hfits, hts => by
    obtain ⟨hprecedence, hl, hr⟩ := hfits
    obtain ⟨us, vs, rfl, hus, hvs⟩ := List.map_eq_append_iff.1 hts
    obtain ⟨t, vs, rfl, ht, hvs⟩ := List.map_eq_cons_iff.1 hvs
    have hlevels : op.leftLevel ≤ 6 ∧ op.precedence + 1 ≤ 6 := by cases op <;> decide
    have hleft := Written.derives hlevels.1 hl hus
    have hright := Written.derives hlevels.2 hr hvs
    exact (hleft.apply (operator?_eq_some_iff.2 ht) hright).loosen hprecedence
  | .not w, ts, hfits, hts => by
    obtain ⟨t, us, rfl, ht, hus⟩ := List.map_eq_cons_iff.1 hts
    have hunary : Derives (level 6) (t :: us) (.not () w.lower) :=
      .not ht (Written.derives (Nat.le_refl 6) hfits.2 hus)
    exact hunary.loosen hwanted
  | .negate w, ts, hfits, hts => by
    obtain ⟨t, us, rfl, ht, hus⟩ := List.map_eq_cons_iff.1 hts
    have hunary : Derives (level 6) (t :: us) (.binary () .sub (.integer () 0) w.lower) :=
      .negate ht (Written.derives (Nat.le_refl 6) hfits.2 hus)
    exact hunary.loosen hwanted
  | .assign x w, ts, hfits, hts => by
    obtain ⟨rfl, hvalue⟩ := hfits
    obtain ⟨t, us, rfl, ht, hus⟩ := List.map_eq_cons_iff.1 hts
    obtain ⟨s, vs, rfl, hs, hvs⟩ := List.map_eq_cons_iff.1 hus
    exact .assign ht hs (Written.derives hwanted hvalue hvs)
  | .group w, ts, hfits, hts => by
    obtain ⟨o, us, rfl, ho, hus⟩ := List.map_eq_cons_iff.1 hts
    obtain ⟨vs, cs, rfl, hvs, hcs⟩ := List.map_eq_append_iff.1 hus
    obtain ⟨c, rfl, hc⟩ := List.map_eq_singleton_iff.1 hcs
    have hunary : Derives (level 6) (o :: (vs ++ [c])) w.lower :=
      .ofAtom (.group ho (Written.derives (Nat.zero_le 6) hfits hvs) hc)
    exact hunary.loosen hwanted
  | .template text rest, ts, hfits, hts => by
    obtain ⟨t, us, rfl, ht, hus⟩ := List.map_eq_cons_iff.1 hts
    have hunary : Derives (level 6) (t :: us) (withSegment text rest.lower) :=
      .ofAtom (.template ht (TemplateRest.derives hfits hus))
    exact hunary.loosen hwanted

theorem TemplateRest.derives :
    ∀ {rest : TemplateRest} {ts : List Token}, rest.Fits → ts.map (·.kind) = rest.kinds →
      Derives (.rest rest.continues) ts rest.lower
  | .stop, ts, _, hts => by
    obtain rfl := List.map_eq_nil_iff.1 hts
    exact .complete
  | .embed w text rest, ts, hfits, hts => by
    obtain ⟨us, vs, rfl, hus, hvs⟩ := List.map_eq_append_iff.1 hts
    obtain ⟨t, vs, rfl, ht, hvs⟩ := List.map_eq_cons_iff.1 hvs
    exact .embed (Written.derives (Nat.zero_le 6) hfits.1 hus) ht
      (TemplateRest.derives hfits.2 hvs)

end

/-! ## What derives is written -/

variable {N : Symbol} {ts : List Token} {e : Tree} {m n : Nat}

/-- What can be written where a tight operand is wanted can be written anywhere. -/
theorem Written.Fits.loosen {w : Written} (h : w.Fits n) (hmn : m ≤ n) : w.Fits m := by
  cases w with
  | binary op l r => exact ⟨Nat.le_trans hmn h.1, h.2⟩
  | not | negate => exact ⟨Nat.le_trans hmn h.1, h.2⟩
  | assign => exact ⟨Nat.le_zero.1 (Nat.le_trans hmn (Nat.le_of_eq h.1)), h.2⟩
  | _ => exact h

/-- The tokens are those of an expression that can be written at a level, and the tree is what
becomes of it. -/
def IsWrittenAt (wanted : Nat) (ts : List Token) (e : Tree) : Prop :=
  ∃ w : Written, w.Fits wanted ∧ ts.map (·.kind) = w.kinds ∧ w.lower = e

/-- The level of a part of an expression.  An atom is tighter than every level. -/
def Symbol.wanted : Symbol → Nat
  | .expression => 0
  | .disjunction => 1
  | .conjunction => 2
  | .comparison => 3
  | .sum => 4
  | .product => 5
  | .unary => 6
  | .atom | .rest _ => 7

/-- What the induction over derivations proves. -/
def IsWrittenAs : Symbol → List Token → Tree → Prop
  | .rest continues, ts, e =>
    ∃ rest : TemplateRest, rest.Fits ∧ rest.continues = continues ∧
      ts.map (·.kind) = rest.kinds ∧ rest.lower = e
  | N, ts, e => IsWrittenAt N.wanted ts e

theorem IsWrittenAt.loosen (h : IsWrittenAt n ts e) (hmn : m ≤ n) : IsWrittenAt m ts e := by
  obtain ⟨w, hfits, hkinds, he⟩ := h
  exact ⟨w, hfits.loosen hmn, hkinds, he⟩

theorem IsWrittenAt.apply {t : Token} {us : List Token} {l r : Tree} (op : Operator)
    (hm : op.leftLevel = m) (hn : op.precedence = n) (hl : IsWrittenAt m ts l)
    (ht : t.operator? = some op) (hr : IsWrittenAt (n + 1) us r) :
    IsWrittenAt n (ts ++ t :: us) (op.apply () l r) := by
  subst hm hn
  obtain ⟨v, hv, hts, rfl⟩ := hl
  obtain ⟨w, hw, hus, rfl⟩ := hr
  refine ⟨.binary op v w, ⟨Nat.le_refl _, hv, hw⟩, ?_, rfl⟩
  rw [List.map_append, List.map_cons, hts, hus, operator?_eq_some_iff.1 ht]
  rfl

theorem isWrittenAt_token {k : TokenKind} {t : Token} (ht : t.kind = k) {w : Written}
    (hfits : w.Fits n) (hkinds : w.kinds = [k]) : IsWrittenAt n [t] w.lower :=
  ⟨w, hfits, by rw [List.map_singleton, ht, hkinds], rfl⟩

theorem Derives.isWrittenAs (h : Derives N ts e) : IsWrittenAs N ts e := by
  induction h with
  | assign ht hs _ ih =>
    obtain ⟨w, hfits, hkinds, rfl⟩ := ih
    refine ⟨.assign _ w, ⟨rfl, hfits⟩, ?_, rfl⟩
    rw [List.map_cons, List.map_cons, ht, hs, hkinds]
    rfl
  | ofDisjunction _ ih | ofConjunction _ ih | ofComparison _ ih | ofSum _ ih | ofProduct _ ih
  | ofUnary _ ih | ofAtom _ ih => exact ih.loosen (by decide)
  | or _ ht _ ihl ihr => exact IsWrittenAt.apply .or rfl rfl ihl (operator?_eq_some_iff.2 ht) ihr
  | and _ ht _ ihl ihr => exact IsWrittenAt.apply .and rfl rfl ihl (operator?_eq_some_iff.2 ht) ihr
  | compare _ ht hm _ ihl ihr =>
    obtain ⟨op, hop, hleft, hprecedence, rfl⟩ := exists_operator_of_compared hm ht
    exact IsWrittenAt.apply op hleft hprecedence ihl hop ihr
  | add _ ht hm _ ihl ihr =>
    obtain ⟨op, hop, hleft, hprecedence, htree⟩ := exists_operator_of_added hm ht
    rw [htree]
    exact IsWrittenAt.apply op hleft hprecedence ihl hop ihr
  | multiply _ ht hm _ ihl ihr =>
    obtain ⟨op, hop, hleft, hprecedence, htree⟩ := exists_operator_of_multiplied hm ht
    rw [htree]
    exact IsWrittenAt.apply op hleft hprecedence ihl hop ihr
  | not ht _ ih =>
    obtain ⟨w, hfits, hkinds, rfl⟩ := ih
    exact ⟨.not w, ⟨Nat.le_refl 6, hfits⟩, by rw [List.map_cons, ht, hkinds]; rfl, rfl⟩
  | negate ht _ ih =>
    obtain ⟨w, hfits, hkinds, rfl⟩ := ih
    exact ⟨.negate w, ⟨Nat.le_refl 6, hfits⟩, by rw [List.map_cons, ht, hkinds]; rfl, rfl⟩
  | name ht => exact isWrittenAt_token ht (w := .name _) trivial rfl
  | integer ht => exact isWrittenAt_token ht (w := .integer _) trivial rfl
  | string ht => exact isWrittenAt_token ht (w := .string _) trivial rfl
  | dot ht => exact isWrittenAt_token ht (w := .dot) trivial rfl
  | group ho _ hc ih =>
    obtain ⟨w, hfits, hkinds, rfl⟩ := ih
    refine ⟨.group w, hfits, ?_, rfl⟩
    rw [List.map_cons, List.map_append, List.map_singleton, ho, hc, hkinds]
    rfl
  | template ht _ ih =>
    obtain ⟨rest, hfits, rfl, hkinds, rfl⟩ := ih
    exact ⟨.template _ rest, hfits, by rw [List.map_cons, ht, hkinds]; rfl, rfl⟩
  | complete => exact ⟨.stop, trivial, rfl, rfl, rfl⟩
  | embed _ ht _ ihe ihr =>
    obtain ⟨w, hfits, hkinds, rfl⟩ := ihe
    obtain ⟨rest, hrest, rfl, hkinds', rfl⟩ := ihr
    refine ⟨.embed w _ rest, ⟨hfits, hrest⟩, rfl, ?_, rfl⟩
    rw [List.map_append, List.map_cons, ht, hkinds, hkinds']
    rfl

/-- Tokens make a tree if and only if they are those of an expression that becomes this tree. -/
theorem derives_iff_written :
    Derives .expression ts e ↔
      ∃ w : Written, w.Fits 0 ∧ ts.map (·.kind) = w.kinds ∧ w.lower = e := by
  constructor
  · exact fun h => h.isWrittenAs
  · rintro ⟨w, hfits, hkinds, rfl⟩
    exact Written.derives (Nat.zero_le 6) hfits hkinds

end WireScript.Grammar
