import WireScript.Proofs.Grammar.Literals
import WireScript.Proofs.Grammar.Printing
import WireScript.Proofs.Run.Notes

/-!
# Arithmetic

What a script computes with integers is exact up to multiples of the number of words, however the
computation is written (`compile_arithmetic`).

* `Arithmetic` says which texts are sums, products and signed operands of numerals, and which
  integer each of them stands for.  It speaks of code points and not of tokens.
* `Expr.Yields` says that an expression has the value of an integer reduced to a word.
* `Computes` is what the induction over the writing proves: a text is scanned into the tokens of an
  expression that yields its integer, whatever stands behind it, and a report is made on each
  numeral that does not fit into a word.
-/

namespace WireScript

/-! ## Values -/

namespace Expr

variable {α β : Type} {a : α} {l r e : Expr α} {m n : Int}

/-- The value of the expression is an integer reduced to a word, and finding it changes nothing. -/
def Yields (e : Expr α) (m : Int) : Prop :=
  ∀ clock context memory, e.eval clock context memory = .ok (.integer (wrap m)) memory

theorem yields_integer (n : Int) : (Expr.integer a n).Yields n :=
  fun _ _ _ => rfl

theorem yields_signed {n : Nat} (hn : n < wordCount) : (Expr.integer a (signed n)).Yields n := by
  intro clock context memory
  rw [yields_integer, signed_eq_wrap hn, wrap_wrap]

/-- An operator that may be applied before or after reducing its operands. -/
theorem Yields.binary {op : IntOp} {f : Int → Int → Int} (hl : l.Yields m) (hr : r.Yields n)
    (hop : ∀ m n, op.apply? m n = some (.ofInt (f m n)))
    (hf : ∀ m n, wrap (f (wrap m) (wrap n)) = wrap (f m n)) :
    (Expr.binary a op l r).Yields (f m n) := by
  intro clock context memory
  rw [eval, bind_of_ok (hl clock context memory), bind_of_ok (hr clock context memory)]
  simp only [Value.toInt, hop, Value.ofInt, hf]
  rfl

theorem Yields.add (hl : l.Yields m) (hr : r.Yields n) : (Expr.binary a .add l r).Yields (m + n) :=
  hl.binary hr (fun _ _ => rfl) wrap_add_wrap

theorem Yields.sub (hl : l.Yields m) (hr : r.Yields n) : (Expr.binary a .sub l r).Yields (m - n) :=
  hl.binary hr (fun _ _ => rfl) wrap_sub_wrap

theorem Yields.mul (hl : l.Yields m) (hr : r.Yields n) : (Expr.binary a .mul l r).Yields (m * n) :=
  hl.binary hr (fun _ _ => rfl) wrap_mul_wrap

theorem Yields.negate (h : e.Yields m) :
    (Expr.binary a .sub (.integer a 0) e).Yields (-m) :=
  Int.zero_sub m ▸ (yields_integer 0).sub h

/-- The notes do not matter. -/
theorem Yields.of_map {f : α → β} (h : (e.map f).Yields m) : e.Yields m :=
  fun clock context memory => (eval_map clock f e context).eq_ok (h clock context memory)

end Expr

/-! ## Scanning -/

/-- A code point that is a token by itself is no white space and continues nothing. -/
theorem facts_of_singleMark {p : CodePoint} {k : TokenKind} (h : singleMark p = some k) :
    isSpacing p = false ∧ (p.isLetter || p.isDigit) = false ∧
      ∀ c, tokenKind c p = ⟨k, [], c.next⟩ := by
  unfold singleMark at h
  split at h <;> cases h <;> exact ⟨rfl, rfl, fun _ => rfl⟩

namespace Cursor.Scans

variable {p : CodePoint} {rest : Text} {k : TokenKind}

theorem of_mark (here : Location) (h : singleMark p = some k) (rest : Text) :
    ∃ t : Token, t.kind = k ∧ Scans ⟨here, p :: rest⟩ [t] [] ⟨here.next p, rest⟩ := by
  obtain ⟨hp, -, hkind⟩ := facts_of_singleMark h
  exact of_tokenKind hp (hkind _)

/-- A numeral is a token, whatever it stands for. -/
theorem of_numeral {base n : Nat} {t : Text} (here : Location) (h : Numeral base t n)
    (hrest : rest.IsApart) :
    ∃ token : Token, token.kind = .integer (Literal.ofNumeral here t n rest).value ∧
      Scans ⟨here, t ++ rest⟩ [token] (Literal.ofNumeral here t n rest).reports
        (Literal.ofNumeral here t n rest).after := by
  have hread : Literal.integer ⟨here, t ++ rest⟩ = _ := Literal.integer_of_isApart h hrest
  obtain ⟨p, u, rfl, hp⟩ := h.exists_head
  rw [List.cons_append] at hread
  have hkind := tokenKind_of_isDigit hp ⟨here, p :: (u ++ rest)⟩
  rw [hread] at hkind
  exact of_tokenKind (not_isSpacing_of CodePoint.isDigit hp (by decide)) hkind

end Cursor.Scans

/-! ## What stands behind a numeral -/

theorem isApart_cons {p : CodePoint} (hp : (p.isLetter || p.isDigit) = false) (rest : Text) :
    Text.IsApart (p :: rest) := by
  rintro q ⟨⟩
  exact hp

theorem isApart_of_singleMark {p : CodePoint} {k : TokenKind} (h : singleMark p = some k)
    (rest : Text) : Text.IsApart (p :: rest) :=
  isApart_cons (facts_of_singleMark h).2.1 rest

theorem not_letter_or_digit_of_isSpacing {p : CodePoint} (h : isSpacing p = true) :
    (p.isLetter || p.isDigit) = false := by
  rw [Bool.eq_false_iff]
  intro hp
  rw [not_isSpacing_of (fun p => p.isLetter || p.isDigit) hp (by decide)] at h
  cases h

/-- White space continues no name and no numeral. -/
theorem isApart_append {s rest : Text} (hs : ∀ p ∈ s, isSpacing p = true) (hrest : rest.IsApart) :
    Text.IsApart (s ++ rest) := by
  cases s with
  | nil => exact hrest
  | cons p s =>
    have hp := not_letter_or_digit_of_isSpacing (hs p List.mem_cons_self)
    exact isApart_cons hp (s ++ rest)

namespace Grammar

/-! ## Writing -/

/-- Arithmetic as it is written, the integer that it stands for, and the numerals in it that stand
for more than a word.  A product binds tighter than a sum, and a sign tighter than a product; both
associate to the left; and there may be white space around every part. -/
inductive Arithmetic : Symbol → Text → Int → List Text → Prop where
  | numeral {base n : Nat} {t : Text} (h : Numeral base t n) (hn : n < wordCount) :
      Arithmetic .atom t n []
  | large {base n : Nat} {t : Text} (h : Numeral base t n) (hn : wordCount ≤ n) :
      Arithmetic .atom t n [t]
  | group {t : Text} {m : Int} {large : List Text} (h : Arithmetic .sum t m large) :
      Arithmetic .atom (.scalar '(' :: (t ++ [.scalar ')'])) m large
  | ofAtom {t : Text} {m : Int} {large : List Text} (h : Arithmetic .atom t m large) :
      Arithmetic .unary t m large
  | negate {t : Text} {m : Int} {large : List Text} (h : Arithmetic .unary t m large) :
      Arithmetic .unary (.scalar '-' :: t) (-m) large
  | ofUnary {t : Text} {m : Int} {large : List Text} (h : Arithmetic .unary t m large) :
      Arithmetic .product t m large
  | times {t u : Text} {m n : Int} {larges larges' : List Text}
      (hl : Arithmetic .product t m larges) (hr : Arithmetic .unary u n larges') :
      Arithmetic .product (t ++ .scalar '*' :: u) (m * n) (larges ++ larges')
  | ofProduct {t : Text} {m : Int} {large : List Text} (h : Arithmetic .product t m large) :
      Arithmetic .sum t m large
  | plus {t u : Text} {m n : Int} {larges larges' : List Text}
      (hl : Arithmetic .sum t m larges) (hr : Arithmetic .product u n larges') :
      Arithmetic .sum (t ++ .scalar '+' :: u) (m + n) (larges ++ larges')
  | minus {t u : Text} {m n : Int} {larges larges' : List Text}
      (hl : Arithmetic .sum t m larges) (hr : Arithmetic .product u n larges') :
      Arithmetic .sum (t ++ .scalar '-' :: u) (m - n) (larges ++ larges')
  | spaced {N : Symbol} {s t u : Text} {m : Int} {large : List Text}
      (hs : ∀ p ∈ s, isSpacing p = true) (h : Arithmetic N t m large)
      (hu : ∀ p ∈ u, isSpacing p = true) : Arithmetic N (s ++ (t ++ u)) m large

/-! ## Computing -/

theorem isWritten_of_mark {t : Token} {m : Mark} (h : t.kind = .mark m) : t.kind.IsWritten := by
  rw [h]
  trivial

/-- What a text is scanned into: the tokens of an expression, and one report on each of the numerals
given, without which the expression yields the integer. -/
structure IsComputed (N : Symbol) (m : Int) (large : List Text) (ts : List Token)
    (rs : List (Report LexicalError)) (e : Tree) : Prop where
  causes : rs.map (·.cause) = large.map .invalidInteger
  written : ∀ t ∈ ts, t.kind.IsWritten
  derives : Derives N ts e
  yields : large = [] → e.Yields m

/-- Wherever the text stands, it is scanned into an expression that yields the integer, if what is
behind it does not continue it. -/
def Computes (N : Symbol) (t : Text) (m : Int) (large : List Text) : Prop :=
  ∀ (here : Location) {rest : Text}, rest.IsApart →
    ∃ ts rs e, Cursor.Scans ⟨here, t ++ rest⟩ ts rs ⟨here.past t, rest⟩ ∧
      IsComputed N m large ts rs e

namespace Computes

variable {N M : Symbol} {s t u : Text} {m n k : Int} {large more : List Text}

theorem mono (h : Computes N t m large) (hNM : ∀ {ts e}, Derives N ts e → Derives M ts e) :
    Computes M t m large := by
  intro here rest hrest
  obtain ⟨ts, rs, e, hscans, hcomputed⟩ := h here hrest
  exact ⟨ts, rs, e, hscans, { hcomputed with derives := hNM hcomputed.derives }⟩

theorem numeral {base n : Nat} (h : Numeral base t n) (hn : n < wordCount) :
    Computes .atom t n [] := by
  intro here rest hrest
  obtain ⟨token, htoken, hscans⟩ := Cursor.Scans.of_numeral here h hrest
  rw [Literal.ofNumeral, if_neg (Nat.not_le.2 hn)] at htoken hscans
  refine ⟨[token], [], .integer () (signed n), hscans, rfl, ?_, .integer htoken, fun _ => ?_⟩
  · rw [List.forall_mem_singleton, htoken]
    show IsWord (signed n)
    rw [signed_eq_wrap hn]
    exact isWord_wrap n
  · exact Expr.yields_signed hn

/-- A numeral of more than a word is reported, and stands for zero from then on. -/
theorem oversized {base n : Nat} (h : Numeral base t n) (hn : wordCount ≤ n) :
    Computes .atom t n [t] := by
  intro here rest hrest
  obtain ⟨token, htoken, hscans⟩ := Cursor.Scans.of_numeral here h hrest
  rw [Literal.ofNumeral, if_pos hn] at htoken hscans
  refine ⟨[token], _, .integer () 0, hscans, rfl, ?_, .integer htoken,
    fun hnone => absurd hnone (List.cons_ne_nil t [])⟩
  rw [List.forall_mem_singleton, htoken]
  show IsWord 0
  decide

theorem group (h : Computes .sum t m large) :
    Computes .atom (.scalar '(' :: (t ++ [.scalar ')'])) m large := by
  intro here rest hrest
  obtain ⟨o, ho, hopen⟩ :=
    Cursor.Scans.of_mark (p := .scalar '(') here rfl (t ++ .scalar ')' :: rest)
  obtain ⟨ts, rs, e, hscans, hcauses, hwritten, hderives, hyields⟩ :=
    h (here.next (.scalar '(')) (isApart_of_singleMark (p := .scalar ')') rfl rest)
  obtain ⟨c, hc, hclose⟩ :=
    Cursor.Scans.of_mark (p := .scalar ')') ((here.next (.scalar '(')).past t) rfl rest
  refine ⟨o :: (ts ++ [c]), rs, e, ?_, hcauses, ?_, .group ho ?_ hc, hyields⟩
  · simpa [Location.past_append] using hopen.trans (hscans.trans hclose)
  · have hclosed := List.forall_mem_append.2
      ⟨hwritten, List.forall_mem_singleton.2 (isWritten_of_mark hc)⟩
    exact List.forall_mem_cons.2 ⟨isWritten_of_mark ho, hclosed⟩
  · exact .ofDisjunction (.ofConjunction (.ofComparison (.ofSum hderives)))

theorem negate (h : Computes .unary t m large) :
    Computes .unary (.scalar '-' :: t) (-m) large := by
  intro here rest hrest
  obtain ⟨o, ho, hsign⟩ := Cursor.Scans.of_mark (p := .scalar '-') here rfl (t ++ rest)
  obtain ⟨ts, rs, e, hscans, hcauses, hwritten, hderives, hyields⟩ :=
    h (here.next (.scalar '-')) hrest
  refine ⟨o :: ts, rs, _, hsign.trans hscans, hcauses, ?_, .negate ho hderives, fun hnone => ?_⟩
  · exact List.forall_mem_cons.2 ⟨isWritten_of_mark ho, hwritten⟩
  · exact (hyields hnone).negate

/-- Two operands with an operator between them. -/
theorem binary {p : CodePoint} {mark : Mark} {op : IntOp} (hl : Computes N t m large)
    (hr : Computes M u n more) (hp : singleMark p = some (.mark mark))
    (hderives : ∀ {token : Token} {ts us : List Token} {l r : Tree}, Derives N ts l →
      token.kind = .mark mark → Derives M us r → Derives N (ts ++ token :: us) (.binary () op l r))
    (hyields : ∀ {l r : Tree}, l.Yields m → r.Yields n → (Expr.binary () op l r).Yields k) :
    Computes N (t ++ p :: u) k (large ++ more) := by
  intro here rest hrest
  obtain ⟨ts, rs, l, hscansl, hleft⟩ := hl here (isApart_of_singleMark hp (u ++ rest))
  obtain ⟨token, htoken, hmark⟩ := Cursor.Scans.of_mark (here.past t) hp (u ++ rest)
  obtain ⟨us, qs, r, hscansr, hright⟩ := hr ((here.past t).next p) hrest
  refine ⟨ts ++ token :: us, rs ++ qs, .binary () op l r, ?_, ?_, ?_,
    hderives hleft.derives htoken hright.derives, fun hnone => ?_⟩
  · simpa [Location.past_append] using hscansl.trans (hmark.trans hscansr)
  · rw [List.map_append, List.map_append, hleft.causes, hright.causes]
  · exact List.forall_mem_append.2
      ⟨hleft.written, List.forall_mem_cons.2 ⟨isWritten_of_mark htoken, hright.written⟩⟩
  · obtain ⟨hlarge, hmore⟩ := List.append_eq_nil_iff.1 hnone
    exact hyields (hleft.yields hlarge) (hright.yields hmore)

theorem spaced (hs : ∀ p ∈ s, isSpacing p = true) (h : Computes N t m large)
    (hu : ∀ p ∈ u, isSpacing p = true) : Computes N (s ++ (t ++ u)) m large := by
  intro here rest hrest
  obtain ⟨ts, rs, e, hscans, hcomputed⟩ := h (here.past s) (isApart_append hu hrest)
  have hfront := Cursor.Scans.of_spacing here hs (t ++ (u ++ rest))
  have hback := Cursor.Scans.of_spacing ((here.past s).past t) hu rest
  refine ⟨ts, rs, e, ?_, hcomputed⟩
  simpa [Location.past_append] using hfront.trans (hscans.trans hback)

end Computes

/-- Arithmetic yields the integer that it stands for, if its numerals fit into words. -/
theorem Arithmetic.computes {N : Symbol} {t : Text} {m : Int} {large : List Text}
    (h : Arithmetic N t m large) : Computes N t m large := by
  induction h with
  | numeral h hn => exact .numeral h hn
  | large h hn => exact .oversized h hn
  | group _ ih => exact ih.group
  | ofAtom _ ih => exact ih.mono .ofAtom
  | negate _ ih => exact ih.negate
  | ofUnary _ ih => exact ih.mono .ofUnary
  | times _ _ ihl ihr =>
    exact ihl.binary ihr rfl (fun hl ht hr => .multiply hl ht rfl hr) Expr.Yields.mul
  | ofProduct _ ih => exact ih.mono .ofProduct
  | plus _ _ ihl ihr => exact ihl.binary ihr rfl (fun hl ht hr => .add hl ht rfl hr) Expr.Yields.add
  | minus _ _ ihl ihr =>
    exact ihl.binary ihr rfl (fun hl ht hr => .add hl ht rfl hr) Expr.Yields.sub
  | spaced hs _ hu ih => exact ih.spaced hs hu

/-- White space and ends of lines. -/
def IsBlankLines (t : Text) : Prop := ∀ p ∈ t, (isSpacing p || p.is '\n') = true

instance (t : Text) : Decidable (IsBlankLines t) :=
  inferInstanceAs (Decidable (∀ p ∈ t, _ = true))

theorem scans_blankLines (here : Location) {t : Text} (ht : IsBlankLines t) (rest : Text) :
    ∃ ts : List Token, (∀ t ∈ ts, t.kind = .newline) ∧
      Cursor.Scans ⟨here, t ++ rest⟩ ts [] ⟨here.past t, rest⟩ := by
  induction t generalizing here with
  | nil => exact ⟨[], List.forall_mem_nil _, .refl _⟩
  | cons p t ih =>
    obtain ⟨hp, ht⟩ := List.forall_mem_cons.1 ht
    obtain ⟨ts, hts, hscans⟩ := ih (here.next p) ht
    rcases Bool.or_eq_true_iff.1 hp with hspacing | hline
    · have hfront : Cursor.Scans ⟨here, [p] ++ (t ++ rest)⟩ [] [] ⟨here.next p, t ++ rest⟩ :=
        .of_spacing here (List.forall_mem_singleton.2 hspacing) (t ++ rest)
      exact ⟨ts, hts, hfront.trans hscans⟩
    · obtain rfl : p = .scalar '\n' := beq_iff_eq.1 hline
      obtain ⟨token, htoken, hmark⟩ := Cursor.Scans.of_mark (p := .scalar '\n') here rfl (t ++ rest)
      exact ⟨token :: ts, List.forall_mem_cons.2 ⟨htoken, hts⟩, hmark.trans hscans⟩

theorem isApart_blankLines {t : Text} (ht : IsBlankLines t) : t.IsApart := by
  intro p hp
  have hblank := ht p (List.mem_of_mem_head? hp)
  rcases Bool.or_eq_true_iff.1 hblank with hspacing | hline
  · exact not_letter_or_digit_of_isSpacing hspacing
  · obtain rfl : p = .scalar '\n' := beq_iff_eq.1 hline
    rfl

/-! ## Compiling -/

section Compiling

variable {t before after : Text} {m : Int} {large : List Text}

/-- What a source is scanned into that holds nothing but arithmetic. -/
theorem Arithmetic.exists_scan (h : Arithmetic .sum t m large) (hbefore : IsBlankLines before)
    (hafter : IsBlankLines after) :
    ∃ ts rs stop e, (Cursor.ofText (before ++ (t ++ after))).Scans ts rs ⟨stop, []⟩ ∧
      rs.map (·.cause) = large.map .invalidInteger ∧
      (∀ t ∈ ts, t.kind.IsWritten ∨ t.kind = .newline) ∧
      (∀ source, DerivesScript source ts [.expr () e]) ∧ (large = [] → e.Yields m) := by
  obtain ⟨bs, hbs, hfront⟩ := scans_blankLines .first hbefore (t ++ after)
  obtain ⟨ts, rs, e, hscans, hcauses, hwritten, hderives, hyields⟩ :=
    h.computes (Location.first.past before) (isApart_blankLines hafter)
  obtain ⟨cs, hcs, hback⟩ := scans_blankLines ((Location.first.past before).past t) hafter []
  rw [List.append_nil] at hback
  have hscan := hfront.trans (hscans.trans hback)
  rw [List.nil_append, List.append_nil] at hscan
  refine ⟨bs ++ (ts ++ cs), rs, _, e, hscan, hcauses, ?_, fun source => ?_, hyields⟩
  · exact List.forall_mem_append.2 ⟨fun t ht => Or.inr (hbs t ht),
      List.forall_mem_append.2 ⟨fun t ht => Or.inl (hwritten t ht), fun t ht => Or.inr (hcs t ht)⟩⟩
  · have hstatement : DerivesStatement source ts (.expr () e) :=
      .expr (.ofDisjunction (.ofConjunction (.ofComparison (.ofSum hderives))))
    exact .of_blank hbs (hstatement.before_blank hcs)

/-- If its numerals fit into words, it compiles to one expression, which yields its integer. -/
theorem Arithmetic.compile (h : Arithmetic .sum t m []) (hbefore : IsBlankLines before)
    (hafter : IsBlankLines after) (file : Option Text) :
    ∃ script note e, (⟨before ++ (t ++ after), file⟩ : Source).compile = .script script ∧
      script.statements = [.expr note e] ∧ e.Yields m := by
  obtain ⟨ts, rs, stop, e, hscans, hcauses, hkinds, hderives, hyields⟩ :=
    h.exists_scan hbefore hafter
  obtain rfl := List.map_eq_nil_iff.1 hcauses
  obtain ⟨⟨note, statements⟩, hcompile, hscript⟩ := Source.compile_of_isWritten
    ⟨before ++ (t ++ after), file⟩ hscans hkinds (hderives _)
  obtain ⟨s, rfl, hs⟩ := List.map_eq_singleton_iff.1 (congrArg Script.statements hscript)
  cases s with
  | expr note e' =>
    obtain ⟨-, rfl⟩ := Stmt.expr.inj hs
    exact ⟨_, note, e', hcompile, rfl, (hyields rfl).of_map⟩
  | send | receive | assert => cases hs

end Compiling

end Grammar

end WireScript
