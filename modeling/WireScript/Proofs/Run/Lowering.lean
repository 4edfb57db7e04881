import WireScript.Proofs.Grammar.Alike
import WireScript.Proofs.Grammar.Literals
import WireScript.Proofs.Grammar.Written
import WireScript.Proofs.Pattern.Exact
import WireScript.Proofs.Run.Notes
import WireScript.Proofs.Text.Canonical

/-!
# What an expression means as it is written

An expression is evaluated as the tree that the parser makes of it.  This module evaluates it as it
is written, with a rule for each kind of expression, and proves that the two come to the same.

* `Written.eval` has the rules.  All comparisons look at two integers, a sign in front takes the
  opposite, and a template joins the texts of its parts from left to right.
* `Written.eval_lower` is the induction.  An operator becomes at most two nodes with the same effect
  (`eval_apply`).  A template becomes a chain of concatenations, which are evaluated from the left
  to the right as long as there are no dots in them: then both sides of each have a value without a
  text (`concat_eq_append`), and what is joined in the end does not depend on where it was put into
  canonical form first (`text_bind_append`).
* `lowering_keeps_meaning` says it of what is parsed.
-/

namespace WireScript

open Grammar Eval

/-! ## The rules -/

/-- What a condition decides by its left side alone. -/
def Operator.decided? (op : Operator) (v : Value) : Option Bool :=
  match op with
  | or => if v.toBool then some true else none
  | and => if v.toBool then none else some false
  | _ => none

/-- The value of an operator on the values of its two sides; division by zero has none. -/
def Operator.value? (op : Operator) (v w : Value) : Option Value :=
  match op with
  | or | and => some (.bool w.toBool)
  | equal => some (.bool (decide (v.toInt = w.toInt)))
  | notEqual => some (.bool (decide (v.toInt ≠ w.toInt)))
  | less => some (.bool (decide (v.toInt < w.toInt)))
  | greater => some (.bool (decide (v.toInt > w.toInt)))
  | atMost => some (.bool (decide (v.toInt ≤ w.toInt)))
  | atLeast => some (.bool (decide (v.toInt ≥ w.toInt)))
  | plus => IntOp.add.apply? v.toInt w.toInt
  | minus => IntOp.sub.apply? v.toInt w.toInt
  | times => IntOp.mul.apply? v.toInt w.toInt
  | dividedBy => IntOp.div.apply? v.toInt w.toInt
  | remainder => IntOp.rem.apply? v.toInt w.toInt

namespace Grammar

mutual

/-- Evaluates an expression as it is written. -/
def Written.eval (clock : Clock) : Written → Matcher Unit
  | .integer n, _ => return .ofInt n
  | .string t, _ => Eval.text t
  | .name x, _ => if x = nowName then Eval.now clock else Eval.lookup () x
  | .dot, context =>
    match context with
    | some t => Eval.text t
    | none => Eval.noMatch .noContext
  | .binary op l r, context => do
    let v ← l.eval clock context
    match op.decided? v with
    | some b => return .bool b
    | none =>
      let w ← r.eval clock context
      match op.value? v w with
      | some u => return u
      | none => Eval.fail .divisionByZero ()
  | .not w, context => do
    return .bool !(← w.eval clock context).toBool
  | .negate w, context => do
    return .ofInt (-(← w.eval clock context).toInt)
  | .assign x w, context => do
    let v ← w.eval clock context
    Eval.assign x v
    return v
  | .group w, context => w.eval clock context
  | .template text rest, context => do
    let segment ← Eval.text text
    let others ← rest.texts clock context
    Eval.text (segment.toText ++ others)

/-- The texts of what follows a segment, joined, with the end of the line behind them. -/
def TemplateRest.texts (clock : Clock) : TemplateRest → Option Text → Eval Unit Text
  | .stop, _ => return [.scalar '\r', .scalar '\n']
  | .embed w text rest, context => do
    let v ← w.eval clock context
    let segment ← Eval.text text
    let others ← rest.texts clock context
    return v.toText ++ (segment.toText ++ others)

end

mutual

/-- How many dots are written in an expression. -/
def Written.dots : Written → Nat
  | .integer _ | .string _ | .name _ => 0
  | .dot => 1
  | .binary _ l r => l.dots + r.dots
  | .not w | .negate w | .assign _ w | .group w => w.dots
  | .template _ rest => rest.dots

def TemplateRest.dots : TemplateRest → Nat
  | .stop => 0
  | .embed w _ rest => w.dots + rest.dots

end

/-- No template contains a dot. -/
def Written.HasPlainTemplates : Written → Prop
  | .integer _ | .string _ | .name _ | .dot => True
  | .binary _ l r => l.HasPlainTemplates ∧ r.HasPlainTemplates
  | .not w | .negate w | .assign _ w | .group w => w.HasPlainTemplates
  | .template _ rest => rest.dots = 0

/-! ## Dots -/

theorem dots_apply (op : Operator) (l r : Tree) : (op.apply () l r).dots = l.dots + r.dots := by
  cases op <;> rfl

theorem dots_withSegment (text : Text) (e : Tree) : (withSegment text e).dots = e.dots := by
  unfold withSegment
  split
  · rfl
  · exact Nat.zero_add _

mutual

/-- A tree has the dots that are written in its expression. -/
theorem Written.dots_lower : ∀ w : Written, w.lower.dots = w.dots
  | .integer _ | .string _ | .name _ | .dot => rfl
  | .binary op l r => by rw [Written.lower, dots_apply, l.dots_lower, r.dots_lower, Written.dots]
  | .not w | .assign _ w | .group w => w.dots_lower
  | .negate w => (Nat.zero_add _).trans w.dots_lower
  | .template text rest => by rw [Written.lower, dots_withSegment, rest.dots_lower, Written.dots]

theorem TemplateRest.dots_lower : ∀ rest : TemplateRest, rest.lower.dots = rest.dots
  | .stop => rfl
  | .embed w text rest => by
    rw [TemplateRest.lower, Expr.dots, w.dots_lower, dots_withSegment, rest.dots_lower,
      TemplateRest.dots]

end

/-- Without dots there are none in the templates. -/
theorem Written.HasPlainTemplates.of_dots :
    ∀ {w : Written}, w.dots = 0 → w.HasPlainTemplates
  | .integer _, _ | .string _, _ | .name _, _ => trivial
  | .binary _ _ _, h =>
    ⟨.of_dots (Nat.add_eq_zero_iff.1 h).1, .of_dots (Nat.add_eq_zero_iff.1 h).2⟩
  | .not w, h | .negate w, h | .assign _ w, h | .group w, h => of_dots (w := w) h
  | .template _ _, h => h

end Grammar

/-! ## Operators -/

section Apply

variable {clock : Clock} {context : Option Text}

/-- An operator is evaluated by its rule, whichever nodes it is made of. -/
theorem eval_apply (op : Operator) (l r : Tree) :
    (op.apply () l r).eval clock context = (do
      let v ← l.eval clock context
      match op.decided? v with
      | some b => return .bool b
      | none =>
        let w ← r.eval clock context
        match op.value? v w with
        | some u => return u
        | none => Eval.fail .divisionByZero ()) := by
  cases op with
  | or | and =>
    simp only [Operator.apply, Expr.eval, Operator.decided?, Operator.value?]
    congr 1
    funext v
    cases v.toBool <;> rfl
  | equal | less | greater | plus | minus | times | dividedBy | remainder => rfl
  | notEqual =>
    have hne (m n : Int) : (!(m == n)) = decide (m ≠ n) := by
      rw [decide_not, beq_eq_decide]
    simp only [Operator.apply, Expr.eval, Operator.decided?, Operator.value?, IntOp.apply?,
      bind_assoc, pure_bind, Value.toBool, hne]
  | atMost | atLeast =>
    have hle (m n : Int) : (!decide (n < m)) = decide (m ≤ n) := by
      rw [← decide_not, decide_eq_decide]
      exact Int.not_lt
    simp only [Operator.apply, Expr.eval, Operator.decided?, Operator.value?, IntOp.apply?,
      bind_assoc, pure_bind, Value.toBool, hle, ge_iff_le]

end Apply

/-! ## Templates -/

section Concat

variable {α : Type}

/-- Two parts that have a value on their own are evaluated one after the other and joined. -/
theorem concat_eq_append {left right : Matcher α} (hl : ∀ m, Suffices (left none) m)
    (hr : ∀ m, Suffices (right none) m) (context : Option Text) :
    Matcher.concat left right context = (do
      let l ← left none
      let r ← right none
      Eval.text (l.toText ++ r.toText)) := by
  funext m
  rw [Matcher.concat_eq_join]
  cases hleft : left none m with
  | error e m₁ =>
    cases e with
    | noMatch f => exact absurd hleft (hl m f m₁)
    | halt e =>
      have hattempt : (left none).attempt m = .error (.halt e) m₁ := by simp only [attempt, hleft]
      rw [bind_of_error hattempt, bind_of_error hleft]
  | ok l m₁ =>
    rw [bind_of_ok (attempt_of_ok hleft), bind_of_ok hleft]
    cases hright : right none m₁ with
    | error e m₂ =>
      cases e with
      | noMatch f => exact absurd hright (hr m₁ f m₂)
      | halt e =>
        have hattempt : (right none).attempt m₁ = .error (.halt e) m₂ := by
          simp only [attempt, hright]
        rw [bind_of_error hattempt, bind_of_error hright]
    | ok r m₂ =>
      rw [bind_of_ok (attempt_of_ok hright), bind_of_ok hright]
      rfl

/-- A text that is joined with another one need not be put into canonical form before. -/
theorem text_bind_append (s t : Text) :
    (do
      let v ← (Eval.text t : Eval α Value)
      Eval.text (s ++ v.toText)) = (Eval.text (s ++ t) : Eval α Value) := by
  funext m
  cases ht : t.canonical with
  | some u =>
    have hsame : (s ++ u).canonical = (s ++ t).canonical := by
      apply Text.canonical_eq_iff.2
      rw [Utf8.encode_append, Utf8.encode_append, Text.encode_of_canonical ht]
    rw [bind_of_ok (text_of_canonical ht m), Value.toText, Eval.text, Eval.text, Value.ofText?,
      Value.ofText?, hsame]
  | none =>
    have hnone : (s ++ t).canonical = none := by
      rw [Text.canonical, Option.map_eq_none_iff] at ht ⊢
      rw [Utf8.encode_append, ht]
      cases Utf8.encode s <;> rfl
    rw [bind_of_error (text_of_not_canonical ht m), text_of_not_canonical hnone]

end Concat

section Lower

variable {clock : Clock} {e : Tree} {x : Eval Unit Text}

/-- Without dots a tree is evaluated in the same way whatever it is matched against. -/
theorem eval_of_dots_eq_zero (h : e.dots = 0) (context : Option Text) :
    e.eval clock context = e.eval clock none :=
  funext fun m => Expr.eval_ignores_context (Expr.suffices_eval h none m) context

/-- A segment in front of a tree stands in front of its text. -/
theorem eval_withSegment (text : Text) (hdots : e.dots = 0) {context : Option Text}
    (he : e.eval clock context = x >>= fun t => Eval.text t) :
    (withSegment text e).eval clock context = (do
      let segment ← Eval.text text
      let t ← x
      Eval.text (segment.toText ++ t)) := by
  unfold withSegment
  split
  · next hempty =>
    obtain rfl := List.isEmpty_iff.1 hempty
    have hcanonical : Text.canonical [] = some [] := by
      rw [Text.canonical]
      exact congrArg some Utf8.decode_nil
    have hnothing : (Eval.text [] : Eval Unit Value) = pure (.text []) :=
      funext (text_of_canonical hcanonical)
    rw [he, hnothing, pure_bind]
    rfl
  · rw [Expr.eval, concat_eq_append (suffices_text text) (Expr.suffices_eval hdots none),
      ← eval_of_dots_eq_zero hdots context, he, Expr.eval]
    simp only [bind_assoc, text_bind_append]

mutual

/-- The tree of an expression is evaluated by the rules for the expression. -/
theorem Grammar.Written.eval_lower :
    ∀ w : Written, w.HasPlainTemplates → ∀ context,
      w.lower.eval clock context = w.eval clock context
  | .integer _, _, _ | .string _, _, _ | .name _, _, _ | .dot, _, _ => rfl
  | .binary op l r, h, context => by
    rw [Written.lower, eval_apply, l.eval_lower h.1, r.eval_lower h.2, Written.eval]
  | .not w, h, context => by
    rw [Written.lower, Expr.eval, w.eval_lower h, Written.eval]
  | .negate w, h, context => by
    rw [Written.lower, Expr.eval, w.eval_lower h, Written.eval, Expr.eval, pure_bind]
    congr 1
    funext v
    rw [← Int.zero_sub]
    rfl
  | .assign x w, h, context => by
    rw [Written.lower, Expr.eval, w.eval_lower h, Written.eval]
  | .group w, h, context => by
    rw [Written.lower, w.eval_lower h, Written.eval]
  | .template text rest, h, context => by
    have hdots : rest.lower.dots = 0 := rest.dots_lower.trans h
    rw [Written.lower, eval_withSegment text hdots (rest.eval_lower h context), Written.eval]

theorem Grammar.TemplateRest.eval_lower :
    ∀ rest : TemplateRest, rest.dots = 0 → ∀ context,
      rest.lower.eval clock context = rest.texts clock context >>= fun t => Eval.text t
  | .stop, _, _ => rfl
  | .embed w text rest, h, context => by
    obtain ⟨hw, hrest⟩ := Nat.add_eq_zero_iff.1 h
    have hdots : w.lower.dots = 0 := w.dots_lower.trans hw
    have hdots' : rest.lower.dots = 0 := rest.dots_lower.trans hrest
    have hbehind : (withSegment text rest.lower).dots = 0 := (dots_withSegment _ _).trans hdots'
    rw [TemplateRest.lower, Expr.eval, TemplateRest.texts,
      concat_eq_append (Expr.suffices_eval hdots none) (Expr.suffices_eval hbehind none),
      ← eval_of_dots_eq_zero hdots context, ← eval_of_dots_eq_zero hbehind context,
      w.eval_lower (.of_dots hw), eval_withSegment text hdots' (rest.eval_lower hrest context)]
    simp only [bind_assoc, pure_bind, text_bind_append]

end

end Lower

/-! ## What is parsed -/

namespace Grammar

variable {source : Option Text} {ts : List Token} {e : Tree} {s : Stmt Unit}
  {ss : List (Stmt Unit)}

/-- The tokens that can stand in front of the expression of a statement. -/
def statementSigns : List (List TokenKind) :=
  [[], [.mark .greater], [.mark .less], [.mark .tilde]]

/-- An expression is a statement alone and behind the sign of each other statement. -/
theorem Derives.exists_statement {sign ks : List TokenKind} (source : Option Text)
    (hsign : sign ∈ statementSigns) (hts : ts.map (·.kind) = sign ++ ks)
    (h : ∀ us : List Token, us.map (·.kind) = ks → Derives .expression us e) :
    ∃ s, DerivesStatement source ts s ∧ s.operand = e := by
  obtain ⟨front, us, rfl, hfront, hus⟩ := List.map_eq_append_iff.1 hts
  simp only [statementSigns, List.mem_cons, List.not_mem_nil, or_false] at hsign
  rcases hsign with rfl | rfl | rfl | rfl
  · obtain rfl := List.map_eq_nil_iff.1 hfront
    exact ⟨_, .expr (h us hus), rfl⟩
  · obtain ⟨t, rfl, ht⟩ := List.map_eq_singleton_iff.1 hfront
    exact ⟨_, .send ht (h us hus), rfl⟩
  · obtain ⟨t, rfl, ht⟩ := List.map_eq_singleton_iff.1 hfront
    exact ⟨_, .receive ht (h us hus), rfl⟩
  · obtain ⟨t, rfl, ht⟩ := List.map_eq_singleton_iff.1 hfront
    exact ⟨_, .assert ht (h us hus), rfl⟩

/-- The expression of a statement stands among the tokens of the statement. -/
theorem DerivesStatement.exists_operand (h : DerivesStatement source ts s) :
    ∃ us, us <:+ ts ∧ Derives .expression us s.operand := by
  cases h with
  | send _ h | receive _ h | assert _ h => exact ⟨_, List.suffix_cons _ _, h⟩
  | expr h => exact ⟨_, List.suffix_refl _, h⟩

theorem DerivesScript.exists_operand (h : DerivesScript source ts ss) :
    ∀ s ∈ ss, ∃ us, us <:+: ts ∧ Derives .expression us s.operand := by
  induction h with
  | empty => exact List.forall_mem_nil _
  | @blank t ts ss ht h ih =>
    intro s hs
    obtain ⟨us, hus, hderives⟩ := ih s hs
    exact ⟨us, hus.trans (List.suffix_cons t ts).isInfix, hderives⟩
  | last h =>
    refine List.forall_mem_singleton.2 ?_
    obtain ⟨us, hus, hderives⟩ := h.exists_operand
    exact ⟨us, hus.isInfix, hderives⟩
  | @line t ts us s ss h ht hrest ih =>
    refine List.forall_mem_cons.2 ⟨?_, fun s hs => ?_⟩
    · obtain ⟨vs, hvs, hderives⟩ := h.exists_operand
      exact ⟨vs, hvs.isInfix.trans (List.prefix_append ts (t :: us)).isInfix, hderives⟩
    · obtain ⟨vs, hvs, hderives⟩ := ih s hs
      have hbehind : us <:+ ts ++ t :: us :=
        (List.suffix_cons t us).trans (List.suffix_append ts (t :: us))
      exact ⟨vs, hvs.trans hbehind.isInfix, hderives⟩

/-- Evaluating a tree comes to what the rules say for an expression: the same value, or the same
reason why there is none, and the same memory. -/
def Means (e : Expr Span) (w : Written) : Prop :=
  ∀ clock context, MapsErrors (Stop.map fun _ => ()) (e.eval clock context) (w.eval clock context)

theorem means_of_lower {e : Expr Span} {w : Written} (he : e.map (fun _ => ()) = w.lower)
    (hw : w.HasPlainTemplates) : Means e w := by
  intro clock context
  have hmap := e.eval_map clock (fun _ => ()) context
  rwa [he, w.eval_lower hw] at hmap

end Grammar

/-- The parser keeps the meaning of expressions.  Where the tokens of an expression without dots in
its templates are parsed, alone or behind the sign of a statement, there is one statement, and its
tree comes to what the rules for the expression say, whatever the names are bound to, the clock
shows and the text to match is.  And every tree that is parsed without a report is the tree of an
expression whose tokens are among those that were parsed. -/
theorem lowering_keeps_meaning :
    (∀ w : Written, w.Fits 0 → w.HasPlainTemplates →
      ∀ sign ∈ statementSigns, ∀ ts : List Token, ts.map (·.kind) = sign ++ w.kinds →
        ∀ source here, ∃ s, (parse source (ts ++ [.atEnd here])).script.statements = [s] ∧
          (parse source (ts ++ [.atEnd here])).reports = [] ∧ Means s.operand w) ∧
      ∀ source tokens, (parse source tokens).reports = [] →
        ∀ s ∈ (parse source tokens).script.statements, ∃ w : Written, w.Fits 0 ∧
          w.kinds <:+: tokens.map (·.kind) ∧ (w.HasPlainTemplates → Means s.operand w) := by
  constructor
  · intro w hfits hplain sign hsign ts hts source here
    obtain ⟨s', hs', hoperand⟩ := Derives.exists_statement source hsign hts
      fun us hus => derives_iff_written.2 ⟨w, hfits, hus, rfl⟩
    have hbody := takeWhile_atEnd
      (fun t ht => Token.isEnd_eq_false_iff.2 (hs'.inside t ht).2) here
    have hscript : DerivesScript source
        ((ts ++ [Token.atEnd here]).takeWhile fun t => !t.isEnd) [s'] := hbody.symm ▸ .last hs'
    obtain ⟨hreports, hstatements⟩ := derivesScript_iff_parse.1 hscript
    obtain ⟨s, hs, rfl⟩ := List.map_eq_singleton_iff.1 hstatements
    rw [Stmt.operand_map] at hoperand
    exact ⟨s, hs, hreports, means_of_lower hoperand hplain⟩
  · intro source tokens hreports s hs
    have hscript := derivesScript_iff_parse.2 ⟨hreports, rfl⟩
    obtain ⟨us, hus, hderives⟩ := hscript.exists_operand _ (List.mem_map_of_mem hs)
    obtain ⟨w, hfits, hkinds, hlower⟩ := derives_iff_written.1 hderives
    rw [Stmt.operand_map] at hlower
    refine ⟨w, hfits, ?_, means_of_lower hlower.symm⟩
    rw [← hkinds]
    exact (hus.trans (List.takeWhile_prefix _).isInfix).map _

/-- A comparison that is the negation of another one, of an operand with a sign in front. -/
theorem lowering_keeps_meaning_at_most :
    let w : Written := .template "a" (.embed (.binary .atMost (.negate (.name "x")) (.integer 3))
      "b" .stop)
    let ts := w.kinds.map unplaced
    w.Fits 0 ∧ w.HasPlainTemplates ∧
      ∃ s, (parse none (ts ++ [.atEnd .first])).script.statements = [s] ∧
        (parse none (ts ++ [.atEnd .first])).reports = [] ∧ Means s.operand w := by
  intro w ts
  have hfits : w.Fits 0 := ⟨⟨by decide, ⟨by decide, trivial⟩, trivial⟩, trivial⟩
  have hplain : w.HasPlainTemplates := rfl
  have hts : ts.map (·.kind) = [] ++ w.kinds := by
    rw [List.map_map]
    exact List.map_id _
  exact ⟨hfits, hplain,
    lowering_keeps_meaning.1 w hfits hplain [] (by decide) ts hts none .first⟩

end WireScript
