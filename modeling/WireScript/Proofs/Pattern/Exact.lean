import WireScript.Proofs.Pattern.Basic
import WireScript.Proofs.Run.Context

/-!
# A match takes the whole text

A pattern with a dot either has no value for a text or has the text itself as its value, no matter
which names it reads, assigns or assigns again on the way.  The reason is that a part without dots
never lacks a value (`suffices_eval`) and a part with dots never has one without a text
(`eval_none_ne_ok`), so a concatenation always knows which of its sides take part in the match.
-/

namespace WireScript.Expr

variable {α : Type} {clock : Clock}

open Eval

/-- An expression without dots never lacks a value. -/
theorem suffices_eval {e : Expr α} (h : e.dots = 0) (context : Option Text) (m : Memory) :
    Suffices (e.eval clock context) m := by
  induction e generalizing context m with
  | integer a n => exact suffices_pure _ m
  | string a t => exact suffices_text t m
  | name a x =>
    unfold eval
    split
    · intro f m' hf
      cases hf
    · exact fun f m' => lookup_ne_noMatch a x m m' f
  | dot a => cases h
  | binary a op l r ihl ihr =>
    obtain ⟨hl, hr⟩ := Nat.add_eq_zero_iff.1 h
    refine suffices_bind (ihl hl context) (fun v => suffices_bind (ihr hr context) fun w m => ?_) m
    split
    · exact suffices_pure _ m
    · exact suffices_fail _ a m
  | and a l r ihl ihr =>
    obtain ⟨hl, hr⟩ := Nat.add_eq_zero_iff.1 h
    refine suffices_bind (ihl hl context) (fun v m => ?_) m
    split
    · exact suffices_bind (ihr hr context) (fun w => suffices_pure _) m
    · exact suffices_pure _ m
  | or a l r ihl ihr =>
    obtain ⟨hl, hr⟩ := Nat.add_eq_zero_iff.1 h
    refine suffices_bind (ihl hl context) (fun v m => ?_) m
    split
    · exact suffices_pure _ m
    · exact suffices_bind (ihr hr context) (fun w => suffices_pure _) m
  | not a e ih => exact suffices_bind (ih h context) (fun v => suffices_pure _) m
  | concat a l r ihl ihr =>
    obtain ⟨hl, hr⟩ := Nat.add_eq_zero_iff.1 h
    intro f m' hf
    obtain ⟨lo, m₁, hlo, ro, m₂, hro, hjoin⟩ := Matcher.concat_eq_noMatch_iff.1 hf
    rcases attempt_eq_ok_iff.1 hlo with ⟨vl, rfl, _⟩ | ⟨fl, rfl, hfl⟩
    · rcases attempt_eq_ok_iff.1 hro with ⟨vr, rfl, _⟩ | ⟨fr, rfl, hfr⟩
      · exact text_ne_noMatch _ _ _ _ hjoin
      · exact ihr hr none _ _ _ hfr
    · exact ihl hl none _ _ _ hfl
  | assign a b x e ih =>
    refine suffices_bind (ih h context) (fun v m => ?_) m
    intro f m' hf
    cases hf

/-- A pattern with a dot has no value without a text. -/
theorem eval_none_ne_ok {p : Expr α} (hp : p.IsPattern) (h : p.dots ≠ 0) (m m' : Memory)
    (v : Value) : p.eval clock none m ≠ .ok v m' := by
  intro hv
  induction hp generalizing m m' v with
  | integer | string | name => exact h rfl
  | dot a => cases hv
  | @concat a l r hl hr ihl ihr =>
    have hside : l.dots ≠ 0 ∨ r.dots ≠ 0 := by
      simp only [dots] at h
      omega
    obtain ⟨lo, m₁, hlo, ro, m₂, hro, hjoin⟩ := Matcher.concat_eq_ok_iff.1 hv
    rcases attempt_eq_ok_iff.1 hlo with ⟨vl, rfl, hvl⟩ | ⟨fl, rfl, _⟩
    · rcases attempt_eq_ok_iff.1 hro with ⟨vr, rfl, hvr⟩ | ⟨fr, rfl, _⟩
      · rcases hside with hl0 | hr0
        · exact ihl hl0 _ _ _ hvl
        · exact ihr hr0 _ _ _ hvr
      · cases hjoin
    · cases ro with
      | ok vr => cases hjoin
      | error fr => cases hjoin
  | assign a b x he ih =>
    obtain ⟨w, m₁, hw, _⟩ := bind_eq_ok_iff.1 hv
    exact ih h _ _ _ hw

/-- The value of a pattern with a dot is the text that it is matched against. -/
theorem eval_eq_text {p : Expr α} (hp : p.IsPattern) (h : p.dots ≠ 0) {t : Text}
    (ht : t.IsDecoded) {m m' : Memory} {v : Value} (hv : p.eval clock (some t) m = .ok v m') :
    v = .text t := by
  induction hp generalizing t m m' v with
  | integer | string | name => exact absurd rfl h
  | dot a =>
    obtain ⟨u, hu, rfl, _⟩ := text_eq_ok_iff.1 hv
    rw [ht.canonical] at hu
    cases hu
    rfl
  | @concat a l r hl hr ihl ihr =>
    -- What the two sides yield together is the text again, which is canonical as it stands.
    have hwhole {x y : Text} {m₁ : Memory} (hxy : x ++ y = t)
        (hw : (Eval.text (x ++ y) : Eval α Value) m₁ = .ok v m') : v = .text t := by
      obtain ⟨u, hu, rfl, _⟩ := text_eq_ok_iff.1 hw
      rw [hxy, ht.canonical] at hu
      cases hu
      rfl
    obtain ⟨lo, m₁, hlo, ro, m₂, hro, hjoin⟩ := Matcher.concat_eq_ok_iff.1 hv
    rcases attempt_eq_ok_iff.1 hlo with ⟨vl, rfl, hvl⟩ | ⟨fl, rfl, hfl⟩
    · have hl0 : l.dots = 0 := by
        by_contra hne
        exact eval_none_ne_ok hl hne _ _ _ hvl
      rcases attempt_eq_ok_iff.1 hro with ⟨vr, rfl, hvr⟩ | ⟨fr, rfl, hfr⟩
      · have hr0 : r.dots = 0 := by
          by_contra hne
          exact eval_none_ne_ok hr hne _ _ _ hvr
        exact absurd (Nat.add_eq_zero_iff.2 ⟨hl0, hr0⟩) h
      · have hr0 : r.dots ≠ 0 := fun h0 => suffices_eval h0 _ _ _ _ hfr
        simp only [Matcher.join, bind_of_ok (contextText_some t _)] at hjoin
        split at hjoin
        · rename_i hpre
          obtain ⟨w, m₃, hw, hjoin⟩ := bind_eq_ok_iff.1 hjoin
          rw [ihr hr0 (ht.drop _) hw] at hjoin
          exact hwhole (List.prefix_iff_eq_append.1 (List.isPrefixOf_iff_prefix.1 hpre)) hjoin
        · cases hjoin
    · have hl0 : l.dots ≠ 0 := fun h0 => suffices_eval h0 _ _ _ _ hfl
      rcases attempt_eq_ok_iff.1 hro with ⟨vr, rfl, _⟩ | ⟨fr, rfl, hfr⟩
      · simp only [Matcher.join, bind_of_ok (contextText_some t _)] at hjoin
        split at hjoin
        · rename_i hsuf
          obtain ⟨w, m₃, hw, hjoin⟩ := bind_eq_ok_iff.1 hjoin
          rw [ihl hl0 (ht.take _) hw] at hjoin
          exact hwhole (List.suffix_iff_eq_append.1 (List.isSuffixOf_iff_suffix.1 hsuf)) hjoin
        · cases hjoin
      · have hr0 : r.dots ≠ 0 := fun h0 => suffices_eval h0 _ _ _ _ hfr
        simp only [Matcher.join, bind_of_ok (contextText_some t _)] at hjoin
        obtain ⟨k, m₃, _, hjoin⟩ := bind_eq_ok_iff.1 hjoin
        obtain ⟨x, m₄, hx, hjoin⟩ := bind_eq_ok_iff.1 hjoin
        obtain ⟨y, m₅, hy, hjoin⟩ := bind_eq_ok_iff.1 hjoin
        rw [ihl hl0 (ht.take k) hx, ihr hr0 (ht.drop k) hy] at hjoin
        exact hwhole (List.take_append_drop k t) hjoin
  | assign a b x he ih =>
    obtain ⟨w, m₁, hw, hrest⟩ := bind_eq_ok_iff.1 hv
    obtain ⟨_, m₂, _, hpure⟩ := bind_eq_ok_iff.1 hrest
    cases hpure
    exact ih h ht hw

end WireScript.Expr
