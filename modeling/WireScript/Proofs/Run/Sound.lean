import WireScript.Proofs.Run.Frame
import WireScript.Proofs.Value

/-!
# Well-formed values in evaluation

Evaluation that starts with well-formed values goes on with well-formed values: every name stays
bound to one, whatever the outcome is, and a result is one (`Expr.sound_eval`).  Texts come up in an
evaluation from three sides, the literals of the expression, the text it is matched against and the
values of its names.  Where all of them can be sent, everything made of them can be sent, so that
the run does not end for want of a form on the wire.

`Invariant.wellFormed` says both at once, because the second needs the first: what is joined to a
literal is the text of a well-formed value.
-/

namespace WireScript

/-- Every name is bound to a well-formed value. -/
def Bindings.WellFormed (b : Bindings) : Prop :=
  ∀ entry ∈ b, entry.2.WellFormed

instance (b : Bindings) : Decidable b.WellFormed :=
  inferInstanceAs (Decidable (∀ entry ∈ b, entry.2.WellFormed))

namespace Bindings

variable {b : Bindings} {x : Text} {v : Value}

theorem WellFormed.get? (h : b.WellFormed) (hv : b.get? x = some v) : v.WellFormed :=
  h (x, v) (mem_of_get? hv)

theorem WellFormed.set (h : b.WellFormed) (hv : v.WellFormed) : (b.set x v).WellFormed := by
  induction b with
  | nil => exact List.forall_mem_singleton.2 hv
  | cons entry rest ih =>
    obtain ⟨y, u⟩ := entry
    obtain ⟨hu, hrest⟩ := List.forall_mem_cons.1 h
    unfold Bindings.set
    split
    · exact List.forall_mem_cons.2 ⟨hv, hrest⟩
    · exact List.forall_mem_cons.2 ⟨hu, ih hrest⟩

end Bindings

namespace Eval

variable {α : Type} {sendable : Prop}

/-- Values are well-formed.  If every text that comes up can be sent, the run does not end for one
that cannot. -/
def Invariant.wellFormed (sendable : Prop) : Invariant α where
  memory m := m.bindings.WellFormed
  value := Value.WellFormed
  text t := sendable → t.isEncodable
  stop e := sendable → e ≠ .halt .unencodable

theorem isEncodable_take_drop {t : Text} (ht : t.isEncodable) (k : Nat) :
    Text.isEncodable (t.take k) ∧ Text.isEncodable (t.drop k) := by
  rw [← List.take_append_drop k t, Text.isEncodable_append, Bool.and_eq_true] at ht
  exact ht

theorem holds_wellFormed_text {t : Text} (ht : sendable → t.isEncodable) :
    (Invariant.wellFormed sendable : Invariant α).Holds Value.WellFormed (Eval.text t) := by
  unfold Eval.text
  split
  · next v hv => exact Invariant.holds_pure (Value.wellFormed_of_ofText? hv)
  · next hnone =>
    refine Invariant.holds_throw fun hsendable => ?_
    obtain ⟨u, hu⟩ := Text.isEncodable_iff.1 (ht hsendable)
    have hsome : Value.ofText? t = some (.text u) := congrArg (Option.map Value.text) hu
    rw [hnone] at hsome
    cases hsome

theorem holds_wellFormed_lookup (note : α) (x : Text) :
    (Invariant.wellFormed sendable).Holds Value.WellFormed (lookup note x) := by
  intro m hm
  cases hv : m.bindings.get? x with
  | some v =>
    rw [lookup_of_get? hv]
    exact ⟨hm, hm.get? hv⟩
  | none =>
    rw [lookup_of_get?_none hv]
    exact ⟨hm, fun _ h => by cases h⟩

theorem lawful_wellFormed : (Invariant.wellFormed sendable : Invariant α).Lawful where
  noMatch _ _ h := by cases h
  divisionByZero _ _ h := by cases h
  ofInt := Value.wellFormed_ofInt
  bool _ := trivial
  join hv hw _ := by rw [Text.isEncodable_append, hv.isEncodable, hw.isEncodable]; rfl
  cut k ht := ⟨fun h => (isEncodable_take_drop (ht h) k).1,
    fun h => (isEncodable_take_drop (ht h) k).2⟩
  ofText := holds_wellFormed_text
  lookup := holds_wellFormed_lookup
  now _ _ hm := ⟨hm, Value.wellFormed_ofInt _⟩
  record _ _ hm := ⟨hm, trivial⟩

end Eval

/-- Evaluation goes on with well-formed values, and does not end the run for a text without a form
on the wire where the literals and the text to match can be sent. -/
theorem Expr.sound_eval {α : Type} (clock : Clock) {sendable : Prop} (e : Expr α)
    (hliterals : sendable → ∀ t ∈ e.literals, t.isEncodable) {context : Option Text}
    (hcontext : sendable → ∀ t ∈ context, t.isEncodable) :
    (Eval.Invariant.wellFormed sendable).Holds Value.WellFormed (e.eval clock context) :=
  e.holds_eval clock Eval.lawful_wellFormed (fun t ht hsendable => hliterals hsendable t ht)
    (fun _ _ _ hv _ hm => ⟨hm.set hv, trivial⟩) fun t ht hsendable => hcontext hsendable t ht

end WireScript
