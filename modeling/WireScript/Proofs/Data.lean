import WireScript.Data

/-!
# Printed forms of data

A value has a printed form unless it holds an integer of too many digits at any depth
(`Data.render?_eq_none_iff`).  `Data.Holds` says which integers a value holds, and knows nothing
about printing.
-/

namespace WireScript.Data

variable {n : Int} {given : Data} {items : List Data} {entries : List (Data × Data)}

/-- The integers that stand somewhere in a value. -/
inductive Holds (n : Int) : Data → Prop where
  | integer : Holds n (.integer n)
  | item {item : Data} {items : List Data} (hitem : item ∈ items) (h : Holds n item) :
      Holds n (.list items)
  | key {key value : Data} {entries : List (Data × Data)} (hentry : (key, value) ∈ entries)
      (h : Holds n key) : Holds n (.mapping entries)
  | value {key value : Data} {entries : List (Data × Data)} (hentry : (key, value) ∈ entries)
      (h : Holds n value) : Holds n (.mapping entries)

/-- A value holds an integer of too many digits. -/
def IsUnprintable (given : Data) : Prop := ∃ n, given.Holds n ∧ Number.isOverlong n = true

/-- The items of a list are printed unless one of them is not. -/
theorem renderItems?_eq_none_iff :
    renderItems? items = none ↔ ∃ item ∈ items, item.render? = none := by
  induction items with
  | nil => simp [renderItems?]
  | cons item items ih =>
    rw [renderItems?]
    cases hitem : item.render? with
    | none => simp [hitem]
    | some printed =>
      cases hrest : renderItems? items with
      | none => simpa [hitem, hrest] using ih
      | some printed => simpa [hitem, hrest] using ih

/-- The entries of a mapping are printed unless a key or a value is not. -/
theorem renderEntries?_eq_none_iff : renderEntries? entries = none ↔
    ∃ entry ∈ entries, entry.1.render? = none ∨ entry.2.render? = none := by
  induction entries with
  | nil => simp [renderEntries?]
  | cons entry entries ih =>
    obtain ⟨key, value⟩ := entry
    rw [renderEntries?]
    cases hkey : key.render? with
    | none => simp [hkey]
    | some printed =>
      cases hvalue : value.render? with
      | none => simp [hvalue]
      | some printed =>
        cases hrest : renderEntries? entries with
        | none => simpa [hkey, hvalue, hrest] using ih
        | some printed => simpa [hkey, hvalue, hrest] using ih

theorem render?_list_eq_none_iff : (Data.list items).render? = none ↔
    ∃ item ∈ items, item.render? = none := by
  rw [← renderItems?_eq_none_iff, render?]
  cases renderItems? items <;> simp

theorem render?_mapping_eq_none_iff : (Data.mapping entries).render? = none ↔
    ∃ entry ∈ entries, entry.1.render? = none ∨ entry.2.render? = none := by
  rw [← renderEntries?_eq_none_iff, render?]
  cases renderEntries? entries <;> simp

/-- What is not printed holds an integer of too many digits. -/
theorem isUnprintable_of_render? (given : Data) (h : given.render? = none) :
    given.IsUnprintable := by
  match given with
  | .integer n =>
    rw [render?] at h
    split at h
    · next hlong => exact ⟨n, .integer, hlong⟩
    · cases h
  | .list items =>
    obtain ⟨item, hitem, hnone⟩ := render?_list_eq_none_iff.1 h
    obtain ⟨n, hheld, hlong⟩ := isUnprintable_of_render? item hnone
    exact ⟨n, .item hitem hheld, hlong⟩
  | .mapping entries =>
    obtain ⟨⟨key, value⟩, hentry, hnone⟩ := render?_mapping_eq_none_iff.1 h
    rcases hnone with hnone | hnone
    · obtain ⟨n, hheld, hlong⟩ := isUnprintable_of_render? key hnone
      exact ⟨n, .key hentry hheld, hlong⟩
    · obtain ⟨n, hheld, hlong⟩ := isUnprintable_of_render? value hnone
      exact ⟨n, .value hentry hheld, hlong⟩
termination_by given
decreasing_by
  · have hlt := List.sizeOf_lt_of_mem hitem
    simp only [list.sizeOf_spec]
    omega
  all_goals
    have hlt := List.sizeOf_lt_of_mem hentry
    simp only [mapping.sizeOf_spec, Prod.mk.sizeOf_spec] at hlt ⊢
    omega

/-- An integer of too many digits keeps everything around it from being printed. -/
theorem Holds.render?_eq_none (h : given.Holds n) (hlong : Number.isOverlong n = true) :
    given.render? = none := by
  induction h with
  | integer => rw [render?, if_pos hlong]
  | item hitem _ ih => exact render?_list_eq_none_iff.2 ⟨_, hitem, ih⟩
  | key hentry _ ih => exact render?_mapping_eq_none_iff.2 ⟨_, hentry, Or.inl ih⟩
  | value hentry _ ih => exact render?_mapping_eq_none_iff.2 ⟨_, hentry, Or.inr ih⟩

/-- A value has no printed form exactly if it holds an integer of too many digits. -/
theorem render?_eq_none_iff : given.render? = none ↔ given.IsUnprintable := by
  constructor
  · exact isUnprintable_of_render? given
  · rintro ⟨n, hheld, hlong⟩
    exact hheld.render?_eq_none hlong

end WireScript.Data
