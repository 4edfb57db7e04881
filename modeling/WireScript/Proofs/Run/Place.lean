import WireScript.Proofs.Grammar.Places
import WireScript.Proofs.Run.Notes

/-!
# Where a run fails

A run that fails does so at a note of one of its statements (`Script.mem_notes_of_halt`).

A run does not look at notes, so statements whose notes all have a property run like statements over
notes that come with a proof of it.  `Stmt.exists_map_val_list` gives these, and what they fail at
has the property by its type.
-/

namespace WireScript

variable {α : Type} {P : α → Prop}

/-- A note with a property and two expressions over such notes. -/
theorem Expr.exists_map_val_sides {a : α} {l r : Expr α} (h : ∀ b ∈ a :: (l.notes ++ r.notes), P b)
    (hl : (∀ b ∈ l.notes, P b) → ∃ l' : Expr {a // P a}, l'.map Subtype.val = l)
    (hr : (∀ b ∈ r.notes, P b) → ∃ r' : Expr {a // P a}, r'.map Subtype.val = r) :
    ∃ (a' : {a // P a}) (l' r' : Expr {a // P a}),
      a'.val = a ∧ l'.map Subtype.val = l ∧ r'.map Subtype.val = r := by
  obtain ⟨ha, hsides⟩ := List.forall_mem_cons.1 h
  obtain ⟨l', hl'⟩ := hl (List.forall_mem_append.1 hsides).1
  obtain ⟨r', hr'⟩ := hr (List.forall_mem_append.1 hsides).2
  exact ⟨⟨a, ha⟩, l', r', rfl, hl', hr'⟩

/-- An expression over notes with a property. -/
theorem Expr.exists_map_val (e : Expr α) (h : ∀ a ∈ e.notes, P a) :
    ∃ e' : Expr {a // P a}, e'.map Subtype.val = e := by
  induction e with
  | integer a n => exact ⟨.integer ⟨a, h a List.mem_cons_self⟩ n, rfl⟩
  | string a t => exact ⟨.string ⟨a, h a List.mem_cons_self⟩ t, rfl⟩
  | name a x => exact ⟨.name ⟨a, h a List.mem_cons_self⟩ x, rfl⟩
  | dot a => exact ⟨.dot ⟨a, h a List.mem_cons_self⟩, rfl⟩
  | binary a op l r ihl ihr =>
    obtain ⟨a', l', r', rfl, rfl, rfl⟩ := exists_map_val_sides h ihl ihr
    exact ⟨.binary a' op l' r', rfl⟩
  | and a l r ihl ihr =>
    obtain ⟨a', l', r', rfl, rfl, rfl⟩ := exists_map_val_sides h ihl ihr
    exact ⟨.and a' l' r', rfl⟩
  | or a l r ihl ihr =>
    obtain ⟨a', l', r', rfl, rfl, rfl⟩ := exists_map_val_sides h ihl ihr
    exact ⟨.or a' l' r', rfl⟩
  | not a e ih =>
    obtain ⟨ha, hoperand⟩ := List.forall_mem_cons.1 h
    obtain ⟨e', rfl⟩ := ih hoperand
    exact ⟨.not ⟨a, ha⟩ e', rfl⟩
  | concat a l r ihl ihr =>
    obtain ⟨a', l', r', rfl, rfl, rfl⟩ := exists_map_val_sides h ihl ihr
    exact ⟨.concat a' l' r', rfl⟩
  | assign a b x e ih =>
    obtain ⟨ha, hvalue⟩ := List.forall_mem_cons.1 h
    obtain ⟨hb, hvalue⟩ := List.forall_mem_cons.1 hvalue
    obtain ⟨e', rfl⟩ := ih hvalue
    exact ⟨.assign ⟨a, ha⟩ ⟨b, hb⟩ x e', rfl⟩

theorem Stmt.exists_map_val (s : Stmt α) (h : ∀ a ∈ s.notes, P a) :
    ∃ s' : Stmt {a // P a}, s'.map Subtype.val = s := by
  obtain ⟨ha, hoperand⟩ := List.forall_mem_cons.1 h
  obtain ⟨e', he⟩ := s.operand.exists_map_val hoperand
  cases s with
  | send a e => exact ⟨.send ⟨a, ha⟩ e', congrArg (Stmt.send a) he⟩
  | receive a e t => exact ⟨.receive ⟨a, ha⟩ e' t, congrArg (Stmt.receive a · t) he⟩
  | assert a e t => exact ⟨.assert ⟨a, ha⟩ e' t, congrArg (Stmt.assert a · t) he⟩
  | expr a e => exact ⟨.expr ⟨a, ha⟩ e', congrArg (Stmt.expr a) he⟩

/-- Statements over notes with a property. -/
theorem Stmt.exists_map_val_list (ss : List (Stmt α)) (h : ∀ s ∈ ss, ∀ a ∈ s.notes, P a) :
    ∃ ss' : List (Stmt {a // P a}), ss'.map (Stmt.map Subtype.val) = ss := by
  induction ss with
  | nil => exact ⟨[], rfl⟩
  | cons s ss ih =>
    obtain ⟨hfirst, hothers⟩ := List.forall_mem_cons.1 h
    obtain ⟨s', hs⟩ := s.exists_map_val hfirst
    obtain ⟨ss', hss⟩ := ih hothers
    exact ⟨s' :: ss', congrArg₂ List.cons hs hss⟩

/-- A run that fails does so at a note of one of its statements. -/
theorem Script.mem_notes_of_halt {clock : Clock} {script : Script α} {w : World}
    {error : RuntimeError} {a : α}
    (h : (script.execute clock w).1.halt = some (.failed error a)) :
    ∃ s ∈ script.statements, a ∈ s.notes := by
  obtain ⟨ss', hss⟩ := Stmt.exists_map_val_list script.statements
    (P := fun a => ∃ s ∈ script.statements, a ∈ s.notes) fun s hs a ha => ⟨s, hs, ha⟩
  have hending : (script.execute clock w).1 =
      ⟨(script.execute clock w).1.completed, some (.failed error a)⟩ := by rw [← h]
  rw [execute, ← hss, executeFrom_map] at hending
  obtain ⟨b, rfl, -⟩ := Ending.exists_of_map_failed hending
  exact b.2

end WireScript
