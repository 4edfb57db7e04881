import WireScript.Proofs.Grammar.Alike
import WireScript.Proofs.Source.Place

/-!
# Places in what is read

The notes of a script, and what is known of them because tokens that are moved are read as before.

* `Expr.notes`, and with it `Stmt.notes` and `Script.notes`, lists all notes of a tree.
* `Likeness.moved` makes every location stand for its image under a function.  Trees that are alike
  in this way are the same up to the move, and properties of the locations of tokens hold of all
  locations in them.  Without a move this is a statement about one tree.
-/

namespace WireScript

/-! ## Notes -/

section Notes

variable {α β γ : Type} {P : α → Prop}

/-- All notes in an expression. -/
def Expr.notes : Expr α → List α
  | .integer a _ | .string a _ | .name a _ | .dot a => [a]
  | .binary a _ l r | .and a l r | .or a l r | .concat a l r => a :: (l.notes ++ r.notes)
  | .not a e => a :: e.notes
  | .assign a b _ e => a :: b :: e.notes

/-- All notes in a statement. -/
def Stmt.notes (s : Stmt α) : List α := s.note :: s.operand.notes

/-- All notes in a script. -/
def Script.notes (script : Script α) : List α :=
  script.note :: script.statements.flatMap Stmt.notes

@[simp] theorem Expr.map_id (e : Expr α) : e.map id = e := by
  induction e <;> simp_all [map]

@[simp] theorem Stmt.map_id (s : Stmt α) : s.map id = s := by
  cases s <;> simp [map]

@[simp] theorem Expr.map_map (f : α → β) (g : β → γ) (e : Expr α) :
    (e.map f).map g = e.map (g ∘ f) := by
  induction e <;> simp_all [map]

@[simp] theorem Stmt.map_map (f : α → β) (g : β → γ) (s : Stmt α) :
    (s.map f).map g = s.map (g ∘ f) := by
  cases s <;> simp [map]

theorem Script.mem_notes {script : Script α} {s : Stmt α} {a : α}
    (hs : s ∈ script.statements) (ha : a ∈ s.notes) : a ∈ script.notes :=
  List.mem_cons_of_mem _ (List.mem_flatMap.2 ⟨s, hs, ha⟩)

end Notes

namespace Likeness

variable {R : Likeness} {P : Span → Prop}

/-- What holds of all stretches that stand for others holds of all notes. -/
theorem Exprs.forall_notes (hP : ∀ a b, R.Spans a b → P a) {e e' : Expr Span}
    (h : R.Exprs e e') : ∀ a ∈ e.notes, P a := by
  induction h with
  | integer h | string h | name h | dot h => exact List.forall_mem_singleton.2 (hP _ _ h)
  | binary h _ _ ihl ihr | and h _ _ ihl ihr | or h _ _ ihl ihr | concat h _ _ ihl ihr =>
    exact List.forall_mem_cons.2 ⟨hP _ _ h, List.forall_mem_append.2 ⟨ihl, ihr⟩⟩
  | not h _ ih => exact List.forall_mem_cons.2 ⟨hP _ _ h, ih⟩
  | assign h hx _ ih =>
    exact List.forall_mem_cons.2 ⟨hP _ _ h, List.forall_mem_cons.2 ⟨hP _ _ hx, ih⟩⟩

theorem Stmts.forall_notes (hP : ∀ a b, R.Spans a b → P a) {s s' : Stmt Span}
    (h : R.Stmts s s') : ∀ a ∈ s.notes, P a := by
  cases h with
  | send h he | receive h he | assert h he | expr h he =>
    exact List.forall_mem_cons.2 ⟨hP _ _ h, he.forall_notes hP⟩

end Likeness

/-! ## Moving locations -/

/-- A stretch of source with its locations moved. -/
def Span.moved (f : Location → Location) (span : Span) : Span := ⟨f span.start, f span.stop⟩

namespace Likeness

variable {f : Location → Location} {P Q : Location → Prop} {hPQ : ∀ here, P here → Q here}

/-- Every location stands for the one that it is moved to.  Stretches start where `P` holds and stop
where `Q` holds. -/
def moved (f : Location → Location) (P Q : Location → Prop) (hPQ : ∀ here, P here → Q here) :
    Likeness where
  start here there := there = f here ∧ P here
  stop here there := there = f here ∧ Q here
  text := Eq
  stop_of_start h := ⟨h.1, hPQ _ h.2⟩
  text_refl := Eq.refl

theorem Spans.eq_moved {a b : Span} (h : (moved f P Q hPQ).Spans a b) : b = a.moved f := by
  obtain ⟨⟨hstart, -⟩, hstop, -⟩ := h
  cases b
  exact congrArg₂ Span.mk hstart hstop

/-- A token stands for itself with its locations moved. -/
theorem tokens_moved {t : Token} (hstart : P t.span.start) (hstop : Q t.span.stop) :
    (moved f P Q hPQ).Tokens t { t with span := t.span.moved f } :=
  ⟨Or.inl rfl, rfl, ⟨rfl, hstart⟩, rfl, hstop⟩

theorem forall₂_moved {ts : List Token} (hstart : ∀ t ∈ ts, P t.span.start)
    (hstop : ∀ t ∈ ts, Q t.span.stop) (hlast : ∀ t ∈ ts, t.kind ≠ .newline → P t.span.stop) :
    List.Forall₂ (moved f P Q hPQ).Among ts
      (ts.map fun t => { t with span := t.span.moved f }) := by
  rw [List.forall₂_map_right_iff, List.forall₂_same]
  intro t ht
  exact ⟨tokens_moved (hstart t ht) (hstop t ht), fun hline => ⟨rfl, hlast t ht hline⟩⟩

theorem Stmts.eq_moved {s s' : Stmt Span} (h : (moved f P Q hPQ).Stmts s s') :
    s' = s.map (Span.moved f) ∧ ∀ a ∈ s.notes, P a.start ∧ Q a.stop := by
  constructor
  · have hmap := h.map_eq (f := Span.moved f) (g := id) (fun _ _ hspan => hspan.eq_moved.symm)
      fun _ _ htext => htext
    rw [hmap, Stmt.map_id]
  · exact h.forall_notes fun _ _ hspan => ⟨hspan.start.2, hspan.stop.2⟩

theorem Reports.eq_moved {r s : Report SyntaxError} (h : (moved f P Q hPQ).Reports r s) :
    s = { r with span := r.span.moved f } ∧ P r.span.start ∧ Q r.span.stop := by
  obtain ⟨hcause, hspan⟩ := h
  refine ⟨?_, hspan.start.2, hspan.stop.2⟩
  rw [← hspan.eq_moved, hcause]

/-- Elements that each stand for their image. -/
theorem eq_map_of_forall₂ {α β : Type} {r : α → β → Prop} {g : α → β} {p : α → Prop}
    (hr : ∀ x y, r x y → y = g x ∧ p x) {xs : List α} {ys : List β} (h : List.Forall₂ r xs ys) :
    ys = xs.map g ∧ ∀ x ∈ xs, p x := by
  induction h with
  | nil => exact ⟨rfl, List.forall_mem_nil _⟩
  | cons hx _ ih =>
    obtain ⟨rfl, hp⟩ := hr _ _ hx
    exact ⟨congrArg (_ :: ·) ih.1, List.forall_mem_cons.2 ⟨hp, ih.2⟩⟩

variable {source source' : Text} {ts : List Token}

/-- Lines whose tokens are moved are read as before, and what is read is moved. -/
theorem parse_moved (stop : Token) (hs : (moved f P Q hPQ).Slices source source')
    (hstop : P stop.span.start ∧ Q stop.span.stop) (hstart : ∀ t ∈ ts, P t.span.start)
    (hends : ∀ t ∈ ts, Q t.span.stop) (hlast : ∀ t ∈ ts, t.kind ≠ .newline → P t.span.stop) :
    let lines := Line.filled stop ts
    let lines' := Line.filled { stop with span := stop.span.moved f }
      (ts.map fun t => { t with span := t.span.moved f })
    let statements := lines.map fun l => (l.parse (some source)).1
    let reports := lines.flatMap fun l => (l.parse (some source)).2
    (lines'.map (fun l => (l.parse (some source')).1) = statements.map (Stmt.map (Span.moved f)) ∧
        ∀ s ∈ statements, ∀ a ∈ s.notes, P a.start ∧ Q a.stop) ∧
      lines'.flatMap (fun l => (l.parse (some source')).2) =
          reports.map (fun r => { r with span := r.span.moved f }) ∧
        ∀ r ∈ reports, P r.span.start ∧ Q r.span.stop := by
  have hmoved : (moved f P Q hPQ).Tokens stop { stop with span := stop.span.moved f } :=
    tokens_moved hstop.1 hstop.2
  have hlines := forall₂_filled hmoved (forall₂_moved hstart hends hlast)
  obtain ⟨hstatements, hreports⟩ := forall₂_statements hs
    (fun _ => Line.ne_nil_of_mem_filled) hlines
  exact ⟨eq_map_of_forall₂ (fun _ _ h => h.eq_moved) hstatements,
    eq_map_of_forall₂ (fun _ _ h => h.eq_moved) hreports⟩

end Likeness

end WireScript
