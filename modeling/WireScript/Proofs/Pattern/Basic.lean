import Mathlib.Data.List.Nodup
import WireScript.Proofs.Text.Decoding
import WireScript.Run.Eval

/-!
# Patterns and their readings

A pattern is an expression that is matched against a received text: literals, names and dots,
joined by concatenations and captured by assignments.  This module says what a pattern means
without saying how it is matched.

* `IsPattern` is the syntax, and `dots`, `literals` and `reads` are what occurs in a pattern, from
  left to right.  `targets` are the names it assigns to.
* `value?` is the value of a pattern when each of its dots stands for a given text, and `captures`
  are the bindings that it makes then.
* `IsReading` relates a text to the choices of one text for each dot under which the pattern spells
  it.  A pattern may have one reading of a text, none, or several.
* `Legible` collects what a pattern and the bindings must satisfy for a match to be decided by the
  readings: nothing assigned is read, and every part that has a value without a text has one that
  can be sent.
-/

namespace WireScript

namespace Expr

variable {α : Type}

/-! ## Syntax -/

/-- The expressions that are matched against a text. -/
inductive IsPattern : Expr α → Prop where
  | integer (a : α) (n : Int) : IsPattern (.integer a n)
  | string (a : α) (t : Text) : IsPattern (.string a t)
  | name (a : α) (x : Text) : IsPattern (.name a x)
  | dot (a : α) : IsPattern (.dot a)
  | concat (a : α) {l r : Expr α} (hl : IsPattern l) (hr : IsPattern r) :
      IsPattern (.concat a l r)
  | assign (a b : α) (x : Text) {e : Expr α} (he : IsPattern e) : IsPattern (.assign a b x e)

/-- How many dots an expression has. -/
def dots : Expr α → Nat
  | integer .. | string .. | name .. => 0
  | dot _ => 1
  | binary _ _ l r | and _ l r | or _ l r | concat _ l r => l.dots + r.dots
  | not _ e | assign _ _ _ e => e.dots

/-- The texts of the string literals of an expression. -/
def literals : Expr α → List Text
  | integer .. | name .. | dot _ => []
  | string _ t => [t]
  | binary _ _ l r | and _ l r | or _ l r | concat _ l r => l.literals ++ r.literals
  | not _ e | assign _ _ _ e => e.literals

/-- The names that an expression refers to. -/
def reads : Expr α → List Text
  | integer .. | string .. | dot _ => []
  | name _ x => [x]
  | binary _ _ l r | and _ l r | or _ l r | concat _ l r => l.reads ++ r.reads
  | not _ e | assign _ _ _ e => e.reads

/-! ## Meaning -/

/-- The value of a pattern in given bindings when its dots stand for the given texts, in order.  A
concatenation without dots is a value on its own, with a text in canonical form; where dots take
part, the texts stand one after the other as they are. -/
def value? (b : Bindings) : Expr α → List Text → Option Value
  | integer _ n, _ => some (.ofInt n)
  | string _ t, _ => Value.ofText? t
  | name _ x, _ => b.get? x
  | dot _, ts => ts.head?.map .text
  | concat _ l r, ts => do
    let v ← l.value? b (ts.take l.dots)
    let w ← r.value? b (ts.drop l.dots)
    let t := v.toText ++ w.toText
    if l.dots + r.dots = 0 then Value.ofText? t else some (.text t)
  | assign _ _ _ e, ts => e.value? b ts
  | _, _ => none

/-- The names that a pattern binds when its dots stand for the given texts, in order, each with the
value of the part it is assigned. -/
def captures (b : Bindings) : Expr α → List Text → Bindings
  | concat _ l r, ts => l.captures b (ts.take l.dots) ++ r.captures b (ts.drop l.dots)
  | assign _ _ x e, ts => ((e.value? b ts).map (x, ·)).toList ++ e.captures b ts
  | _, _ => []

/-- A choice of one text for each dot under which a pattern spells a text. -/
def IsReading (b : Bindings) (p : Expr α) (t : Text) (ts : List Text) : Prop :=
  ts.length = p.dots ∧ ∃ v, p.value? b ts = some v ∧ v.toText = t

variable {b : Bindings} {t : Text} {ts : List Text}

theorem IsReading.length_eq {p : Expr α} (h : p.IsReading b t ts) : ts.length = p.dots :=
  h.1

/-- A pattern spells one text only when the texts of its dots are given. -/
theorem IsReading.unique {p : Expr α} {u : Text} (h : p.IsReading b t ts)
    (h' : p.IsReading b u ts) : t = u := by
  obtain ⟨_, v, hv, rfl⟩ := h
  obtain ⟨_, w, hw, rfl⟩ := h'
  rw [hv] at hw
  cases hw
  rfl

theorem isReading_dot {a : α} : IsReading b (.dot a) t ts ↔ ts = [t] := by
  constructor
  · rintro ⟨hlen, v, hv, rfl⟩
    obtain ⟨u, rfl⟩ := List.length_eq_one_iff.1 hlen
    cases hv
    rfl
  · rintro rfl
    exact ⟨rfl, .text t, rfl, rfl⟩

theorem isReading_assign {a a' : α} {x : Text} {e : Expr α} :
    IsReading b (.assign a a' x e) t ts ↔ e.IsReading b t ts :=
  Iff.rfl

/-- A part without dots has one reading, of the text of its value. -/
theorem isReading_of_dots_eq_zero {p : Expr α} (h : p.dots = 0) :
    p.IsReading b t ts ↔ ts = [] ∧ ∃ v, p.value? b [] = some v ∧ v.toText = t := by
  rw [IsReading, h, List.length_eq_zero_iff]
  constructor
  · rintro ⟨rfl, hv⟩
    exact ⟨rfl, hv⟩
  · rintro ⟨rfl, hv⟩
    exact ⟨rfl, hv⟩

/-- A reading of a concatenation is a reading of each of its sides. -/
theorem IsReading.sides {a : α} {l r : Expr α} (h : IsReading b (.concat a l r) t ts) :
    ∃ v w, l.value? b (ts.take l.dots) = some v ∧ r.value? b (ts.drop l.dots) = some w ∧
      l.IsReading b v.toText (ts.take l.dots) ∧ r.IsReading b w.toText (ts.drop l.dots) := by
  obtain ⟨hlen, u, hu, _⟩ := h
  simp only [dots] at hlen
  simp only [value?, Option.bind_eq_bind, Option.bind_eq_some_iff] at hu
  obtain ⟨v, hv, w, hw, _⟩ := hu
  refine ⟨v, w, hv, hw, ⟨?_, v, hv, rfl⟩, ⟨?_, w, hw, rfl⟩⟩
  · rw [List.length_take]
    omega
  · rw [List.length_drop]
    omega

/-- The readings of a concatenation with a dot are the readings of its sides, of the two parts of
the text cut in two. -/
theorem isReading_concat {a : α} {l r : Expr α} (h : l.dots + r.dots ≠ 0) :
    IsReading b (.concat a l r) t ts ↔
      ∃ t₁ t₂ ts₁ ts₂, t = t₁ ++ t₂ ∧ ts = ts₁ ++ ts₂ ∧
        l.IsReading b t₁ ts₁ ∧ r.IsReading b t₂ ts₂ := by
  constructor
  · intro hread
    obtain ⟨v, w, hv, hw, hl, hr⟩ := hread.sides
    obtain ⟨_, u, hu, rfl⟩ := hread
    simp only [value?, hv, hw, Option.bind_eq_bind, Option.bind_some, if_neg h] at hu
    cases hu
    exact ⟨_, _, _, _, rfl, (List.take_append_drop _ _).symm, hl, hr⟩
  · rintro ⟨_, _, ts₁, ts₂, rfl, rfl, ⟨hlen₁, v, hv, rfl⟩, ⟨hlen₂, w, hw, rfl⟩⟩
    refine ⟨?_, .text (v.toText ++ w.toText), ?_, rfl⟩
    · rw [List.length_append, hlen₁, hlen₂]
      rfl
    · simp only [value?, ← hlen₁, List.take_left, List.drop_left, hv, hw, Option.bind_eq_bind,
        Option.bind_some]
      rw [hlen₁, if_neg h]

/-- A reading of a pattern with a dot gives it the text itself as its value. -/
theorem IsReading.value?_eq {p : Expr α} (hp : p.IsPattern) (hdots : p.dots ≠ 0)
    (h : p.IsReading b t ts) : p.value? b ts = some (.text t) := by
  induction hp generalizing t ts with
  | integer | string | name => exact absurd rfl hdots
  | dot =>
    rw [isReading_dot.1 h]
    rfl
  | @concat a l r _ _ _ _ =>
    obtain ⟨v, w, hv, hw, _, _⟩ := h.sides
    obtain ⟨_, u, hu, rfl⟩ := h
    have hvalue : value? b (.concat a l r) ts = some (.text (v.toText ++ w.toText)) := by
      simp only [value?, hv, hw, Option.bind_eq_bind, Option.bind_some]
      exact if_neg hdots
    rw [hu] at hvalue
    cases hvalue
    exact hu
  | assign a a' x _ ih => exact ih hdots (isReading_assign.1 h)

/-- A pattern binds exactly the names that it assigns to. -/
theorem map_fst_captures {p : Expr α} (hp : p.IsPattern) (h : p.IsReading b t ts) :
    (p.captures b ts).map (·.1) = p.targets := by
  induction hp generalizing t ts with
  | integer | string | name | dot => rfl
  | concat a hl hr ihl ihr =>
    obtain ⟨_, _, _, _, hreadl, hreadr⟩ := h.sides
    simp only [captures, targets, List.map_append, ihl hreadl, ihr hreadr]
  | assign a a' x he ih =>
    obtain ⟨v, hv, _⟩ := h.2
    simp only [value?] at hv
    simp only [captures, hv, targets, Option.map_some, Option.toList_some, List.cons_append,
      List.nil_append, List.map_cons, ih (isReading_assign.1 h)]

/-- Whatever its dots stand for, a pattern binds no other names. -/
theorem mem_targets_of_mem_captures {p : Expr α} {x : Text}
    (h : x ∈ (p.captures b ts).map (·.1)) : x ∈ p.targets := by
  induction p generalizing ts with
  | integer | string | name | dot => simp [captures] at h
  | binary | and | or | not => simp [captures] at h
  | concat a l r ihl ihr =>
    rw [captures, List.map_append, List.mem_append] at h
    exact List.mem_append.2 (h.imp ihl ihr)
  | assign a a' y e ih =>
    rw [captures, List.map_append, List.mem_append] at h
    rcases h with h | h
    · cases hv : e.value? b ts with
      | none => simp [hv] at h
      | some v =>
        have hxy : x = y := by simpa [hv] using h
        exact hxy ▸ List.mem_cons_self
    · exact List.mem_cons_of_mem _ (ih h)

/-! ## Legible patterns -/

/-- What makes a match depend on the readings of a pattern only. -/
structure Legible (b : Bindings) (p : Expr α) : Prop where
  isPattern : p.IsPattern
  literals : ∀ t ∈ p.literals, t.isEncodable
  names : ∀ x ∈ p.reads, x ≠ nowName ∧ ∃ v, b.get? x = some v ∧ v.toText.isEncodable
  fresh : ∀ x ∈ p.reads, x ∉ p.targets
  nodup : p.targets.Nodup

namespace Legible

theorem left {a : α} {l r : Expr α} (h : Legible b (.concat a l r)) : l.Legible b where
  isPattern := by
    cases h.isPattern with
    | concat _ hl hr => exact hl
  literals t ht := h.literals t (List.mem_append_left _ ht)
  names x hx := h.names x (List.mem_append_left _ hx)
  fresh x hx hmem := h.fresh x (List.mem_append_left _ hx) (List.mem_append_left _ hmem)
  nodup := (List.nodup_append.1 h.nodup).1

theorem right {a : α} {l r : Expr α} (h : Legible b (.concat a l r)) : r.Legible b where
  isPattern := by
    cases h.isPattern with
    | concat _ hl hr => exact hr
  literals t ht := h.literals t (List.mem_append_right _ ht)
  names x hx := h.names x (List.mem_append_right _ hx)
  fresh x hx hmem := h.fresh x (List.mem_append_right _ hx) (List.mem_append_right _ hmem)
  nodup := (List.nodup_append.1 h.nodup).2.1

/-- What is read on the right is not assigned on the left. -/
theorem reads_right {a : α} {l r : Expr α} (h : Legible b (.concat a l r)) :
    ∀ x ∈ r.reads, x ∉ l.targets :=
  fun x hx hmem => h.fresh x (List.mem_append_right _ hx) (List.mem_append_left _ hmem)

/-- What is read on the left is not assigned on the right. -/
theorem reads_left {a : α} {l r : Expr α} (h : Legible b (.concat a l r)) :
    ∀ x ∈ l.reads, x ∉ r.targets :=
  fun x hx hmem => h.fresh x (List.mem_append_left _ hx) (List.mem_append_right _ hmem)

/-- What the left side binds is not bound again on the right. -/
theorem captures_left {a : α} {l r : Expr α} (h : Legible b (.concat a l r)) (ts : List Text) :
    ∀ x ∈ (l.captures b ts).map (·.1), x ∉ r.targets :=
  fun _ hx => List.disjoint_of_nodup_append h.nodup (mem_targets_of_mem_captures hx)

/-- What the right side binds is not bound again on the left. -/
theorem captures_right {a : α} {l r : Expr α} (h : Legible b (.concat a l r)) (ts : List Text) :
    ∀ x ∈ (r.captures b ts).map (·.1), x ∉ l.targets :=
  fun _ hx hmem => List.disjoint_of_nodup_append h.nodup hmem (mem_targets_of_mem_captures hx)

theorem value {a a' : α} {x : Text} {e : Expr α} (h : Legible b (.assign a a' x e)) :
    e.Legible b where
  isPattern := by
    cases h.isPattern with
    | assign _ _ _ he => exact he
  literals := h.literals
  names := h.names
  fresh y hy hmem := h.fresh y hy (List.mem_cons_of_mem _ hmem)
  nodup := (List.nodup_cons.1 h.nodup).2

end Legible

/-- What a reading spells can be sent only if the literals and the values in it can. -/
theorem IsReading.isEncodable {p : Expr α} (hp : p.IsPattern) (h : p.IsReading b t ts)
    (ht : t.isEncodable) :
    (∀ s ∈ p.literals, s.isEncodable) ∧
      ∀ x ∈ p.reads, ∃ v, b.get? x = some v ∧ v.toText.isEncodable := by
  induction hp generalizing t ts with
  | integer | dot => simp [literals, reads]
  | string a s =>
    obtain ⟨v, hv, _⟩ := h.2
    simp only [value?, Value.ofText?, Option.map_eq_some_iff] at hv
    obtain ⟨u, hu, _⟩ := hv
    simpa [literals, reads] using Text.isEncodable_iff.2 ⟨u, hu⟩
  | name a x =>
    obtain ⟨v, hv, rfl⟩ := h.2
    simp only [value?] at hv
    simpa [literals, reads, hv] using ht
  | @concat a l r hl hr ihl ihr =>
    obtain ⟨v, w, hv, hw, hreadl, hreadr⟩ := h.sides
    have hsides : (v.toText ++ w.toText).isEncodable := by
      obtain ⟨_, u, hu, rfl⟩ := h
      simp only [value?, hv, hw, Option.bind_eq_bind, Option.bind_some] at hu
      split at hu
      · simp only [Value.ofText?, Option.map_eq_some_iff] at hu
        obtain ⟨c, hc, _⟩ := hu
        exact Text.isEncodable_iff.2 ⟨c, hc⟩
      · cases hu
        exact ht
    rw [Text.isEncodable_append, Bool.and_eq_true] at hsides
    obtain ⟨hlitl, hnamel⟩ := ihl hreadl hsides.1
    obtain ⟨hlitr, hnamer⟩ := ihr hreadr hsides.2
    simp only [literals, reads, List.mem_append]
    exact ⟨fun s hs => hs.elim (hlitl s) (hlitr s), fun x hx => hx.elim (hnamel x) (hnamer x)⟩
  | assign a a' x he ih => exact ih (isReading_assign.1 h) ht

/-- A pattern that has a reading of a text that can be sent is legible, if only it reads neither the
clock nor what it assigns. -/
theorem IsReading.legible {p : Expr α} (h : p.IsReading b t ts) (ht : t.isEncodable)
    (hp : p.IsPattern) (hnow : nowName ∉ p.reads) (hfresh : ∀ x ∈ p.reads, x ∉ p.targets)
    (hnodup : p.targets.Nodup) : p.Legible b where
  isPattern := hp
  literals := (h.isEncodable hp ht).1
  names x hx := ⟨fun heq => hnow (heq ▸ hx), (h.isEncodable hp ht).2 x hx⟩
  fresh := hfresh
  nodup := hnodup

end Expr

end WireScript
