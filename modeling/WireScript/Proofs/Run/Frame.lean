import WireScript.Proofs.Run.Invariant

/-!
# What evaluation leaves alone

Evaluation changes memory in three ways only: it keeps events for the trace, reads the clock, and
binds the names that the expression assigns to.  `Expr.keeps_eval` says so for every relation
between memories at once, and `Expr.sameOff_eval` is the case that the proofs about patterns use:
no other name is bound differently afterwards, whatever the outcome is.
-/

namespace WireScript

namespace Bindings

theorem mem_of_get? {c : Bindings} {x : Text} {v : Value} (h : c.get? x = some v) :
    (x, v) ∈ c := by
  obtain ⟨before, rest, rfl, _⟩ := List.lookup_eq_some_iff.1 h
  exact List.mem_append_right before List.mem_cons_self

theorem get?_eq_none_iff {c : Bindings} {x : Text} : c.get? x = none ↔ x ∉ c.map (·.1) := by
  rw [get?, List.lookup_eq_none_iff, List.mem_map]
  constructor
  · rintro h ⟨e, he, rfl⟩
    simpa using h e he
  · intro h e he
    rw [bne_iff_ne]
    rintro rfl
    exact h ⟨e, he, rfl⟩

end Bindings

/-- Two memories bind every name the same way, those of a list apart. -/
def Memory.SameOff (names : List Text) (m m' : Memory) : Prop :=
  ∀ x, x ∉ names → m'.bindings.get? x = m.bindings.get? x

namespace Memory

theorem lasts_sameOff (names : List Text) : Eval.Lasts (SameOff names) where
  refl _ _ _ := rfl
  trans h h' x hx := (h' x hx).trans (h x hx)

theorem SameOff.mono {names more : List Text} {m m' : Memory} (h : SameOff names m m')
    (hsub : ∀ x ∈ names, x ∈ more) : SameOff more m m' :=
  fun x hx => h x fun hmem => hx (hsub x hmem)

/-- A memory gives the names of a list the values that they have in given bindings. -/
def Agrees (b : Bindings) (names : List Text) (m : Memory) : Prop :=
  ∀ x ∈ names, m.bindings.get? x = b.get? x

/-- A memory binds every name of a list of bindings the way the list says. -/
def Binds (c : Bindings) (m : Memory) : Prop :=
  ∀ e ∈ c, m.bindings.get? e.1 = some e.2

/-- A memory binds the names of a list of bindings the way the list says, and every other name the
way that given bindings say. -/
def BindsOver (b c : Bindings) (m : Memory) : Prop :=
  ∀ x, m.bindings.get? x = (c.get? x).or (b.get? x)

variable {b c d : Bindings} {names more : List Text} {m m' : Memory}

theorem Agrees.mono (h : Agrees b more m) (hsub : ∀ x ∈ names, x ∈ more) : Agrees b names m :=
  fun x hx => h x (hsub x hx)

theorem Agrees.of_sameOff (h : Agrees b names m) (hoff : SameOff more m m')
    (hapart : ∀ x ∈ names, x ∉ more) : Agrees b names m' :=
  fun x hx => (hoff x (hapart x hx)).trans (h x hx)

theorem binds_nil (m : Memory) : Binds [] m := by
  simp [Binds]

theorem binds_append : Binds (c ++ d) m ↔ Binds c m ∧ Binds d m :=
  List.forall_mem_append

theorem Binds.of_sameOff (h : Binds c m) (hoff : SameOff names m m')
    (hapart : ∀ x ∈ c.map (·.1), x ∉ names) : Binds c m' :=
  fun e he => (hoff e.1 (hapart e.1 (List.mem_map_of_mem he))).trans (h e he)

/-- What is bound afterwards, when only the names of a list were bound. -/
theorem Binds.over (h : Binds c m') (hoff : SameOff (c.map (·.1)) m m') :
    BindsOver m.bindings c m' := by
  intro x
  cases hx : c.get? x with
  | none =>
    rw [Option.none_or]
    exact hoff x (Bindings.get?_eq_none_iff.1 hx)
  | some v => exact h (x, v) (Bindings.mem_of_get? hx)

end Memory

namespace Eval

variable {α β : Type} {R : Memory → Memory → Prop}

/-- The memory is always related to the one at the start. -/
def Invariant.keeping (R : Memory → Memory → Prop) (start : Memory) : Invariant α where
  memory := R start
  value _ := True
  text _ := True
  stop _ := True

/-- A computation keeps a lasting relation if it keeps the memory related to any memory that it can
have started from. -/
theorem keeps_iff (hR : Lasts R) {x : Eval α β} :
    Keeps R x ↔ ∀ start, (Invariant.keeping R start).Holds (fun _ => True) x := by
  constructor
  · intro hx start m hm
    cases h : x m with
    | ok v m' => exact ⟨hR.trans hm (hx.of_ok h), trivial⟩
    | error e m' => exact ⟨hR.trans hm (hx.of_error h), trivial⟩
  · intro hx m
    cases h : x m with
    | ok v m' =>
      rw [after_of_ok h]
      exact ((hx m).of_ok (hR.refl m) h).1
    | error e m' =>
      rw [after_of_error h]
      exact ((hx m).of_error (hR.refl m) h).1

theorem lawful_keeping (hR : Lasts R) (hlog : ∀ event, Keeps R (record event : Eval α Unit))
    (hnow : ∀ clock, Keeps R (now clock : Eval α Value)) (start : Memory) :
    (Invariant.keeping R start : Invariant α).Lawful where
  noMatch _ := trivial
  divisionByZero _ := trivial
  ofInt _ := trivial
  bool _ := trivial
  join _ _ := trivial
  cut _ _ := ⟨trivial, trivial⟩
  ofText {t} _ := (keeps_iff hR).1 (keeps_text hR t) start
  lookup note x := (keeps_iff hR).1 (keeps_lookup hR note x) start
  now clock := (keeps_iff hR).1 (hnow clock) start
  record event := (keeps_iff hR).1 (hlog event) start

end Eval

open Eval

variable {α : Type} {clock : Clock}

/-- Evaluation keeps every lasting relation that its basic steps keep. -/
theorem Expr.keeps_eval {R : Memory → Memory → Prop} (hR : Lasts R)
    (hlog : ∀ event, Keeps R (record event : Eval α Unit))
    (hnow : ∀ clock, Keeps R (now clock : Eval α Value)) (e : Expr α)
    (hassign : ∀ x ∈ e.targets, ∀ v, Keeps R (Eval.assign x v : Eval α Unit))
    (context : Option Text) : Keeps R (e.eval clock context) := by
  refine (keeps_iff hR).2 fun start => ?_
  have hlawful := lawful_keeping hR hlog hnow start
  refine e.holds_eval clock hlawful (fun _ _ => trivial) (fun x hx v _ => ?_) fun _ _ => trivial
  exact (keeps_iff hR).1 (hassign x hx v) start

/-! ## Names that are not assigned to -/

theorem Eval.lawful_sameOff (names : List Text) (start : Memory) :
    (Invariant.keeping (Memory.SameOff names) start : Invariant α).Lawful :=
  lawful_keeping (Memory.lasts_sameOff names) (fun _ _ _ _ => rfl) (fun _ _ _ _ => rfl) start

namespace Matcher

variable {names : List Text} {left right : Matcher α}

/-- Without a text, two parts are only tried without one. -/
theorem sameOff_concat_none (hl : Keeps (Memory.SameOff names) (left none))
    (hr : Keeps (Memory.SameOff names) (right none)) :
    Keeps (Memory.SameOff names) (concat left right none) := by
  rw [keeps_iff (Memory.lasts_sameOff names)] at hl hr ⊢
  exact fun start => holds_concat (lawful_sameOff names start) (hl start) (hr start) nofun nofun

end Matcher

namespace Expr

/-- Evaluation binds only the names that the expression assigns to. -/
theorem sameOff_eval (e : Expr α) (context : Option Text) :
    Keeps (Memory.SameOff e.targets) (e.eval clock context) := by
  refine keeps_eval (Memory.lasts_sameOff _) (fun _ _ _ _ => rfl) (fun _ _ _ _ => rfl) e ?_ context
  intro x hx v m y hy
  have hne : y ≠ x := by
    rintro rfl
    exact hy hx
  exact Bindings.get?_set_of_ne hne v m.bindings

section Concat

variable (clock) (l r : Expr α)

private theorem sameOff_sides :
    (∀ context, Keeps (Memory.SameOff (l.targets ++ r.targets)) (l.eval clock context)) ∧
      ∀ context, Keeps (Memory.SameOff (l.targets ++ r.targets)) (r.eval clock context) := by
  constructor
  · intro context m
    exact (sameOff_eval l context m).mono fun x hx => List.mem_append_left _ hx
  · intro context m
    exact (sameOff_eval r context m).mono fun x hx => List.mem_append_right _ hx

/-- Trying a cut binds only the names that the sides assign to. -/
theorem sameOff_fits (t : Text) (k : Nat) :
    Keeps (Memory.SameOff (l.targets ++ r.targets))
      (Matcher.fits (l.eval clock) (r.eval clock) t k) := by
  obtain ⟨hl, hr⟩ := sameOff_sides clock l r
  simp only [keeps_iff (Memory.lasts_sameOff _)] at hl hr ⊢
  exact fun start => Matcher.holds_fits (hl _ start) (hr _ start)

/-- So does the search for a cut. -/
theorem sameOff_findSplit (t : Text) (found : Option Nat) (cuts : List Nat) :
    Keeps (Memory.SameOff (l.targets ++ r.targets))
      (Matcher.findSplit (l.eval clock) (r.eval clock) t found cuts) := by
  obtain ⟨hl, hr⟩ := sameOff_sides clock l r
  simp only [keeps_iff (Memory.lasts_sameOff _)] at hl hr ⊢
  intro start
  exact Matcher.holds_findSplit (lawful_sameOff _ start) (fun k => hl _ start)
    (fun k => hr _ start) found cuts

end Concat

end Expr

end WireScript
