import WireScript.Proofs.Run.Frame
import WireScript.Proofs.Run.Step

/-!
# What a run binds

Evaluation and execution touch the bindings of the names that are assigned to, and no others.

* `Bindings.Framed` says what assignments to given names can do: every other name keeps the value
  that it has or stays unbound, and no name loses its binding.  Every evaluation does this to the
  names that the expression assigns to, whatever its outcome is (`Expr.framed_eval`).
* `Bindings.Covers` says that names are bound.  A pattern that has a value has bound all of its
  names (`Expr.IsPattern.covers_targets`): each side of a concatenation has a value before the
  concatenation has one (`Matcher.sides_of_concat`), and what comes after it unbinds nothing.
* `bindings_framed` says both of expressions and of the statements of a script.
-/

namespace WireScript

namespace Bindings

variable {names more : List Text} {b b₁ b' : Bindings}

/-- Every name of a list is bound. -/
def Covers (b : Bindings) (names : List Text) : Prop :=
  ∀ x ∈ names, (b.get? x).isSome

/-- No name loses its binding. -/
def Retained (b b' : Bindings) : Prop :=
  ∀ x, (b.get? x).isSome → (b'.get? x).isSome

/-- What assignments to the names of a list can do to bindings. -/
structure Framed (names : List Text) (b b' : Bindings) : Prop where
  /-- Every other name is bound as it was before, or still not bound. -/
  others : ∀ x, x ∉ names → b'.get? x = b.get? x
  retained : Retained b b'

theorem Retained.trans (h : Retained b b₁) (h' : Retained b₁ b') : Retained b b' :=
  fun x hx => h' x (h x hx)

theorem Framed.refl (names : List Text) (b : Bindings) : Framed names b b :=
  ⟨fun _ _ => rfl, fun _ hx => hx⟩

theorem Framed.trans (h : Framed names b b₁) (h' : Framed names b₁ b') : Framed names b b' :=
  ⟨fun x hx => (h'.others x hx).trans (h.others x hx), h.retained.trans h'.retained⟩

theorem Framed.mono (h : Framed names b b') (hsub : names ⊆ more) : Framed more b b' :=
  ⟨fun x hx => h.others x fun hmem => hx (hsub hmem), h.retained⟩

theorem framed_set {x : Text} (hx : x ∈ names) (v : Value) (b : Bindings) :
    Framed names b (b.set x v) where
  others y hy := get?_set_of_ne (ne_of_mem_of_not_mem hx hy).symm v b
  retained y hy := by
    by_cases hyx : y = x
    · rw [hyx, get?_set_self]
      rfl
    · rwa [get?_set_of_ne hyx]

theorem Covers.of_retained (h : b.Covers names) (hretained : Retained b b') : b'.Covers names :=
  fun x hx => hretained x (h x hx)

theorem covers_append : b.Covers (names ++ more) ↔ b.Covers names ∧ b.Covers more :=
  List.forall_mem_append

end Bindings

open Bindings Eval

variable {α : Type} {clock : Clock}

/-! ## Expressions -/

/-- A concatenation has a value only after each of its sides had one, and what comes after that
keeps whatever the sides keep. -/
theorem Matcher.sides_of_concat {R : Memory → Memory → Prop} (hR : Lasts R)
    {left right : Matcher α} (hl : ∀ context, Keeps R (left context))
    (hr : ∀ context, Keeps R (right context)) {context : Option Text} {m m' : Memory} {v : Value}
    (h : concat left right context m = .ok v m') :
    (∃ c m₁ u m₂, left c m₁ = .ok u m₂ ∧ R m₂ m') ∧
      ∃ c m₁ u m₂, right c m₁ = .ok u m₂ ∧ R m₂ m' := by
  obtain ⟨lv, m₁, hlv, rv, m₂, hrv, hjoin⟩ := concat_eq_ok_iff.1 h
  have hkept : R m₁ m₂ := (hr none).of_attempt hrv
  rcases attempt_eq_ok_iff.1 hlv with ⟨u, rfl, hu⟩ | ⟨f, rfl, -⟩
  · rcases attempt_eq_ok_iff.1 hrv with ⟨w, rfl, hw⟩ | ⟨f, rfl, -⟩
    · obtain ⟨-, -, -, rfl⟩ := text_eq_ok_iff.1 hjoin
      exact ⟨⟨_, _, _, _, hu, hkept⟩, ⟨_, _, _, _, hw, hR.refl _⟩⟩
    · cases context with
      | none => cases hjoin
      | some t =>
        simp only [join, bind_of_ok (contextText_some t _)] at hjoin
        split at hjoin
        · obtain ⟨w, m₃, hw, htext⟩ := bind_eq_ok_iff.1 hjoin
          obtain ⟨-, -, -, rfl⟩ := text_eq_ok_iff.1 htext
          have hlast : R m₂ m' := (hr _).of_ok hw
          exact ⟨⟨_, _, _, _, hu, hR.trans hkept hlast⟩, ⟨_, _, _, _, hw, hR.refl _⟩⟩
        · cases hjoin
  · cases context with
    | none => cases rv <;> cases hjoin
    | some t =>
      rcases attempt_eq_ok_iff.1 hrv with ⟨w, rfl, hw⟩ | ⟨f, rfl, -⟩
      · simp only [join, bind_of_ok (contextText_some t _)] at hjoin
        split at hjoin
        · obtain ⟨u, m₃, hu, htext⟩ := bind_eq_ok_iff.1 hjoin
          obtain ⟨-, -, -, rfl⟩ := text_eq_ok_iff.1 htext
          exact ⟨⟨_, _, _, _, hu, hR.refl _⟩, ⟨_, _, _, _, hw, (hl _).of_ok hu⟩⟩
        · cases hjoin
      · simp only [join, bind_of_ok (contextText_some t _)] at hjoin
        obtain ⟨k, m₃, -, hjoin⟩ := bind_eq_ok_iff.1 hjoin
        obtain ⟨u, m₄, hu, hjoin⟩ := bind_eq_ok_iff.1 hjoin
        obtain ⟨w, m₅, hw, htext⟩ := bind_eq_ok_iff.1 hjoin
        obtain ⟨-, -, -, rfl⟩ := text_eq_ok_iff.1 htext
        exact ⟨⟨_, _, _, _, hu, (hr _).of_ok hw⟩, ⟨_, _, _, _, hw, hR.refl _⟩⟩

namespace Expr

/-- The names that an expression assigns to are all that evaluating it can touch. -/
theorem framed_eval (clock : Clock) (e : Expr α) (context : Option Text) :
    Keeps (fun m m' => Framed e.targets m.bindings m'.bindings) (e.eval clock context) := by
  have hlasts : Lasts fun m m' : Memory => Framed e.targets m.bindings m'.bindings :=
    ⟨fun m => .refl _ m.bindings, .trans⟩
  refine keeps_eval hlasts (fun _ m => .refl _ m.bindings) (fun _ m => .refl _ m.bindings) e ?_
    context
  exact fun x hx v m => framed_set hx v m.bindings

/-- A pattern that has a value has bound every name that it assigns to. -/
theorem IsPattern.covers_targets {e : Expr α} (he : e.IsPattern) {context : Option Text}
    {m m' : Memory} {v : Value} (h : e.eval clock context m = .ok v m') :
    m'.bindings.Covers e.targets := by
  induction he generalizing context m v m' with
  | integer | string | name | dot => exact List.forall_mem_nil _
  | @concat a l r _ _ ihl ihr =>
    have hlasts : Lasts fun m m' : Memory => Retained m.bindings m'.bindings :=
      ⟨fun _ _ hx => hx, .trans⟩
    obtain ⟨⟨_, _, _, _, hu, hleft⟩, ⟨_, _, _, _, hw, hright⟩⟩ :=
      Matcher.sides_of_concat hlasts (fun c m => (framed_eval clock l c m).retained)
        (fun c m => (framed_eval clock r c m).retained) h
    exact covers_append.2 ⟨(ihl hu).of_retained hleft, (ihr hw).of_retained hright⟩
  | assign a b x _ ih =>
    obtain ⟨u, m₁, hu, hassign⟩ := bind_eq_ok_iff.1 h
    obtain ⟨_, m₂, hset, hpure⟩ := bind_eq_ok_iff.1 hassign
    cases hset
    cases hpure
    have hset := framed_set (List.mem_singleton_self x) v m₁.bindings
    refine List.forall_mem_cons.2 ⟨?_, (ih hu).of_retained hset.retained⟩
    rw [get?_set_self]
    rfl

section Outcomes

variable {e : Expr α} {context : Option Text} {m m' : Memory}

theorem framed_of_ok {v : Value} (h : e.eval clock context m = .ok v m') :
    Framed e.targets m.bindings m'.bindings :=
  (framed_eval clock e context).of_ok h

theorem framed_of_error {stop : Stop α} (h : e.eval clock context m = .error stop m') :
    Framed e.targets m.bindings m'.bindings :=
  (framed_eval clock e context).of_error h

end Outcomes

end Expr

/-! ## Statements -/

namespace Stmt

variable {s : Stmt α} {w w' : World} {halt : Halt α}

theorem framed_of_completes (h : s.Completes clock w w') :
    Framed s.operand.targets w.memory.bindings w'.memory.bindings := by
  cases h with
  | send hv | receive _ hv | assert hv | expr hv =>
    have hframed := Expr.framed_of_ok hv
    exact hframed

/-- A statement that fails may have bound some of its names, and it touches no others. -/
theorem framed_of_fails (h : s.Fails clock w halt w') :
    Framed s.operand.targets w.memory.bindings w'.memory.bindings := by
  cases h with
  | operand hs heval | valueless hs heval =>
    rw [operand_of_lone? hs]
    have hframed := Expr.framed_of_error heval
    exact hframed
  | unsendable hv | unwritten hv | mismatch _ hv | untrue hv =>
    have hframed := Expr.framed_of_ok hv
    exact hframed
  | unread => exact .refl _ _
  | pattern _ heval | unmatched _ heval =>
    have hframed := Expr.framed_of_error heval
    exact hframed

/-- A statement with a pattern that completes has bound every name in it. -/
theorem covers_of_completes (hs : s.operand.IsPattern) (h : s.Completes clock w w') :
    w'.memory.bindings.Covers s.operand.targets := by
  cases h with
  | send hv | receive _ hv | assert hv | expr hv =>
    have hcovers := Expr.IsPattern.covers_targets hs hv
    exact hcovers

end Stmt

/-! ## Runs -/

/-- The names that the statements of a script assign to. -/
def Script.targets (script : Script α) : List Text :=
  script.statements.flatMap fun s => s.operand.targets

namespace Runs

variable {ss : List (Stmt α)} {w w' : World}

theorem framed (h : Runs clock ss w w') :
    Framed (ss.flatMap fun s => s.operand.targets) w.memory.bindings w'.memory.bindings := by
  induction h with
  | nil w => exact .refl _ _
  | cons hs _ ih =>
    have hfirst := Stmt.framed_of_completes (Stmt.completes_of_execute hs)
    rw [List.flatMap_cons]
    exact (hfirst.mono (List.subset_append_left _ _)).trans
      (ih.mono (List.subset_append_right _ _))

/-- What the patterns of statements that completed have bound stays bound. -/
theorem covers (h : Runs clock ss w w') :
    ∀ s ∈ ss, s.operand.IsPattern → w'.memory.bindings.Covers s.operand.targets := by
  induction h with
  | nil w => exact List.forall_mem_nil _
  | cons hs hss ih =>
    refine List.forall_mem_cons.2 ⟨fun hpattern => ?_, ih⟩
    have hbound := Stmt.covers_of_completes hpattern (Stmt.completes_of_execute hs)
    exact hbound.of_retained hss.framed.retained

end Runs

/-- Evaluation changes only what it names, whatever its outcome is: a name that the expression does
not assign to keeps its binding or stays unbound, and no name loses its binding.  A pattern that has
a value has bound every name that it assigns to.  The same holds of a run and the names that its
statements assign to, where the patterns are those of the statements that completed. -/
theorem bindings_framed (clock : Clock) :
    (∀ (e : Expr α) (context : Option Text) (m : Memory),
      Framed e.targets m.bindings ((e.eval clock context).after m).bindings ∧
      (e.IsPattern → ∀ v m', e.eval clock context m = .ok v m' →
        m'.bindings.Covers e.targets)) ∧
    ∀ (script : Script α) (w : World),
      Framed script.targets w.memory.bindings (script.execute clock w).2.memory.bindings ∧
      ∀ s ∈ script.statements.take (script.execute clock w).1.completed, s.operand.IsPattern →
        (script.execute clock w).2.memory.bindings.Covers s.operand.targets := by
  refine ⟨fun e context m => ⟨e.framed_eval clock context m, fun he v m' h => ?_⟩, ?_⟩
  · exact he.covers_targets h
  · rintro ⟨note, ss⟩ w
    rcases runs_or_fails clock ss w with
      ⟨w', hrun⟩ | ⟨done, s, rest, w₁, halt, w', rfl, hdone, hs⟩
    · rw [hrun.execute note]
      refine ⟨hrun.framed, fun s hs => hrun.covers s ?_⟩
      exact List.mem_of_mem_take hs
    · rw [hdone.execute_of_error hs note rest]
      have hlast := Stmt.framed_of_fails (Stmt.fails_of_execute hs)
      constructor
      · have hall : Script.targets ⟨note, done ++ s :: rest⟩ =
            done.flatMap (fun s => s.operand.targets) ++ (s.operand.targets ++
              rest.flatMap fun s => s.operand.targets) := by
          simp [Script.targets]
        rw [hall]
        refine (hdone.framed.mono (List.subset_append_left _ _)).trans (hlast.mono ?_)
        exact List.Subset.trans (List.subset_append_left _ _) (List.subset_append_right _ _)
      · intro s' hs'
        rw [List.take_left] at hs'
        exact fun hpattern => (hdone.covers s' hs' hpattern).of_retained hlast.retained

/-- A line in two parts, with a dash between them. -/
def twoPartLine : Expr Unit :=
  .concat () (.assign () () "a" (.dot ())) (.concat () (.string () "-")
    (.concat () (.assign () () "b" (.dot ())) (.string () "\r\n")))

/-- Both parts of a line are captured, and then a division by zero cuts an assignment off. -/
def twoPartScript : Script Unit :=
  ⟨(), [.receive () twoPartLine ":{a = .}-{b = .}",
    .expr () (.binary () .add (.assign () () "c" (.integer () 1))
      (.assign () () "d" (.binary () .div (.name () "c") (.integer () 0))))]⟩

theorem bindings_framed_two_parts :
    let m : Memory := { bindings := [("z", .bool true), ("c", .text "old")] }
    let w : World := { memory := m, channel := { incoming := [0x31, 0x2D, 0x32, 0x0D, 0x0A] } }
    let r := twoPartScript.execute (fun _ => 0) w
    r.1 = ⟨1, some (.failed .divisionByZero ())⟩ ∧
      r.2.memory.bindings.get? "z" = some (.bool true) ∧
      r.2.memory.bindings.get? "d" = none ∧ (r.2.memory.bindings.get? "c").isSome ∧
      r.2.memory.bindings.Covers ["a", "b"] := by
  intro m w r
  obtain ⟨hframed, hcovers⟩ := (bindings_framed (fun _ => 0)).2 twoPartScript w
  have hz : ("z" : Text) ∉ twoPartScript.targets := by decide
  have hpattern : twoPartLine.IsPattern :=
    .concat () (.assign () () _ (.dot ())) (.concat () (.string () _)
      (.concat () (.assign () () _ (.dot ())) (.string () _)))
  have hfirst : .receive () twoPartLine ":{a = .}-{b = .}" ∈
      twoPartScript.statements.take r.1.completed := by
    decide +kernel
  exact ⟨by decide +kernel, hframed.others _ hz, by decide +kernel, hframed.retained _ rfl,
    hcovers _ hfirst hpattern⟩

end WireScript
