import WireScript.Run.Error
import WireScript.Value

/-!
# Memory of a run

What a run remembers: the values its names are bound to, how often it read the clock, and what
happened that a trace can show.
-/

namespace WireScript

/-- The values that names are bound to.  No name occurs twice in a list that `set` made. -/
abbrev Bindings := List (Text × Value)

namespace Bindings

/-- The value that a name is bound to. -/
def get? (b : Bindings) (name : Text) : Option Value :=
  List.lookup name b

/-- Binds a name to a value, in place of the value it has. -/
def set (name : Text) (value : Value) : Bindings → Bindings
  | [] => [(name, value)]
  | (n, v) :: rest => if n = name then (n, value) :: rest else (n, v) :: set name value rest

/-- The bindings in the order of their names. -/
def sorted (b : Bindings) : Bindings :=
  b.mergeSort fun x y => x.1.le y.1

@[simp] theorem get?_nil (name : Text) : get? [] name = none := rfl

theorem get?_cons (n name : Text) (v : Value) (rest : Bindings) :
    get? ((n, v) :: rest) name = if n = name then some v else get? rest name := by
  rw [get?, List.lookup_cons]
  by_cases h : n = name
  · simp [h]
  · have : (name == n) = false := by simpa using fun e => h e.symm
    simp [h, this, get?]

@[simp] theorem get?_set_self (name : Text) (value : Value) (b : Bindings) :
    (b.set name value).get? name = some value := by
  induction b with
  | nil => simp [set, get?_cons]
  | cons entry rest ih =>
    obtain ⟨n, v⟩ := entry
    unfold set
    split
    · simp [get?_cons, *]
    · simp [get?_cons, *]

theorem get?_set_of_ne {name other : Text} (h : other ≠ name) (value : Value) (b : Bindings) :
    (b.set name value).get? other = b.get? other := by
  induction b with
  | nil => simp [set, get?_cons, h.symm]
  | cons entry rest ih =>
    obtain ⟨n, v⟩ := entry
    unfold set
    split
    · rename_i same
      subst same
      simp [get?_cons, h.symm]
    · simp [get?_cons, ih]

end Bindings

/-- Something that a trace shows. -/
inductive Event where
  | sent (text : Text)
  | received (text : Text)
  | assigned (name : Text) (value : Value)
  /-- A text that splits at two places. -/
  | ambiguousSplit (text : Text) (first second : Nat)
  /-- A statement whose expression has no value. -/
  | noValue (failure : MatchFailure)
  deriving DecidableEq

namespace Event

/-- Whether an event belongs to the traffic with the peer, rather than to the inner workings. -/
def isTraffic : Event → Bool
  | sent _ | received _ => true
  | _ => false

/-- The trace line of an event. -/
def render : Event → Text
  | sent text => ">" ++ text.quoted
  | received text => "<" ++ text.quoted
  | assigned name value => name ++ " = " ++ value.render
  | ambiguousSplit text first second =>
    "ambiguous split of " ++ text.quoted ++ " at " ++ Text.ofNat first ++ " and " ++
      Text.ofNat second
  | noValue failure => "no value outside a receive: " ++ failure.message

end Event

/-- The time at each reading of the clock, counted from zero. -/
abbrev Clock := Nat → Int

/-- The memory of a run. -/
structure Memory where
  bindings : Bindings := []
  clockReads : Nat := 0
  /-- What happened, the latest first. -/
  log : List Event := []
  deriving DecidableEq, Inhabited

end WireScript
