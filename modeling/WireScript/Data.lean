import WireScript.Calendar
import WireScript.Number.Limit
import WireScript.Number.Shortest
import WireScript.Text.Quoted

/-!
# Structured data

The value of a settings document: null, truth values, numbers, texts, dates, moments, lists, and
mappings in the order of their keys.  The printed form of a value is used in messages.  A value that
holds an integer of too many digits has none.
-/

namespace WireScript

/-- A value of a settings document. -/
inductive Data where
  | null
  | bool (b : Bool)
  | integer (n : Int)
  | float (x : Binary64)
  | text (t : Text)
  | date (d : Date)
  | moment (m : Moment)
  | list (items : List Data)
  | mapping (entries : List (Data × Data))
  deriving Inhabited

namespace Data

/-- The printed form of a truth value. -/
def boolName (b : Bool) : Text := if b then "True" else "False"

mutual

/-- The printed form of a value, if its integers can be printed. -/
def render? : Data → Option Text
  | null => some "None"
  | bool b => some (boolName b)
  | integer n => if Number.isOverlong n then none else some (Text.ofInt n)
  | float x => some x.render
  | text t => some t.quoted
  | date d => some d.render
  | moment m => some m.render
  | list items => do return "[" ++ Text.join ", " (← renderItems? items) ++ "]"
  | mapping entries => do return "\x7b" ++ Text.join ", " (← renderEntries? entries) ++ "\x7d"

/-- The printed forms of the items of a list. -/
def renderItems? : List Data → Option (List Text)
  | [] => some []
  | item :: rest => do return (← render? item) :: (← renderItems? rest)

/-- The printed forms of the entries of a mapping. -/
def renderEntries? : List (Data × Data) → Option (List Text)
  | [] => some []
  | (key, value) :: rest => do
    return ((← render? key) ++ ": " ++ (← render? value)) :: (← renderEntries? rest)

end

/-- The integer that a value is equal to as a number; truth values are zero and one. -/
def toInt? : Data → Option Int
  | bool b => some (if b then 1 else 0)
  | integer n => some n
  | float x => x.toInt?
  | _ => none

/-- Whether two values are one key of a mapping: numbers are compared by value, what is no number is
one key, and lists and mappings are no keys. -/
def sameKey (a b : Data) : Bool :=
  match a.toInt?, b.toInt? with
  | some m, some n => m == n
  | some _, none | none, some _ => false
  | none, none =>
    match a, b with
    | null, null => true
    | text t, text u => t == u
    | float x, float y => x == y
    | date d, date e => d == e
    | moment m, moment n => m.isSame n
    | _, _ => false

/-- The entries of a mapping after a key was given a value.  A key that is there already keeps its
place and its first form. -/
def insert (key value : Data) : List (Data × Data) → List (Data × Data)
  | [] => [(key, value)]
  | (k, v) :: rest => if sameKey k key then (k, value) :: rest else (k, v) :: insert key value rest

/-- The value of a key that is a text. -/
def get? (key : Text) (entries : List (Data × Data)) : Option Data :=
  (entries.find? fun (k, _) => match k with
    | text t => t == key
    | _ => false).map (·.2)

/-- Whether a value counts as absent: null, false, zero, or empty. -/
def isEmpty : Data → Bool
  | null => true
  | bool b => !b
  | integer n => n == 0
  | float x => x.toInt? == some 0
  | text t => t.isEmpty
  | date _ | moment _ => false
  | list items => items.isEmpty
  | mapping entries => entries.isEmpty

end Data

end WireScript
