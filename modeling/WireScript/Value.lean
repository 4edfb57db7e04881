import WireScript.Data
import WireScript.Number.Word
import WireScript.Text.Utf8

/-!
# Values

A script computes with texts, integers of 64 bits and truth values.  Each value can be taken as
each of the three: a text is zero as an integer, and everything but a false truth value is true.
No conversion looks inside a text.
-/

namespace WireScript

/-- A value of a script. -/
inductive Value where
  | text (t : Text)
  | integer (n : Int)
  | bool (b : Bool)
  deriving DecidableEq, Inhabited

namespace Value

/-- The name of a value's type. -/
def typeName : Value → Text
  | text _ => "string"
  | integer _ => "integer"
  | bool _ => "boolean"

/-- A value as text: itself, its decimal digits, or its name. -/
def toText : Value → Text
  | text t => t
  | integer n => Text.ofInt n
  | bool b => if b then "true" else "false"

/-- A value as an integer.  Only integers carry a number. -/
def toInt : Value → Int
  | integer n => n
  | _ => 0

/-- A value as a truth value.  Only truth values can be false. -/
def toBool : Value → Bool
  | bool b => b
  | _ => true

/-- A value with its type, as it is shown in a trace. -/
def render : Value → Text
  | text t => "Value(" ++ t.quoted ++ ", string)"
  | integer n => "Value(" ++ Text.ofInt n ++ ", integer)"
  | bool b => "Value(" ++ Data.boolName b ++ ", boolean)"

/-- The integer value of a number of any size. -/
def ofInt (n : Int) : Value := integer (wrap n)

/-- The text value of a text, in canonical form; a text with a stray surrogate has none. -/
def ofText? (t : Text) : Option Value := t.canonical.map text

/-- What every value that a script computes satisfies: integers fit into 64 bits, and texts are
canonical. -/
def WellFormed : Value → Prop
  | text t => t.canonical = some t
  | integer n => IsWord n
  | bool _ => True

instance (v : Value) : Decidable v.WellFormed := by
  cases v <;> unfold WellFormed <;> infer_instance

theorem wellFormed_ofInt (n : Int) : (ofInt n).WellFormed :=
  isWord_wrap n

end Value

end WireScript
