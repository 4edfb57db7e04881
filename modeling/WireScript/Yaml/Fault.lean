import WireScript.Calendar
import WireScript.Number.Limit
import WireScript.Text.Utf8

/-!
# Faults of YAML documents

A document is refused as malformed if its tokens or nodes do not fit together, or if it has a node
that means nothing.  Apart from that there are obstacles, which stop the reading of a document
whatever its form is: bytes that are no text, and numbers and dates that do not exist.
-/

namespace WireScript.Yaml

/-- What stops the reading of a document. -/
inductive Obstacle where
  | undecodable (cause : Utf8.Fault)
  /-- An escape for a number past all code points. -/
  | pastCodePoints
  /-- An escape for a number that is not even looked at as a code point. -/
  | pastNumbers
  /-- An integer without digits in a base that is written down. -/
  | noDigits (base : Nat)
  /-- A decimal integer of too many digits. -/
  | tooManyDigits (count : Nat)
  /-- A group of digits whose place value is past all floating point numbers. -/
  | placeTooLarge
  | calendar (cause : CalendarFault)

/-- What stops the reading, in words. -/
def Obstacle.message : Obstacle → Text
  | undecodable cause => cause.message
  | pastCodePoints => "chr() arg not in range(0x110000)"
  | pastNumbers => "Python int too large to convert to C int"
  | noDigits base => "invalid literal for int() with base " ++ Text.ofNat base ++ ": ''"
  | tooManyDigits count => Number.overlongDigits count
  | placeTooLarge => "int too large to convert to float"
  | calendar cause => cause.message

/-- Why a document has no value. -/
inductive Fault where
  | malformed
  | obstacle (cause : Obstacle)

end WireScript.Yaml
