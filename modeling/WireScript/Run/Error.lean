import WireScript.Diagnostic
import WireScript.Run.Channel
import WireScript.Text.Quoted

/-!
# Failures of a run

There are two ways in which an expression can go wrong.  A `MatchFailure` says that the expression
has no value for the text it was given; looking for a way to split a line goes through many of
them.  A `RuntimeError` ends the run.
-/

namespace WireScript

/-- Why an expression has no value. -/
inductive MatchFailure where
  /-- A dot where there is no text to match. -/
  | noContext
  /-- A concatenation that has to be matched where there is no text to match. -/
  | needsText
  | notAtStart (text opening : Text)
  | notAtEnd (text ending : Text)
  | ambiguous (text : Text)
  | noSplit (text : Text)
  deriving DecidableEq

namespace MatchFailure

/-- A match failure in words. -/
def message : MatchFailure → Text
  | noContext => "'.' has no match context"
  | needsText => "pattern needs text to match"
  | notAtStart text opening => text.quoted ++ " does not start with " ++ opening.quoted
  | notAtEnd text ending => text.quoted ++ " does not end with " ++ ending.quoted
  | ambiguous text => text.quoted ++ " splits more than one way"
  | noSplit text => "no split of " ++ text.quoted ++ " matches"

/-- Whether the expression fits in more than one way, rather than in none. -/
def isAmbiguous : MatchFailure → Bool
  | ambiguous _ => true
  | _ => false

end MatchFailure

/-- What ends a run. -/
inductive RuntimeError where
  | unbound (name : Text)
  | divisionByZero
  | writeFailed (reason : Text)
  | readFailed (error : ReadError)
  /-- A line that the pattern does not fit; `pattern` is the pattern as it was written. -/
  | noMatch (received pattern : Text)
  | ambiguousMatch (received pattern : Text)
  /-- A line that is not what the pattern says it is. -/
  | mismatch (received matched : Text)
  | assertionFailed (condition : Text)
  /-- An expression that needs a received line, where there is none. -/
  | noReceivedText
  deriving DecidableEq

namespace RuntimeError

/-- The code of a runtime error. -/
def code : RuntimeError → Text
  | unbound _ => "E401"
  | divisionByZero => "E402"
  | writeFailed _ | readFailed _ => "E403"
  | noMatch _ _ => "E404"
  | ambiguousMatch _ _ => "E405"
  | mismatch _ _ => "E406"
  | assertionFailed _ => "E407"
  | noReceivedText => "E408"

/-- A runtime error in words. -/
def message : RuntimeError → Text
  | unbound name => "unbound reference " ++ name
  | divisionByZero => "integer division by zero"
  | writeFailed reason => "connection failure: write failed: " ++ reason
  | readFailed (.failed reason) => "connection failure: read failed: " ++ reason
  | readFailed (.closed count) => "connection failure: " ++ (ReadError.closed count).message
  | noMatch received pattern => "no match " ++ received.quoted ++ " != " ++ pattern
  | ambiguousMatch received pattern =>
    "ambiguous match " ++ received.quoted ++ " against " ++ pattern
  | mismatch received matched => "mismatch " ++ received.quoted ++ " != " ++ matched.quoted
  | assertionFailed condition => "test failed: " ++ condition
  | noReceivedText => "no match: expression needs received data"

/-- Advice on a runtime error. -/
def hints : RuntimeError → List Text
  | ambiguousMatch _ _ =>
    ["anchor adjacent captures with literal text so only one split succeeds"]
  | noReceivedText => ["'.' only has a value inside a '<' receive pattern"]
  | _ => []

instance : Cause RuntimeError := ⟨code, message, hints⟩

end RuntimeError

end WireScript
