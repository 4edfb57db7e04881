import WireScript.Script.Parser
import WireScript.Token.Scan

/-!
# Compiling

Compiling scans and parses a source.  A source with lexical errors is rejected for those alone, and
one with syntax errors for those; only a source without either gives a script.  A token that cannot
be made breaks compiling off.
-/

namespace WireScript

/-- A source text and the name of the file it comes from, if it has one. -/
structure Source where
  text : Text
  file : Option Text := none
  deriving Inhabited

/-- The diagnostic of a report on a source. -/
def Source.diagnose {ε : Type} [Cause ε] (source : Source) (r : Report ε) : Diagnostic :=
  r.diagnostic source.file (some source.text)

/-- What compiling a source leads to. -/
inductive Compiled where
  | script (script : Script Span)
  /-- The source has errors, and at least one diagnostic. -/
  | rejected (diagnostics : List Diagnostic)
  /-- A token of the source cannot be made. -/
  | broken (cause : Breakage)
  deriving Inhabited

/-- Compiles a source. -/
def Source.compile (source : Source) : Compiled :=
  match tokenize source.text with
  | .error cause => .broken cause
  | .ok scanned =>
    let parsed := parse (some source.text) scanned.tokens
    if !scanned.reports.isEmpty then .rejected (scanned.reports.map source.diagnose)
    else if !parsed.reports.isEmpty then .rejected (parsed.reports.map source.diagnose)
    else .script parsed.script

end WireScript
