import WireScript.Source.Position

/-!
# Diagnostics

What went wrong is a *cause*: a value of an error type of the stage that found it.  A cause with
the stretch of source it concerns is a `Report`, and a report with the names and lines that a
reader needs is a `Diagnostic`.  The error types of the stages are instances of `Cause`, which
fixes the code, the wording and the hints.
-/

namespace WireScript

/-- How bad a diagnostic is. -/
inductive Severity where
  | error
  | warning
  deriving DecidableEq, Inhabited

/-- The name of a severity. -/
def Severity.name : Severity → Text
  | error => "error"
  | warning => "warning"

/-- A message about a source text, ready to be shown. -/
structure Diagnostic where
  code : Text
  message : Text
  severity : Severity := .error
  span : Span
  file : Option Text := none
  /-- The line of source on which the span starts, if the source is at hand. -/
  sourceLine : Option Text := none
  hints : List Text := []
  deriving DecidableEq, Inhabited

namespace Diagnostic

/-- The number of carets under a source line: the width of the span, or up to the end of the line
if the span goes on below, and at least one. -/
def caretCount (span : Span) (line : Text) : Nat :=
  let stop := if span.start.line = span.stop.line then span.stop.column else line.length + 1
  max 1 (stop - span.start.column)

/-- The rows that quote the source line and mark the span in it. -/
def excerpt (span : Span) (line : Text) : List Text :=
  [ "  |",
    Text.padLeft 3 (Text.ofNat span.start.line) ++ " | " ++ line,
    "    | " ++ Text.copies (span.start.column - 1) ' ' ++ Text.copies (caretCount span line) '^' ]

/-- The first row: where, how bad, which code, and what. -/
def header (d : Diagnostic) : Text :=
  d.span.start.render d.file ++ ": " ++ d.severity.name ++ "[" ++ d.code ++ "]: " ++ d.message

/-- The rows of a diagnostic. -/
def rows (showSource : Bool) (d : Diagnostic) : List Text :=
  let quotation :=
    match showSource, d.sourceLine with
    | true, some line => excerpt d.span line
    | _, _ => []
  d.header :: quotation ++ d.hints.map fun hint : Text => "    = hint: " ++ hint

/-- A diagnostic as one text, with or without the quoted source line. -/
def render (showSource : Bool) (d : Diagnostic) : Text :=
  Text.join "\n" (d.rows showSource)

/-- How many of the diagnostics are errors. -/
def errorCount (ds : List Diagnostic) : Nat :=
  ds.countP (·.severity == .error)

/-- A list of diagnostics as one text, with the number of errors at the end if there are any. -/
def renderAll (showSource : Bool) (ds : List Diagnostic) : Text :=
  let total := errorCount ds
  let closing : List Text := if total = 0 then [] else [Text.ofNat total ++ " error(s)"]
  Text.join "\n" (ds.map (render showSource) ++ closing)

end Diagnostic

/-- What an error type says about its errors. -/
class Cause (ε : Type) where
  /-- The code under which the error is listed. -/
  code : ε → Text
  /-- The error in words. -/
  message : ε → Text
  /-- Advice on what to do about it. -/
  hints : ε → List Text := fun _ => []

/-- An error and the stretch of source that it concerns. -/
structure Report (ε : Type) where
  cause : ε
  span : Span
  deriving DecidableEq

/-- The diagnostic of a report.  The quoted line is always the one on which the span starts. -/
def Report.diagnostic {ε : Type} [Cause ε] (file source : Option Text) (r : Report ε) :
    Diagnostic where
  code := Cause.code r.cause
  message := Cause.message r.cause
  span := r.span
  file := file
  sourceLine := source.bind (·.line? r.span.start.line)
  hints := Cause.hints r.cause

end WireScript
