import WireScript.Run.Execute
import WireScript.Script.Compile

/-!
# Results

What a run of a source tells its caller: whether it succeeded, how far it came, what went wrong, and
what its names are bound to at the end.
-/

namespace WireScript

/-- The result of a run. -/
structure RunResult where
  success : Bool
  /-- How many statements completed. -/
  completed : Nat
  message : Option Text
  diagnostic : Option Diagnostic
  bindings : Bindings

/-- The diagnostic of a failure at a place in a source. -/
def Source.failure (source : Source) (error : RuntimeError) (span : Span) : Diagnostic :=
  source.diagnose ⟨error, span⟩

/-- The result of a run of a compiled source.  There is none if a text without a form on the wire
came up. -/
def Source.result (source : Source) (ending : Ending Span) (bindings : Bindings) :
    Option RunResult :=
  match ending.halt with
  | none => some ⟨true, ending.completed, none, none, bindings⟩
  | some (.failed error span) =>
    let d := source.failure error span
    some ⟨false, ending.completed, some d.message, some d, bindings⟩
  | some .unencodable => none

/-- The result of a source that was not run because it has errors. -/
def RunResult.rejected (diagnostics : List Diagnostic) : RunResult :=
  ⟨false, 0, some (Diagnostic.renderAll false diagnostics), diagnostics.head?, []⟩

/-- Compiles a source and runs it on a fresh memory.  There is no result if a token of it cannot be
made, or if a text without a form on the wire comes up. -/
def Source.run (source : Source) (clock : Clock) (channel : Channel) :
    Except Breakage RunResult × World :=
  let fresh : World := { channel := channel }
  match source.compile with
  | .broken cause => (.error cause, fresh)
  | .rejected diagnostics => (.ok (.rejected diagnostics), fresh)
  | .script script =>
    let (ending, w) := script.execute clock fresh
    match source.result ending w.memory.bindings with
    | some result => (.ok result, w)
    | none => (.error .unencodable, w)

end WireScript
