import WireScript.Run.Eval
import WireScript.Text.Utf8

/-!
# Execution

Statements run in order on a memory and a channel, and the first that fails ends the run.  Only
sends and receives touch the channel.
-/

namespace WireScript

/-- What a run works on. -/
structure World where
  memory : Memory := {}
  channel : Channel := {}
  deriving DecidableEq, Inhabited

namespace World

/-- Binds a name to a value from outside of any script. -/
def bind (w : World) (name : Text) (value : Value) : World :=
  { w with memory := { w.memory with bindings := w.memory.bindings.set name value } }

/-- The peer sends more. -/
def feed (w : World) (bytes : List UInt8) : World :=
  { w with channel := { w.channel with incoming := w.channel.incoming ++ bytes } }

end World

/-- Computations on the world of a run.  What they did before the run ended stays done. -/
abbrev Exec (α : Type) := EStateM (Halt α) World

namespace Exec

variable {α β : Type}

/-- Ends the run. -/
def fail (error : RuntimeError) (note : α) : Exec α β :=
  throw (.failed error note)

/-- Evaluates on the memory of the run; that there is no value does not end it. -/
def evaluate (x : Eval α β) : Exec α (Except MatchFailure β) := fun w =>
  match x.attempt w.memory with
  | .ok v m => .ok v { w with memory := m }
  | .error (.halt h) m => .error h { w with memory := m }
  | .error (.noMatch failure) m => .ok (.error failure) { w with memory := m }

/-- Keeps an event for the trace. -/
def record (event : Event) : Exec α Unit :=
  modify fun w => { w with memory := { w.memory with log := event :: w.memory.log } }

/-- The value of an expression that has no text to match, in the statement noted. -/
def operandValue (clock : Clock) (note : α) (e : Expr α) : Exec α Value := do
  match ← evaluate (e.eval clock none) with
  | .ok v => return v
  | .error failure =>
    record (.noValue failure)
    fail .noReceivedText note

/-- Writes a text to the peer, for the statement noted. -/
def send (note : α) (text : Text) : Exec α Unit := do
  match Utf8.encode text with
  | none => throw .unencodable
  | some bytes =>
    let w ← get
    match w.channel.write bytes with
    | .error reason => fail (.writeFailed reason) note
    | .ok channel =>
      set { w with channel := channel }
      record (.sent text)

/-- Reads a line from the peer, for the statement noted. -/
def receive (note : α) : Exec α Text := do
  let w ← get
  let (line, channel) := w.channel.readLine
  set { w with channel := channel }
  match line with
  | .error e => fail (.readFailed e) note
  | .ok bytes =>
    let text := Utf8.decode bytes
    record (.received text)
    return text

end Exec

/-- Runs one statement. -/
def Stmt.execute {α : Type} (clock : Clock) : Stmt α → Exec α Unit
  | .send note e => do
    let v ← Exec.operandValue clock note e
    Exec.send note v.toText
  | .receive note pattern source => do
    let line ← Exec.receive note
    match ← Exec.evaluate (pattern.eval clock (some line)) with
    | .error failure =>
      let content := line.take (line.length - 2)
      if failure.isAmbiguous then Exec.fail (.ambiguousMatch content source) note
      else Exec.fail (.noMatch content source) note
    | .ok v =>
      if v.toText = line then return
      else Exec.fail (.mismatch line v.toText) note
  | .assert note condition source => do
    let v ← Exec.operandValue clock note condition
    if v.toBool then return else Exec.fail (.assertionFailed source) note
  | .expr note e => do
    let _ ← Exec.operandValue clock note e

/-- How a run ended: how many statements completed, and what ended it before the end of the
script. -/
structure Ending (α : Type) where
  completed : Nat
  halt : Option (Halt α)
  deriving DecidableEq

/-- Runs statements in order, after a number of others have completed. -/
def executeFrom {α : Type} (clock : Clock) (completed : Nat) :
    List (Stmt α) → World → Ending α × World
  | [], w => (⟨completed, none⟩, w)
  | s :: rest, w =>
    match s.execute clock w with
    | .ok () w => executeFrom clock (completed + 1) rest w
    | .error h w => (⟨completed, some h⟩, w)

/-- Runs a script. -/
def Script.execute {α : Type} (clock : Clock) (script : Script α) (w : World) :
    Ending α × World :=
  executeFrom clock 0 script.statements w

end WireScript
