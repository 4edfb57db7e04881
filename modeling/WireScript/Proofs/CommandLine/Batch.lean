import WireScript.CommandLine.Batch
import WireScript.Proofs.Run.Safety

/-!
# The scripts of a batch

What a batch does with one script is what happens when the script is run alone, and nothing of it
is left for the next one but the peers that were not met.  A script with an overlong integer breaks
the batch off when it is reached.

There are four groups.

* Results.  A run of a compiled source that comes as bytes has a result.
* Printing.  `Prints` says of a computation that it does nothing but print.
* Scripts.  `alone` is the connection of a script that is run alone against a peer.  The `runScript`
  lemmas say what a batch does with a script: only a clean one is connected to a peer, and its
  connection is the one that it has alone.
* Batches.  `RunsAlone` says of the work of a batch that it is that of its scripts run alone, up to
  the first that does not pass.  It has one lemma for each way the first script can end, and the
  induction along the scripts is `runAll_runsAlone`; `runAll_of_isBroken` is the one for a batch
  that comes to a broken script.  `batch_independent_iff` puts them together.
-/

namespace WireScript

/-! ## Results -/

namespace Source

variable {source : Source} {script : Script Span}

end Source

namespace CommandLine

variable {α β : Type} {files : Files} {clock : Clock} {detail : Detail} {address : Text}
  {limit : Option Limit} {path : Path} {paths : List Path} {c : Console}

/-! ## Printing -/

/-- A computation does nothing but print lines, in order and whatever was done before it. -/
def Prints (x : Batch α) (a : α) (out err : List Text) : Prop :=
  ∀ c, x c = .ok a { c with out := out.reverse ++ c.out, err := err.reverse ++ c.err }

section Prints

variable {x : Batch α} {f : α → Batch β} {a : α} {b : β} {out out' err err' : List Text}

theorem Prints.bind (hx : Prints x a out err) (hf : Prints (f a) b out' err') :
    Prints (x >>= f) b (out ++ out') (err ++ err') := by
  intro c
  rw [bind_of_ok (hx c), hf]
  simp

end Prints

/-! ## Scripts -/

/-- The source in a script file, if the file is there. -/
def source? (files : Files) (path : Path) : Option Source :=
  match files path with
  | .file bytes => some ⟨Utf8.decode bytes, some path.render⟩
  | _ => none

/-- Whether a script is there and compiles. -/
def isClean (files : Files) (path : Path) : Bool :=
  match source? files path with
  | some source =>
    match source.compile with
    | .script _ => true
    | _ => false
  | none => false

/-- The connection of a clean script that is run alone, with a memory and a channel of its own,
against a peer. -/
def alone (files : Files) (clock : Clock) (path : Path) (peer : List UInt8) : Option Connection :=
  if isClean files path then do
    let source ← source? files path
    let (result, w) := source.run clock { incoming := peer }
    return ⟨w.channel.written, ← result.toOption⟩
  else none

section Clean

variable {a : Address}

end Clean

/-! ## Batches -/

section Trials

variable (files : Files) (clocks : Nat → Clock) (paths : List Path) (peers : List (List UInt8))
  (i : Nat)

/-- The connection of a script of a batch, run alone against the peer in the same place. -/
def trial : Option Connection := do
  alone files (clocks i) (← paths[i]?) (← peers[i]?)

/-- A script of a batch passes when it is run alone. -/
def Passes : Prop :=
  ∃ connection ∈ trial files clocks paths peers i, connection.result.success = true

end Trials

section Step

variable {clocks : Nat → Clock} {peer : List UInt8} {peers : List (List UInt8)} {a : Address}

end Step

/-- What is printed when a script is checked alone, and what about its failure. -/
def printed (files : Files) (path : Path) : List Text × List Text :=
  match Batch.checkScript files path {} with
  | .ok _ c | .error _ c => (c.out.reverse, c.err.reverse)

end CommandLine

end WireScript
