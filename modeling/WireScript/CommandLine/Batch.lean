import WireScript.CommandLine.Invocation
import WireScript.Run.Report
import WireScript.Suite.Load

/-!
# Batches

A batch checks scripts, or runs them in order against a peer, each over a connection of its own, and
stops at the first that does not pass.  What it does is collected in a `Console`: what is printed,
and which connections were made.
-/

namespace WireScript.CommandLine

/-- One connection of a batch. -/
structure Connection where
  written : List UInt8
  result : RunResult

/-- What a batch has done, the latest first, and the peers it has still to meet. -/
structure Console where
  out : List Text := []
  err : List Text := []
  /-- The attempts to connect, with the limit on the time to wait. -/
  attempts : List (Address × Option Limit) := []
  connections : List Connection := []
  /-- What each further peer sends.  When there are none, connections are refused. -/
  peers : List (List UInt8) := []

/-- What breaks a batch off, rather than being one of its results. -/
inductive Crash where
  | suite (error : SuiteError)
  /-- A script that is a directory. -/
  | scriptIsDirectory (path : Path)
  /-- A script whose path is longer than any file's. -/
  | scriptNameTooLong (path : Path)
  /-- A script with a token that cannot be made, or with a text without a form on the wire. -/
  | broken (cause : Breakage)

/-- Why a batch broke off, in words. -/
def Crash.message : Crash → Text
  | suite error => error.message
  | scriptIsDirectory path => "[Errno 21] Is a directory: " ++ path.render.quoted
  | scriptNameTooLong path => "[Errno 36] File name too long: " ++ path.render.quoted
  | broken cause => cause.message

/-- Computations that print and connect. -/
abbrev Batch := EStateM Crash Console

/-- How much of a run to show. -/
inductive Detail where
  | silent
  | traffic
  | everything
  deriving DecidableEq

/-- Whether an event is shown. -/
def Detail.shows (detail : Detail) (e : Event) : Bool :=
  match detail with
  | silent => false
  | traffic => e.isTraffic
  | everything => true

namespace Batch

/-- Prints a line. -/
def print (line : Text) : Batch Unit :=
  modify fun c => { c with out := line :: c.out }

/-- Prints a line about a failure. -/
def complain (line : Text) : Batch Unit :=
  modify fun c => { c with err := line :: c.err }

/-- Prints diagnostics. -/
def complainAll (ds : List Diagnostic) : Batch Unit :=
  ds.forM fun d => complain (d.render true)

/-- The source in a script file, if there is one. -/
def readScript (files : Files) (path : Path) : Batch (Option Source) :=
  match files path with
  | .file bytes => return some ⟨Utf8.decode bytes, some path.render⟩
  | .directory => throw (.scriptIsDirectory path)
  | .nameTooLong => throw (.scriptNameTooLong path)
  | .missing | .notDirectory | .nullInName | .unencodable => do
    complain ("Error: File not found: " ++ path.render)
    return none

/-- Checks one script for errors. -/
def checkScript (files : Files) (path : Path) : Batch Bool := do
  let some source ← readScript files path | return false
  match source.compile with
  | .broken cause => throw (.broken cause)
  | .rejected ds =>
    complainAll ds
    complain (path.render ++ ": " ++ Text.ofNat ds.length ++ " error(s)")
    return false
  | .script script =>
    print ("OK: " ++ path.render ++ " - " ++ Text.ofNat script.statements.length ++
      " statement(s), no errors")
    return true

/-- Checks every script, whatever the others are like. -/
def checkAll (files : Files) : List Path → Batch Bool
  | [] => return true
  | path :: rest => do
    let first ← checkScript files path
    let others ← checkAll files rest
    return first && others

/-- Meets the next peer: the bytes that it sends, unless the connection fails. -/
def connect (address : Text) (limit : Option Limit) : Batch (Except Text (List UInt8)) := do
  match Address.parse address with
  | .error e => return .error e.message
  | .ok a =>
    let c ← get
    let c := { c with attempts := (a, limit) :: c.attempts }
    match c.peers with
    | [] =>
      set c
      return .error "refused"
    | peer :: others =>
      set { c with peers := others }
      return .ok peer

/-- Runs one script over a connection of its own. -/
def runScript (files : Files) (clock : Clock) (detail : Detail) (address : Text)
    (limit : Option Limit) (path : Path) : Batch Bool := do
  let some source ← readScript files path | return false
  match source.compile with
  | .broken cause => throw (.broken cause)
  | .rejected ds =>
    complainAll ds
    complain ("Error: " ++ path.render ++ ": script not run")
    return false
  | .script script =>
    match ← connect address limit with
    | .error reason =>
      complain ("Error: cannot connect to " ++ address ++ ": " ++ reason)
      return false
    | .ok incoming =>
      let (ending, w) := script.execute clock { channel := { incoming := incoming } }
      match source.result ending w.memory.bindings with
      | none => throw (.broken .unencodable)
      | some result =>
        modify fun c => { c with connections := ⟨w.channel.written, result⟩ :: c.connections }
        (w.memory.log.reverse.filter detail.shows).forM fun e => print e.render
        match result.diagnostic with
        | some d =>
          complain (d.render true)
          complain ("FAIL: " ++ path.render ++ " after " ++ Text.ofNat result.completed ++
            " statement(s)")
          return false
        | none =>
          print ("PASS: " ++ path.render ++ " - " ++ Text.ofNat result.completed ++
            " statement(s)")
          return true

/-- Runs scripts in order, up to the first that does not pass.  Each finds a clock of its own. -/
def runAll (files : Files) (detail : Detail) (address : Text) (limit : Option Limit) :
    (Nat → Clock) → List Path → Batch Bool
  | _, [] => return true
  | clocks, path :: rest => do
    if ← runScript files (clocks 0) detail address limit path then
      runAll files detail address limit (fun n => clocks (n + 1)) rest
    else return false

/-- Goes on with a suite or a setting, unless it has a fault, which is printed. -/
def orComplain {α : Type} (x : Except SuiteError α) (next : α → Batch Bool) : Batch Bool :=
  match x with
  | .ok a => next a
  | .error e =>
    match e with
    | .fault .. => do
      complain ("Error: " ++ e.message)
      return false
    | .unprintable | .timeoutTooLarge | .unreadable _ | .nullInPath | .unencodablePath =>
      throw (.suite e)

end Batch

/-- What a program sees of the world outside. -/
structure Surroundings where
  files : Files
  clock : Clock
  /-- The setting that limits the time to wait for a peer, if it is set. -/
  timeout : Option Text

namespace Invocation

/-- The suite file that an invocation names, if it names one. -/
def suiteFile? (i : Invocation) : Option Path :=
  match i.command with
  | .suite file => some (.ofText file)
  | .check _ | .run .. => none

/-- The scripts that an invocation names, in its suite file or itself. -/
def scripts (i : Invocation) (files : Files) (setting : Option Text) : List Path :=
  match i.command with
  | .check names | .run _ names _ => names.map Path.ofText
  | .suite file =>
    match Suite.load files (.ofText file) setting with
    | .ok suite => suite.scripts
    | .error _ => []

/-- Carries out an invocation; the result says whether all went well. -/
def perform (i : Invocation) (s : Surroundings) : Batch Bool :=
  let detail : Detail := if i.verbose then .everything else if i.quiet then .silent else .traffic
  match i.command with
  | .check files => Batch.checkAll s.files (files.map Path.ofText)
  | .run address files limit =>
    let limit : Except SuiteError (Option Limit) := match limit with
      | some limit => .ok (some limit)
      | none => (Timeout.ofSetting s.timeout).map (·.map .seconds)
    Batch.orComplain limit fun limit =>
      Batch.runAll s.files detail address limit (fun _ => s.clock) (files.map Path.ofText)
  | .suite file =>
    Batch.orComplain (Suite.load s.files (.ofText file) s.timeout) fun suite =>
      Batch.runAll s.files detail suite.address (suite.timeout.map .seconds) (fun _ => s.clock)
        suite.scripts

end Invocation

/-- How a program ends. -/
inductive Finish where
  /-- The command line led to a status right away. -/
  | exited (status : Nat)
  | finished (status : Nat) (console : Console)
  | crashed (crash : Crash)

/-- Carries out an invocation to its end, with what each peer will send. -/
def Invocation.finish (i : Invocation) (s : Surroundings) (peers : List (List UInt8)) : Finish :=
  match i.perform s { peers := peers } with
  | .ok passed console => .finished (if passed then 0 else 1) console
  | .error crash _ => .crashed crash

/-- Runs the program on its arguments, with what each peer will send. -/
def program (args : List Text) (s : Surroundings) (peers : List (List UInt8)) : Finish :=
  match Invocation.read args with
  | .error status => .exited status
  | .ok i => i.finish s peers

end WireScript.CommandLine
