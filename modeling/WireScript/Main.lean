import Std.Time.DateTime.Timestamp
import WireScript.CommandLine.Batch

/-!
# The program

The program gathers what it may look at, lets `CommandLine.program` work on that, and prints the
outcome.  A peer is a recording: every connection meets a peer that sends the bytes on standard
input and then closes, and the trace shows what was sent to it.
-/

namespace WireScript.CommandLine

/-- A text as a string, in which what is no character shows as a replacement character. -/
def shown (t : Text) : String :=
  String.ofList (t.map fun p => p.char?.getD '\ufffd')

/-- Prints lines, given the latest first. -/
def printLines (stream : IO.FS.Stream) (lines : List Text) : IO Unit :=
  lines.reverse.forM fun line => stream.putStrLn (shown line)

/-- The error code of reading a directory as if it were a file. -/
def directoryCode : UInt32 := 21

/-- What is found at a path. -/
def findEntry (path : Path) : IO FileEntry := do
  if let some entry := path.impossible? then return entry
  try
    let bytes ← IO.FS.readBinFile (shown path.render)
    return .file bytes.toList
  catch
    | .noFileOrDirectory .. => return .missing
    | .inappropriateType _ code _ =>
      return if code = directoryCode then .directory else .notDirectory
    | .invalidArgument .. => return .nameTooLong
    | e => throw e

/-- A view of the files with the given paths. -/
def viewFiles (paths : List Path) : IO Files := do
  let entries ← paths.mapM fun path => do return (path, ← findEntry path)
  return fun path => (entries.lookup path).getD .missing

/-- How the program is called. -/
def usage : String :=
  "usage: [-h] [-v] [-q] (check FILE... | run [-t SECONDS] ADDRESS FILE... | suite FILE)"

/-- Carries out an invocation on the files, settings and clock at hand; the result is the exit
status. -/
def carryOut (i : Invocation) : IO UInt32 := do
  let setting := (← IO.getEnv (shown timeoutSetting)).map Text.ofString
  let suites := i.suiteFile?.toList
  let scripts := i.scripts (← viewFiles suites) setting
  let files ← viewFiles (suites ++ scripts)
  let recording ← match i.command with
    | .check _ => pure ByteArray.empty
    | .run .. | .suite _ => (← IO.getStdin).readBinToEnd
  let now := (← Std.Time.Timestamp.now).toNanosecondsSinceUnixEpoch.val
  let peers := scripts.map fun _ => recording.toList
  let stderr ← IO.getStderr
  match i.finish ⟨files, fun n => now + n, setting⟩ peers with
  | .exited status => return UInt32.ofNat status
  | .finished status console =>
    printLines (← IO.getStdout) console.out
    printLines stderr console.err
    return UInt32.ofNat status
  | .crashed crash =>
    printLines stderr [crash.message]
    return 1

end WireScript.CommandLine

open WireScript CommandLine in
/-- Runs the program on its arguments. -/
def main (args : List String) : IO UInt32 := do
  match Invocation.read (args.map Text.ofString) with
  | .ok i => carryOut i
  | .error status =>
    (← if status = 0 then IO.getStdout else IO.getStderr).putStrLn usage
    return UInt32.ofNat status
