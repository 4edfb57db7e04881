import WireScript.Suite.Basic
import WireScript.Suite.Files
import WireScript.Yaml.Document

/-!
# Loading suites

A suite file is a YAML document.  An empty document describes an empty mapping, and the scripts are
looked for beside the file.
-/

namespace WireScript.Suite

/-- The value of a YAML file. -/
def readFile (files : Files) (path : Path) : Except SuiteError Data :=
  let fault (cause : SuiteFault) : Except SuiteError Data := .error (.fault path.render cause)
  match files path with
  | .missing => fault (.unreadable "No such file or directory")
  | .directory => fault (.unreadable "Is a directory")
  | .notDirectory => fault (.unreadable "Not a directory")
  | .nameTooLong => fault (.unreadable "File name too long")
  | .nullInName => .error .nullInPath
  | .unencodable => .error .unencodablePath
  | .file bytes =>
    match Yaml.read bytes with
    | .ok data => .ok data
    | .error .malformed => fault .invalidYaml
    | .error (.obstacle cause) => .error (.unreadable cause)

/-- Loads a suite file; `setting` limits the time if the file does not mention it. -/
def load (files : Files) (path : Path) (setting : Option Text) : Except SuiteError Suite := do
  let data ← readFile files path
  ofData path.render path.parent setting (if data.isEmpty then .mapping [] else data)

end WireScript.Suite
