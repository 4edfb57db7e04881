import WireScript.Data
import WireScript.Peer.Address
import WireScript.Suite.Path
import WireScript.Yaml.Fault

/-!
# Suites

A suite names a peer and the scripts to run against it, and may limit the time to wait for the peer.
It is described by a mapping; the limit can also come from a setting outside of it.  A description
is checked in a fixed order, and the first fault counts.
-/

namespace WireScript

/-- A time in seconds to wait for a peer; without one there is no limit. -/
abbrev Timeout := Option Binary64

/-- The name of the setting that limits the time when a suite does not. -/
def timeoutSetting : Text := "PEST_TIMEOUT"

/-- What is wrong with a suite or a setting, with the printed form of what a message shows. -/
inductive SuiteFault where
  /-- The file cannot be read. -/
  | unreadable (reason : Text)
  | invalidYaml
  | notMapping
  | noAddress
  | badAddress (error : AddressError)
  | noScripts
  | badScript (printed : Text)
  | timeoutNotNumber (printed : Text)
  | timeoutNotPositive (printed : Text)

/-- A fault in words. -/
def SuiteFault.message : SuiteFault → Text
  | unreadable reason => reason
  | invalidYaml => "invalid YAML"
  | notMapping => "expected a mapping at top level"
  | noAddress => "'address' (host:port) is required"
  | badAddress error => error.message
  | noScripts => "'scripts' must be a non-empty list"
  | badScript printed => "script entries must be paths, got " ++ printed
  | timeoutNotNumber printed => "timeout must be a number of seconds, got " ++ printed
  | timeoutNotPositive printed => "timeout must be positive, got " ++ printed

/-- Why there is no suite. -/
inductive SuiteError where
  /-- A fault, and the name of what has it. -/
  | fault (place : Text) (cause : SuiteFault)
  /-- A value that a message would show holds an integer of too many digits. -/
  | unprintable
  /-- The time to wait is an integer beyond all floating point numbers. -/
  | timeoutTooLarge
  /-- Something in the file stops its reading. -/
  | unreadable (cause : Yaml.Obstacle)
  /-- The path of the file holds a null character. -/
  | nullInPath
  /-- The path of the file holds a code point without a form on the wire. -/
  | unencodablePath

/-- Why there is no suite, in words. -/
def SuiteError.message : SuiteError → Text
  | fault place cause => place ++ ": " ++ cause.message
  | unprintable => Number.overlong
  | timeoutTooLarge => "int too large to convert to float"
  | unreadable cause => cause.message
  | nullInPath => "embedded null byte"
  | unencodablePath => "surrogates not allowed"

/-- A fault whose message shows a value. -/
def SuiteError.showing (place : Text) (cause : Text → SuiteFault) (given : Data) : SuiteError :=
  given.render?.elim unprintable fun printed => fault place (cause printed)

namespace Timeout

/-- The number that a value gives as a time: `none` if it is no number. -/
def seconds? (given : Data) : Except SuiteError (Option Binary64) :=
  match given with
  | .bool b => .ok (some (.ofRatio false (if b then 1 else 0) 1))
  | .integer n => (Binary64.ofInt? n).elim (.error .timeoutTooLarge) fun x => .ok (some x)
  | .float x => .ok (some x)
  | .text t => .ok (Number.binary64? t)
  | .null | .date _ | .moment _ | .list _ | .mapping _ => .ok none

/-- Reads a time to wait; null is no limit. -/
def ofData (place : Text) (given : Data) : Except SuiteError Timeout := do
  match given with
  | .null => return none
  | _ =>
    match ← seconds? given with
    | none => throw (.showing place .timeoutNotNumber given)
    | some x =>
      if x.isAtMostZero then throw (.showing place .timeoutNotPositive given) else return some x

/-- The limit that the setting gives; unset or blank it gives none. -/
def ofSetting (setting : Option Text) : Except SuiteError Timeout :=
  let raw := (setting.getD []).stripped
  if raw.isEmpty then .ok none else ofData timeoutSetting (.text raw)

end Timeout

/-- A suite: a peer, the scripts to run against it in order, and how long to wait for it. -/
structure Suite where
  address : Text
  scripts : List Path
  timeout : Timeout

namespace Suite

/-- The paths of script entries, relative to a directory. -/
def scriptPaths (place : Text) (base : Path) : List Data → Except SuiteError (List Path)
  | [] => .ok []
  | .text entry :: rest => do
    return base.join (.ofText entry) :: (← scriptPaths place base rest)
  | entry :: _ => .error (.showing place .badScript entry)

/-- Reads the description of a suite.  `place` names it in errors, `base` is the directory of its
scripts, and `setting` limits the time if the description does not mention it. -/
def ofData (place : Text) (base : Path) (setting : Option Text) (data : Data) :
    Except SuiteError Suite := do
  let .mapping entries := data | throw (.fault place .notMapping)
  let some (.text address) := Data.get? "address" entries | throw (.fault place .noAddress)
  if address.isEmpty then throw (.fault place .noAddress)
  match Address.parse address with
  | .error e => throw (.fault place (.badAddress e))
  | .ok _ => pure ()
  let some (.list scripts) := Data.get? "scripts" entries | throw (.fault place .noScripts)
  if scripts.isEmpty then throw (.fault place .noScripts)
  let paths ← scriptPaths place base scripts
  let timeout ← match Data.get? "timeout" entries with
    | some given => Timeout.ofData place given
    | none => Timeout.ofSetting setting
  return ⟨address, paths, timeout⟩

end Suite

end WireScript
