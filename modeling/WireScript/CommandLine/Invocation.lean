import WireScript.CommandLine.Switch
import WireScript.Number.Reader

/-!
# Invocations

The command line has three commands, each with arguments and switches of its own, and switches for
all of them in front.  A command line that asks for help or makes no sense leads to an exit status
right away.  Arguments are dealt with from left to right, so help that is asked for before a mistake
is given all the same; only an argument that may mean several switches is noticed beforehand.
-/

namespace WireScript.CommandLine

/-- A limit on the time to wait for a peer. -/
inductive Limit where
  | seconds (x : Binary64)
  /-- The separator in the place of a number: there is a limit, but no number for it. -/
  | blank
  deriving DecidableEq

/-- What to do. -/
inductive Command where
  | check (files : List Text)
  | run (address : Text) (files : List Text) (timeout : Option Limit)
  | suite (file : Text)

/-- A command and how much of its work to show. -/
structure Invocation where
  verbose : Bool
  quiet : Bool
  command : Command

/-- The settings in front of the command. -/
inductive GlobalSetting where
  | help
  | verbose
  | quiet
  deriving DecidableEq

/-- The settings of a command. -/
inductive CommandSetting where
  | help
  | timeout
  deriving DecidableEq

/-- The switches in front of the command. -/
def globalSwitches : List (Switch GlobalSetting) :=
  [⟨.help, 'h', "help", false⟩, ⟨.verbose, 'v', "verbose", false⟩, ⟨.quiet, 'q', "quiet", false⟩]

/-- The switch that every command has. -/
def helpSwitch : Switch CommandSetting := ⟨.help, 'h', "help", false⟩

/-- The switch that limits the time to wait for a peer. -/
def timeoutSwitch : Switch CommandSetting := ⟨.timeout, 't', "timeout", true⟩

/-- The status of a command line that makes no sense. -/
def usageStatus : Nat := 2

/-- What was read of the arguments of a command. -/
structure CommandReading where
  /-- The words of each place. -/
  words : List (List Text) := []
  /-- The places without words. -/
  places : List Arity
  timeout : Option Limit := none
  /-- Whether there was an argument that has no place. -/
  surplus : Bool := false

/-- Reads a limit. -/
def Limit.ofText? (t : Text) : Option Limit :=
  if t = Text.ofString "--" then some blank else (Number.binary64? t).map seconds

/-- Puts settings of a command into effect in order. -/
def CommandReading.apply (r : CommandReading) :
    List (CommandSetting × Option Text) → Except Nat CommandReading
  | [] => .ok r
  | (.help, _) :: _ => .error 0
  | (.timeout, value) :: rest =>
    match Limit.ofText? (value.getD []) with
    | some limit => apply { r with timeout := some limit } rest
    | none => .error usageStatus

/-- What was read of the arguments of a command after a switch, and the arguments still to be
read. -/
def CommandReading.choose (r : CommandReading) (choice : Option (Choice CommandSetting)) :
    Except Nat (CommandReading × List (Argument CommandSetting)) := do
  let some choice := choice | throw usageStatus
  return (← r.apply choice.settings, choice.rest)

/-- Reads the arguments of a command; `fuel` bounds their number. -/
def readCommand (switches : List (Switch CommandSetting)) (r : CommandReading) :
    Nat → List (Argument CommandSetting) → Except Nat CommandReading
  | 0, _ => .ok r
  | fuel + 1, args =>
    match args with
    | [] => .ok r
    | .unknown :: rest => readCommand switches { r with surplus := true } fuel rest
    | .short s tail :: rest => do
      let (r, rest) ← r.choose (chooseShort switches rest s tail)
      readCommand switches r fuel rest
    | .long s value :: rest => do
      let (r, rest) ← r.choose (chooseLong rest s value)
      readCommand switches r fuel rest
    | .word _ :: _ | .separator :: _ =>
      match consume args r.places with
      | ([], _, _) =>
        readCommand switches { r with surplus := true } fuel (args.dropWhile (·.isPlain))
      | (words, places, rest) =>
        readCommand switches { r with words := r.words ++ words, places := places } fuel rest

/-- Reads the arguments of a command with the given places for words. -/
def commandArguments (switches : List (Switch CommandSetting)) (places : List Arity)
    (args : List Text) : Except Nat CommandReading :=
  match Argument.ofTexts? switches args with
  | none => .error usageStatus
  | some args => do
    let r ← readCommand switches { places := places } (args.length + 1) args
    if r.places.isEmpty then return r else throw usageStatus

/-- Reads a command by its name, and whether it had an argument without a place. -/
def readNamed (name : Text) (args : List Text) : Except Nat (Command × Bool) :=
  if name = Text.ofString "check" then do
    let r ← commandArguments [helpSwitch] [.many] args
    return (.check r.words.flatten, r.surplus)
  else if name = Text.ofString "run" then do
    let r ← commandArguments [helpSwitch, timeoutSwitch] [.one, .many] args
    match r.words with
    | address :: files => return (.run address.flatten files.flatten r.timeout, r.surplus)
    | [] => throw usageStatus
  else if name = Text.ofString "suite" then do
    let r ← commandArguments [helpSwitch] [.one] args
    return (.suite r.words.flatten.flatten, r.surplus)
  else .error usageStatus

/-- What was read in front of the command. -/
structure GlobalReading where
  verbose : Bool := false
  quiet : Bool := false
  surplus : Bool := false

/-- Puts settings in front of the command into effect in order. -/
def GlobalReading.apply (r : GlobalReading) :
    List (GlobalSetting × Option Text) → Except Nat GlobalReading
  | [] => .ok r
  | (.help, _) :: _ => .error 0
  | (.verbose, _) :: rest => apply { r with verbose := true } rest
  | (.quiet, _) :: rest => apply { r with quiet := true } rest

/-- What was read in front of the command after a switch. -/
def GlobalReading.choose (r : GlobalReading) (choice : Option (Choice GlobalSetting)) :
    Except Nat GlobalReading := do
  let some choice := choice | throw usageStatus
  r.apply choice.settings

/-- Reads on in a command line, given its arguments both as they were written and as what they are
in front of a command.  No switch there takes a value. -/
def readFrom (r : GlobalReading) :
    List (Text × Argument GlobalSetting) → Except Nat Invocation
  | [] => .error usageStatus
  | (_, .unknown) :: rest => readFrom { r with surplus := true } rest
  | (_, .short s tail) :: rest => do
    readFrom (← r.choose (chooseShort globalSwitches [] s tail)) rest
  | (_, .long s value) :: rest => do
    readFrom (← r.choose (chooseLong [] s value)) rest
  | (_, .separator) :: _ => .error usageStatus
  | (_, .word name) :: rest => do
    let (command, surplus) ← readNamed name (rest.map (·.1))
    if r.surplus || surplus then throw usageStatus
    else return ⟨r.verbose, r.quiet, command⟩

/-- Reads a command line; an error is the status to exit with. -/
def Invocation.read (args : List Text) : Except Nat Invocation :=
  match Argument.ofTexts? globalSwitches args with
  | none => .error usageStatus
  | some arguments => readFrom {} (args.zip arguments)

end WireScript.CommandLine
