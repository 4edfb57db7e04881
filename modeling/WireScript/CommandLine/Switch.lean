import WireScript.Text.Digit

/-!
# Switches

A switch is an option of a command line.  It has a letter, written behind one dash, and a word,
written behind two.  The word may be cut short as long as it stays the beginning of no other.  The
value of a switch stands behind an equals sign, directly behind the letter, or in the next argument,
and letters of switches without a value can share a dash.

The definitions come in three groups: `Argument.ofTexts?` says what each argument is, `chooseShort`
and `chooseLong` read a switch with its value, and `consume` shares out the arguments that are no
switches.  Letters that share a dash are read together, so if one of them is no switch's, all of
them are refused.
-/

namespace WireScript.CommandLine

/-- A switch, standing for a setting of type `ι`. -/
structure Switch (ι : Type) where
  setting : ι
  letter : Char
  word : Text
  takesValue : Bool

/-- An argument of a command line. -/
inductive Argument (ι : Type) where
  | word (text : Text)
  /-- Two dashes alone: no argument after them is a switch. -/
  | separator
  /-- A switch by its letter, and the text behind the letter or behind an equals sign after it, if
  there is any. -/
  | short (switch : Switch ι) (tail : Option Text)
  /-- A switch by its word, and what stands behind an equals sign, if there is one. -/
  | long (switch : Switch ι) (value : Option Text)
  /-- What looks like a switch and is none. -/
  | unknown
  deriving Inhabited

namespace Argument

variable {ι : Type}

/-- Whether an argument has the place of a word, not of a switch. -/
def isPlain : Argument ι → Bool
  | word _ | separator => true
  | short .. | long .. | unknown => false

/-- Whether an argument is the separator. -/
def isSeparator : Argument ι → Bool
  | separator => true
  | _ => false

/-- The text of an argument that has the place of a word. -/
def text : Argument ι → Text
  | word t => t
  | separator => "--"
  | short .. | long .. | unknown => []

/-- A text up to its first equals sign, and what stands behind that sign. -/
def splitEquals (t : Text) : Text × Option Text :=
  match t.dropWhile fun p => !p.is '=' with
  | _ :: value => (t.takeWhile fun p => !p.is '=', some value)
  | [] => (t, none)

/-- The switches that a word may mean: the one that has it, or all that begin with it. -/
def meant (switches : List (Switch ι)) (word : Text) : List (Switch ι) :=
  match switches.find? (·.word == word) with
  | some s => [s]
  | none => switches.filter fun s => word.isPrefixOf s.word

/-- The switch with a letter. -/
def lettered? (switches : List (Switch ι)) (p : CodePoint) : Option (Switch ι) :=
  switches.find? fun s => p.is s.letter

/-- Whether a text is a number without its sign: digits, and maybe a point with digits behind it.  A
line feed at the end does not count. -/
def isNumber (t : Text) : Bool :=
  let isDigit (p : CodePoint) : Bool := p.decimalDigit?.isSome
  let t := if t.getLast? == some (.scalar '\n') then t.dropLast else t
  match t.dropWhile isDigit with
  | [] => !t.isEmpty
  | p :: digits => p.is '.' && !digits.isEmpty && digits.all isDigit

/-- What an argument with a dash is that means no switch, given what stands behind the dash.
Negative numbers and texts with spaces are words. -/
def strange (body : Text) : Argument ι :=
  if isNumber body || body.any (·.is ' ') then word (.scalar '-' :: body) else unknown

/-- What an argument is; nothing if it may mean several switches. -/
def ofText? (switches : List (Switch ι)) (t : Text) : Option (Argument ι) :=
  match t with
  | .scalar '-' :: .scalar '-' :: body =>
    let (name, value) := splitEquals body
    match meant switches name with
    | [] => some (strange (.scalar '-' :: body))
    | [s] => some (long s value)
    | _ => none
  | .scalar '-' :: p :: tail =>
    match lettered? switches p, tail with
    | some s, [] => some (short s none)
    | some s, q :: value => some (short s (some (if q.is '=' then value else tail)))
    | none, _ => some (strange (p :: tail))
  | _ => some (word t)

/-- What the arguments of a command line are. -/
def ofTexts? (switches : List (Switch ι)) : List Text → Option (List (Argument ι))
  | [] => some []
  | t :: rest =>
    if t = Text.ofString "--" then some (separator :: rest.map word)
    else do return (← ofText? switches t) :: (← ofTexts? switches rest)

end Argument

/-! ## Values of switches -/

/-- What a switch, and the letters that share its dash, choose. -/
structure Choice (ι : Type) where
  /-- Each setting, with its value if it has one. -/
  settings : List (ι × Option Text)
  /-- The arguments that are left. -/
  rest : List (Argument ι)

/-- The choice of a switch whose value, if it takes one, is the next argument. -/
def chooseApart {ι : Type} (rest : List (Argument ι)) (s : Switch ι) : Option (Choice ι) :=
  if s.takesValue then
    match rest with
    | .word value :: rest => some ⟨[(s.setting, some value)], rest⟩
    | _ => none
  else some ⟨[(s.setting, none)], rest⟩

/-- The choice of a switch with a text behind it: its value, or the letters of more switches. -/
def chooseJoined {ι : Type} (switches : List (Switch ι)) (rest : List (Argument ι))
    (s : Switch ι) : Text → Option (Choice ι)
  | [] => if s.takesValue then some ⟨[(s.setting, some [])], rest⟩ else none
  | p :: tail =>
    if s.takesValue then some ⟨[(s.setting, some (p :: tail))], rest⟩
    else do
      let next ← Argument.lettered? switches p
      let others ← if tail.isEmpty then chooseApart rest next
        else chooseJoined switches rest next tail
      return { others with settings := (s.setting, none) :: others.settings }

/-- The choice of a switch by its letter. -/
def chooseShort {ι : Type} (switches : List (Switch ι)) (rest : List (Argument ι))
    (s : Switch ι) : Option Text → Option (Choice ι)
  | none => chooseApart rest s
  | some t => chooseJoined switches rest s t

/-- The choice of a switch by its word. -/
def chooseLong {ι : Type} (rest : List (Argument ι)) (s : Switch ι) :
    Option Text → Option (Choice ι)
  | none => chooseApart rest s
  | some value => if s.takesValue then some ⟨[(s.setting, some value)], rest⟩ else none

/-! ## Words -/

/-- How many words a place on the command line takes. -/
inductive Arity where
  | one
  /-- At least one, and all that come in a row. -/
  | many
  deriving DecidableEq

/-- Words for one place, and the arguments after them.  The separator goes with the words beside
it. -/
def takeWords {ι : Type} (arity : Arity) (args : List (Argument ι)) :
    Option (List Text × List (Argument ι)) :=
  let lead := args.takeWhile (·.isSeparator)
  match args.dropWhile (·.isSeparator) with
  | .word t :: rest =>
    let inRun (a : Argument ι) : Bool := match arity with
      | .one => a.isSeparator
      | .many => a.isPlain
    let texts := lead.map (·.text) ++ t :: (rest.takeWhile inRun).map (·.text)
    some (texts.erase "--", rest.dropWhile inRun)
  | _ => none

/-- Words for as many places as there are words for: the words of each place, the places left over,
and the arguments left over. -/
def consume {ι : Type} (args : List (Argument ι)) :
    List Arity → List (List Text) × List Arity × List (Argument ι)
  | [] => ([], [], args)
  | arity :: others =>
    match takeWords arity args with
    | none => ([], arity :: others, args)
    | some (texts, rest) =>
      let (more, left, rest) := consume rest others
      (texts :: more, left, rest)

end WireScript.CommandLine
