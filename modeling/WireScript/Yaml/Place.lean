import WireScript.Text.Portion
import WireScript.Yaml.Fault

/-!
# Reading positions in YAML

Indentation matters in YAML, so a reading position knows its column.  More characters end a line
than in a script: the next line and the two Unicode separators do too.  The module also says which
characters a document may hold at all.

The portions of a document are read when they are wanted, so a fault of a late portion shows only if
nothing in front of it is wrong.  A position knows of such a fault as the tear at which the text
ends: what lies behind it can only be asked for with that fault as the answer.
-/

namespace WireScript.Yaml

/-- Whether a code point ends a line. -/
def isBreak (p : CodePoint) : Bool :=
  p.isIn ['\n', '\x85', '\u2028', '\u2029']

/-- What a line end stands for in a text that spans lines. -/
def breakText (p : CodePoint) : Text :=
  if p.isIn ['\u2028', '\u2029'] then [p] else [.scalar '\n']

/-- Whether a code point, or the end of the document, ends a word. -/
def endsWord (p : Option CodePoint) : Bool :=
  match p with
  | none => true
  | some p => p.isIn [' ', '\t'] || isBreak p

/-- Whether a document may hold a code point. -/
def isAllowed (p : CodePoint) : Bool :=
  let n := p.toNat
  p.isIn ['\t', '\n', '\x85'] || (0x20 ≤ n && n ≤ 0x7E) || (0xA0 ≤ n && n ≤ 0xD7FF) ||
    (0xE000 ≤ n && n ≤ 0xFFFD) || (0x10000 ≤ n && n ≤ 0x10FFFF)

/-- A reading position: the text ahead, and where it starts. -/
structure Place where
  rest : Text
  /-- What shows when the text ahead is not enough. -/
  tear : Option Fault := none
  line : Nat := 0
  column : Nat := 0
  offset : Nat := 0

namespace Place

/-- The next code point. -/
def peek (c : Place) : Option CodePoint := c.rest.head?

/-- The code point a number of code points further, unless the document has ended before. -/
def peekAt (c : Place) (n : Nat) : Except Fault (Option CodePoint) :=
  match c.rest[n]?, c.tear with
  | some p, _ => return some p
  | none, none => return none
  | none, some fault => throw fault

/-- The code point after the next. -/
def peekNext (c : Place) : Except Fault (Option CodePoint) := c.peekAt 1

/-- Whether the next code point is one of the given characters. -/
def nextIn (c : Place) (cs : List Char) : Bool := c.peek.any (·.isIn cs)

/-- The position after the next code point, wherever that is.  A byte order mark takes no column. -/
def advance (c : Place) : Place :=
  match c.rest with
  | [] => c
  | p :: rest =>
    let c := { c with rest := rest, offset := c.offset + 1 }
    if isBreak p then { c with line := c.line + 1, column := 0 }
    else if p.is '\ufeff' then c
    else { c with column := c.column + 1 }

/-- The position a number of code points further.  The code point there is looked at. -/
def skip (c : Place) (n : Nat) : Except Fault Place := do
  let _ ← c.peekAt n
  return n.repeat advance c

/-- The position after the next code point. -/
def step (c : Place) : Except Fault Place := c.skip 1

/-- The code points ahead that satisfy a predicate.  The one after them is looked at. -/
def run (c : Place) (p : CodePoint → Bool) : Except Fault Text := do
  let t := c.rest.takeWhile p
  let _ ← c.peekAt t.length
  return t

/-- The position after the code points ahead that satisfy a predicate. -/
def skipWhile (c : Place) (p : CodePoint → Bool) : Except Fault Place := do
  c.skip (← c.run p).length

/-- Whether a line that starts here separates documents. -/
def atMarker (c : Place) : Except Fault Bool := do
  let _ ← c.peekAt 2
  if c.rest.take 3 == Text.ofString "---" || c.rest.take 3 == Text.ofString "..." then
    return endsWord (← c.peekAt 3)
  else return false

/-- The text of the portions up to the first that a document may not hold, and the fault behind
it. -/
def join (last : Option Fault) : List Text → Text × Option Fault
  | [] => ([], last)
  | part :: rest =>
    if part.all isAllowed then
      let (t, tear) := join last rest
      (part ++ t, tear)
    else ([], some .malformed)

/-- The start of a document.  Two portions are read at once, and with a fault in them there is no
start.  A byte order mark in front does not belong to the document. -/
def start (bytes : List UInt8) : Except Fault Place := do
  let (portions, fault) := Text.portions bytes
  let fault := fault.map fun f => Fault.obstacle (.undecodable f)
  if portions.length < 2 then
    match fault with
    | some fault => throw fault
    | none => pure ()
  if !(portions.take 2).all (·.all isAllowed) then throw .malformed
  let (t, tear) := join fault portions
  let c : Place := { rest := t, tear := tear }
  return if c.nextIn ['\ufeff'] then c.advance else c

end Place

end WireScript.Yaml
