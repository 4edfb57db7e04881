import WireScript.Text.Digit
import WireScript.Yaml.Place

/-!
# Scalars

A scalar can be written in three ways:

* plain, which ends at a comment or an indicator and may go on on indented lines;
* between apostrophes, where an apostrophe is doubled;
* between double quotes, with escapes.

Line ends inside of a scalar are folded: one becomes a space, and of several the first is dropped.

Every reader takes a number as `fuel` that is more than the number of code points ahead.
-/

namespace WireScript.Yaml

/-! ## Plain scalars -/

/-- The code points that a plain scalar takes without a break. -/
def plainWord (inFlow : Bool) : Text → Text
  | [] => []
  | p :: rest =>
    let closes := p.is ':' &&
      (endsWord rest.head? || (inFlow && rest.head?.any (·.isIn [',', '[', ']', '{', '}'])))
    if endsWord (some p) || closes || (inFlow && p.isIn [',', '?', '[', ']', '{', '}']) then []
    else p :: plainWord inFlow rest

/-- The code points that a plain scalar takes at a position without a break.  The one after them is
looked at, and the next if that is a colon. -/
def plainWordAt (inFlow : Bool) (c : Place) : Except Fault Text := do
  let word := plainWord inFlow c.rest
  if (← c.peekAt word.length).any (·.is ':') then
    let _ ← c.peekAt (word.length + 1)
  return word

/-- What follows a run of line ends: the text they fold to after the first, and the position after
the indentation.  A line that separates documents ends the scalar. -/
def moreBreaks (c : Place) : Nat → Except Fault (Option (Text × Place))
  | 0 => return some ([], c)
  | fuel + 1 => do
    match c.peek with
    | none => return some ([], c)
    | some p =>
      if p.is ' ' then moreBreaks (← c.step) fuel
      else if isBreak p then
        let d ← c.step
        if ← d.atMarker then return none
        else
          return (← moreBreaks d fuel).map fun (text, after) => (breakText p ++ text, after)
      else return some ([], c)

/-- The first of a run of line ends and the others, folded. -/
def folded (first : CodePoint) (others : Text) : Text :=
  if breakText first != [.scalar '\n'] then breakText first ++ others
  else if others.isEmpty then [.scalar ' ']
  else others

/-- The white space between two words of a plain scalar: what it folds to, the position after it,
and whether it held a line end. -/
def plainGap (c : Place) (fuel : Nat) : Except Fault (Text × Place × Bool) := do
  let spaces ← c.run (·.is ' ')
  let d ← c.skip spaces.length
  match d.peek with
  | some p =>
    if isBreak p then
      let e ← d.step
      if ← e.atMarker then return ([], e, true)
      else match ← moreBreaks e fuel with
        | some (others, after) => return (folded p others, after, true)
        | none => return ([], e, true)
    else return (spaces, d, false)
  | none => return (spaces, d, false)

/-- A scalar that was read. -/
structure ScalarReading where
  text : Text
  after : Place
  /-- Whether a line ended behind the scalar before reading stopped. -/
  endsLine : Bool

/-- Reads on in a plain scalar whose lines after the first are indented by at least `indent`. -/
def plainFrom (inFlow : Bool) (indent : Int) (gap : Text) (c : Place) (endsLine : Bool) :
    Nat → Except Fault ScalarReading
  | 0 => return ⟨[], c, endsLine⟩
  | fuel + 1 => do
    if c.nextIn ['#'] then return ⟨[], c, endsLine⟩
    let word ← plainWordAt inFlow c
    if word.isEmpty then return ⟨[], c, endsLine⟩
    let (next, after, broke) ← plainGap (← c.skip word.length) fuel
    let first := gap ++ word
    if next.isEmpty || after.nextIn ['#'] || (!inFlow && (after.column : Int) < indent) then
      return ⟨first, after, broke⟩
    else
      let others ← plainFrom inFlow indent next after broke fuel
      return { others with text := first ++ others.text }

/-! ## Quoted scalars -/

/-- What the escapes of one letter stand for. -/
def simpleEscape? (p : CodePoint) : Option Text :=
  let table : List (Char × Char) :=
    [('0', '\x00'), ('a', '\x07'), ('b', '\x08'), ('t', '\t'), ('\t', '\t'), ('n', '\n'),
      ('v', '\x0B'), ('f', '\x0C'), ('r', '\r'), ('e', '\x1B'), (' ', ' '), ('"', '"'),
      ('\\', '\\'), ('/', '/'), ('N', '\x85'), ('_', '\xA0'), ('L', '\u2028'), ('P', '\u2029')]
  (table.find? fun (letter, _) => p.is letter).map fun (_, c) => [.scalar c]

/-- How many hexadecimal digits an escape has. -/
def escapeLength? (p : CodePoint) : Option Nat :=
  if p.is 'x' then some 2 else if p.is 'u' then some 4 else if p.is 'U' then some 8 else none

/-- The first number that is too large to be looked at as a code point. -/
def numberLimit : Nat := 0x80000000

/-- The code point of an escape for a number. -/
def codePoint (n : Nat) : Except Obstacle CodePoint :=
  match CodePoint.ofNat? n with
  | some p => .ok p
  | none => .error (if n < numberLimit then .pastCodePoints else .pastNumbers)

/-- The code point of an escape with a number of hexadecimal digits. -/
def numberEscape (c : Place) (length : Nat) : Except Fault CodePoint := do
  let digits := (c.rest.take length).takeWhile fun p => (p.digit? 16).isSome
  if digits.length = length then
    (codePoint (ofDigits 16 (digits.map CodePoint.digitValue))).mapError .obstacle
  else
    let _ ← c.peekAt digits.length
    throw .malformed

/-- The line ends and the indentation in a quoted scalar after a first line end: the text that they
fold to, and the position after them. -/
def quotedBreaks (c : Place) : Nat → Except Fault (Text × Place)
  | 0 => return ([], c)
  | fuel + 1 => do
    if ← c.atMarker then throw .malformed
    let d ← c.skipWhile (·.isIn [' ', '\t'])
    match d.peek with
    | some p =>
      if isBreak p then
        let (text, after) ← quotedBreaks (← d.step) fuel
        return (breakText p ++ text, after)
      else return ([], d)
    | none => return ([], d)

/-- Whether a code point stands for itself in a quoted scalar, wherever it stands. -/
def isOrdinary (p : CodePoint) : Bool :=
  !p.isIn ['\'', '"', '\\', ' ', '\t'] && !isBreak p

/-- Reads on in a quoted scalar. -/
def quotedFrom (double : Bool) (acc : Text) (c : Place) : Nat → Except Fault (Text × Place)
  | 0 => throw .malformed
  | fuel + 1 => do
    let some p := c.peek | throw .malformed
    let quote := if double then '"' else '\''
    if p.is quote then
      if double then return (acc, ← c.step)
      else if (← c.peekNext).any (·.is '\'') then
        quotedFrom double (acc ++ [p]) (← c.skip 2) fuel
      else return (acc, ← c.step)
    else if double && p.is '\\' then
      let c ← c.step
      let some q := c.peek | throw .malformed
      match simpleEscape? q, escapeLength? q with
      | some t, _ => quotedFrom double (acc ++ t) (← c.step) fuel
      | none, some n =>
        let c ← c.step
        let p ← numberEscape c n
        quotedFrom double (acc ++ [p]) (← c.skip n) fuel
      | none, none =>
        if isBreak q then
          let (text, after) ← quotedBreaks (← c.step) fuel
          quotedFrom double (acc ++ text) after fuel
        else throw .malformed
    else if p.isIn ['\'', '"', '\\'] then quotedFrom double (acc ++ [p]) (← c.step) fuel
    else if isOrdinary p then
      let word ← c.run isOrdinary
      quotedFrom double (acc ++ word) (← c.skip word.length) fuel
    else
      let blanks ← c.run (·.isIn [' ', '\t'])
      let d ← c.skip blanks.length
      let some q := d.peek | throw .malformed
      if isBreak q then
        let (others, after) ← quotedBreaks (← d.step) fuel
        quotedFrom double (acc ++ folded q others) after fuel
      else quotedFrom double (acc ++ blanks) d fuel

/-- Reads a quoted scalar that starts with its quote. -/
def quoted (c : Place) (fuel : Nat) : Except Fault (Text × Place) := do
  quotedFrom (c.nextIn ['"']) [] (← c.step) fuel

end WireScript.Yaml
