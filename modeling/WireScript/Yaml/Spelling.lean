import WireScript.Data
import WireScript.Number.Reader
import WireScript.Yaml.Fault

/-!
# Spellings

A plain scalar means null, a truth value, a number, a date or a moment if it is spelled like one,
and itself otherwise.  What is spelled like a number or a date need not be one: an integer may lack
its digits, and a month may lack the day.

Integers and floating point numbers can be written in groups of digits to the base sixty.
-/

namespace WireScript.Yaml

/-- Whether a text is one of the given words. -/
def isOneOf (t : Text) (words : List String) : Bool :=
  words.any fun w => Text.ofString w == t

/-! ## Numbers -/

/-- Whether a text has digits of a base and underscores only, and at least one of them. -/
def isDigits (base : Nat) (t : Text) : Bool :=
  !t.isEmpty && t.all fun p => p.is '_' || (p.digit? base).isSome

/-- The value of digits of a base.  Underscores do not count; with nothing else there is none.  Only
decimal digits can be too many. -/
def digitsIn (base : Nat) (t : Text) : Except Obstacle Nat :=
  match t.filterMap (CodePoint.digit? base) with
  | [] => .error (.noDigits base)
  | digits =>
    if base = 10 ∧ Number.digitLimit < digits.length then .error (.tooManyDigits digits.length)
    else .ok (ofDigits base digits)

/-- Groups of one or two digits below sixty. -/
def sixties? (groups : List Text) : Option (List Nat) :=
  groups.mapM fun g =>
    let n := Number.ofAsciiDigits g
    if !g.isEmpty && g.length ≤ 2 && g.all CodePoint.isDigit && n < 60 then some n else none

/-- The value of what is spelled like an integer without a sign. -/
def magnitude? (t : Text) : Option (Except Obstacle Nat) :=
  let inBase (base : Nat) (digits : Text) : Option (Except Obstacle Nat) :=
    if isDigits base digits then some (digitsIn base digits) else none
  match t with
  | [] => none
  | p :: rest =>
    if p.is '0' then
      match rest with
      | [] => some (.ok 0)
      | q :: digits =>
        if q.is 'b' then inBase 2 digits
        else if q.is 'x' then inBase 16 digits
        else inBase 8 t
    else if p.isDigit then
      match t.pieces ':' with
      | first :: groups => do
        let n ← inBase 10 first
        let groups ← sixties? groups
        return n.map fun n => groups.foldl (fun n g => n * 60 + g) n
      | [] => none
    else none

/-- The value of what is spelled like an integer. -/
def integer? (t : Text) : Option (Except Obstacle Int) := do
  let (negative, body) := Number.splitSign t
  return (← magnitude? body).map fun n => if negative then -(n : Int) else n

/-- The digits and underscores of a text up to another character, without the underscores, and what
follows. -/
def digitRun (t : Text) : Text × Text :=
  let inRun (p : CodePoint) : Bool := p.isDigit || p.is '_'
  ((t.takeWhile inRun).filter CodePoint.isDigit, t.dropWhile inRun)

/-- A number with a point: the digits, the point, and maybe an exponent that has a sign. -/
def pointed? (negative : Bool) (whole : Text) (t : Text) : Option Binary64 := do
  let p :: rest := t | none
  if !p.is '.' then none
  let (fraction, rest) := digitRun rest
  match rest with
  | [] => return Number.Parts.toBinary64 ⟨whole, fraction, 0⟩ negative
  | e :: exponent =>
    let (below, digits) := Number.splitSign exponent
    let signed := exponent.head?.any (·.isIn ['+', '-'])
    if !e.isIn ['e', 'E'] || !signed || digits.isEmpty || !digits.all CodePoint.isDigit then none
    else
      let n : Int := Number.ofAsciiDigits digits
      return Number.Parts.toBinary64 ⟨whole, fraction, if below then -n else n⟩ negative

/-- The sum of a number and of others that count sixty times as much each time, starting with
`weight`; every number, weight, product and sum is rounded. -/
def sumOfSixties (value : Binary64) (weight : Nat) : List Binary64 → Except Obstacle Binary64
  | [] => .ok value
  | x :: rest =>
    match Binary64.ofInt? weight with
    | none => .error .placeTooLarge
    | some w => sumOfSixties (value.addMagnitudes (x.mulMagnitudes w)) (weight * 60) rest

/-- A number in groups to the base sixty, the last of which has a point. -/
def groupedFloat? (negative : Bool) (first : Text) (others : List Text) (fraction : Text) :
    Option (Except Obstacle Binary64) := do
  let (whole, rest) := digitRun first
  let groups ← sixties? others
  let point :: fraction := fraction | none
  let (digits, more) := digitRun fraction
  if !rest.isEmpty || !point.is '.' || !more.isEmpty then none
  else
    let decimal (whole fraction : Text) : Binary64 :=
      Number.Parts.toBinary64 ⟨whole, fraction, 0⟩ false
    let last := decimal (Text.ofNat (groups.getLastD 0)) digits
    let between := groups.dropLast.reverse.map fun n => decimal (Text.ofNat n) []
    let x := sumOfSixties last 60 (between ++ [decimal whole []])
    return x.map fun x => if negative then x.neg else x

/-- The value of what is spelled like a floating point number. -/
def float? (t : Text) : Option (Except Obstacle Binary64) := do
  let (negative, body) := Number.splitSign t
  if isOneOf t [".nan", ".NaN", ".NAN"] then return .ok .nan
  else if isOneOf body [".inf", ".Inf", ".INF"] then return .ok (.infinity negative)
  else
    let p :: rest := body | none
    if p.isDigit then
      let inWhole (p : CodePoint) : Bool := !p.is '.'
      match Text.pieces ':' (body.takeWhile inWhole) with
      | first :: second :: others =>
        groupedFloat? negative first (second :: others) (body.dropWhile inWhole)
      | _ =>
        let (whole, after) := digitRun body
        (pointed? negative whole after).map .ok
    else if p.is '.' && t.head? == some p && rest.head?.any CodePoint.isDigit then
      (pointed? negative [] body).map .ok
    else none

/-! ## Dates and moments -/

/-- A number of as many digits as there are up to a bound, and what follows. -/
def digits? (least most : Nat) (t : Text) : Option (Nat × Text) :=
  let digits := (t.take most).takeWhile CodePoint.isDigit
  if least ≤ digits.length then some (Number.ofAsciiDigits digits, t.drop digits.length) else none

/-- What follows a character at the beginning of a text. -/
def after? (c : Char) : Text → Option Text
  | p :: rest => if p.is c then some rest else none
  | [] => none

/-- The microseconds of a fraction of a second, of which six digits count, and what follows. -/
def microseconds (t : Text) : Nat × Text :=
  match after? '.' t with
  | none => (0, t)
  | some t =>
    let digits := t.takeWhile CodePoint.isDigit
    (Number.ofAsciiDigits ((digits ++ Text.copies 6 '0').take 6), t.drop digits.length)

/-- How many minutes a clock is ahead of universal time, if the text says so. -/
def ahead? (t : Text) : Option (Option Int) :=
  match t.dropWhile (·.is ' ') with
  | [] => if t.isEmpty then some none else none
  | p :: rest =>
    if p.is 'Z' then if rest.isEmpty then some (some 0) else none
    else if p.isIn ['+', '-'] then do
      let (hours, rest) ← digits? 1 2 rest
      let (minutes, rest) ← if rest.isEmpty then some (0, [])
        else do digits? 2 2 (← after? ':' rest)
      let total : Int := hours * 60 + minutes
      if rest.isEmpty then return some (if p.is '-' then -total else total) else none
    else none

/-- What follows the gap between a date and a time: a letter, or spaces. -/
def afterGap? : Text → Option Text
  | [] => none
  | p :: rest =>
    if p.isIn ['T', 't'] then some rest
    else if p.is ' ' then some (rest.dropWhile (·.is ' '))
    else none

/-- The value of what is spelled like a date or a moment.  A date alone has two digits for the month
and the day. -/
def calendar? (t : Text) : Option (Except CalendarFault Data) := do
  let (year, rest) ← digits? 4 4 t
  let (month, rest) ← digits? 1 2 (← after? '-' rest)
  let (day, rest) ← digits? 1 2 (← after? '-' rest)
  if rest.isEmpty then
    if t.length = 10 then return (Date.ofNumbers year month day).map .date else none
  else
    let (hour, rest) ← digits? 1 2 (← afterGap? rest)
    let (minute, rest) ← digits? 2 2 (← after? ':' rest)
    let (second, rest) ← digits? 2 2 (← after? ':' rest)
    let (microsecond, rest) := microseconds rest
    let ahead ← ahead? rest
    return (Moment.ofNumbers year month day hour minute second microsecond ahead).map .moment

/-! ## All scalars -/

/-- The value of a plain scalar.  The two spellings that are reserved have none. -/
def plainValue (t : Text) : Except Fault Data :=
  let orObstacle {α : Type} (x : Except Obstacle α) (make : α → Data) : Except Fault Data :=
    (x.map make).mapError .obstacle
  if isOneOf t ["", "~", "null", "Null", "NULL"] then .ok .null
  else if isOneOf t ["yes", "Yes", "YES", "true", "True", "TRUE", "on", "On", "ON"] then
    .ok (.bool true)
  else if isOneOf t ["no", "No", "NO", "false", "False", "FALSE", "off", "Off", "OFF"] then
    .ok (.bool false)
  else if isOneOf t ["=", "<<"] then .error .malformed
  else match integer? t, float? t, calendar? t with
    | some n, _, _ => orObstacle n .integer
    | none, some x, _ => orObstacle x .float
    | none, none, some d => orObstacle (d.mapError .calendar) id
    | none, none, none => .ok (.text t)

end WireScript.Yaml
