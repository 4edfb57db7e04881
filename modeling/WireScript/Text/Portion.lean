import WireScript.Number.Binary64
import WireScript.Text.Utf8

/-!
# Text in portions

The text of a file is handed out in portions.  For every portion bytes are taken in chunks and read
as UTF-8, and carriage returns become line feeds, until there is text enough.  What a chunk ends
with may wait for the next one: the first bytes of a character, or a carriage return that a line
feed may follow.  So a fault is known by its offset in its chunk with the bytes that waited in
front.
-/

namespace WireScript

/-- A file that is being read as text. -/
structure Intake where
  /-- The bytes that were not taken. -/
  bytes : List UInt8
  /-- The bytes taken that wait for the rest of a character. -/
  cut : List UInt8 := []
  /-- Whether a carriage return was taken that waits for what follows. -/
  afterReturn : Bool := false
  /-- The text that was not handed out. -/
  ready : Text := []
  /-- How many bytes of the latest chunk made one code point. -/
  density : Binary64 := .finite false 0

namespace Intake

/-- How many bytes a chunk has at least, if there are so many. -/
def chunkSize : Nat := 8192

/-- How many code points a portion has, except for the last. -/
def portionSize : Nat := 4096

/-- A text in which every carriage return, alone or with a line feed, is a line feed. -/
def unifyBreaks : Text → Text
  | [] => []
  | p :: rest =>
    if p.is '\r' then
      if rest.head? == some (.scalar '\n') then unifyBreaks rest
      else .scalar '\n' :: unifyBreaks rest
    else p :: unifyBreaks rest

/-- The text that a chunk makes ready, given what its bytes were read as, and whether it leaves a
carriage return to wait. -/
def settle (afterReturn isLast : Bool) (t : Text) : Text × Bool :=
  let carriage : CodePoint := .scalar '\r'
  if t.isEmpty && !isLast then ([], afterReturn)
  else
    let t := if afterReturn then carriage :: t else t
    if !isLast && t.getLast? == some carriage then (unifyBreaks t.dropLast, true)
    else (unifyBreaks t, false)

/-- Takes a chunk that is long enough for some code points, going by the chunk before; nothing, if
there is nothing left. -/
def takeChunk? (f : Intake) (wanted : Nat) : Except Utf8.Fault (Option Intake) := do
  let expected := (f.density.mulMagnitudes (.ofRatio false wanted 1)).wholePart
  let size := max chunkSize expected
  let chunk := f.bytes.take size
  let (t, cut) ← Utf8.decodePart chunk.isEmpty 0 (f.cut ++ chunk)
  let (t, afterReturn) := settle f.afterReturn chunk.isEmpty t
  if chunk.isEmpty && t.isEmpty then return none
  else
    let density := if t.isEmpty then .finite false 0
      else Binary64.ofRatio false chunk.length t.length
    return some ⟨f.bytes.drop size, cut, afterReturn, t, density⟩

/-- Hands out some code points, or all that there are; `fuel` bounds the chunks. -/
def handOut (f : Intake) (wanted : Nat) : Nat → Except Utf8.Fault (Text × Intake)
  | 0 => .ok ([], f)
  | fuel + 1 => do
    let part := f.ready.take wanted
    let f := { f with ready := f.ready.drop wanted }
    if part.length = wanted then return (part, f)
    else
      match ← f.takeChunk? (wanted - part.length) with
      | none => return (part, f)
      | some f =>
        let (more, f) ← f.handOut (wanted - part.length) fuel
        return (part ++ more, f)

/-- All portions up to the end or to a fault; `fuel` bounds their number. -/
def portionsFrom (f : Intake) : Nat → List Text × Option Utf8.Fault
  | 0 => ([], none)
  | fuel + 1 =>
    match f.handOut portionSize (f.bytes.length + 2) with
    | .error fault => ([], some fault)
    | .ok ([], _) => ([], none)
    | .ok (part, f) =>
      let (more, fault) := portionsFrom f fuel
      (part :: more, fault)

end Intake

/-- The text of a file in portions, and the fault at which it ends, if it ends at one. -/
def Text.portions (bytes : List UInt8) : List Text × Option Utf8.Fault :=
  ({ bytes := bytes } : Intake).portionsFrom (bytes.length + 1)

end WireScript
