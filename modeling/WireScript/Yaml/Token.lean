import WireScript.Yaml.Scalar

/-!
# Tokens of YAML

A document is cut into scalars and indicators.  Two things are made explicit on the way: where a
block of a certain indentation opens and closes, and which scalars turn out to be keys.  Whether a
scalar is a key shows only at the colon after it, so possible keys are kept until then; a key has to
end on its line.

A document is cut no further than its nodes need.  So a fault counts for the tokens from the first
possible key on, for which it was necessary to look ahead, but not for those in front.

Anchors, tags, directives and block scalars are not read: a document with any of them is refused.
-/

namespace WireScript.Yaml

/-- A token of a document. -/
inductive Token where
  | documentStart
  | documentEnd
  | blockSequence
  | blockMapping
  /-- Closes a block sequence or mapping. -/
  | blockEnd
  | flowSequence
  | flowSequenceEnd
  | flowMapping
  | flowMappingEnd
  | blockEntry
  | flowEntry
  | key
  | value
  | scalar (plain : Bool) (text : Text)
  deriving DecidableEq

/-- Something that is a key if a colon follows. -/
structure PossibleKey where
  /-- How many tokens stand in front of it. -/
  index : Nat
  /-- Whether nothing else is possible at its place. -/
  required : Bool
  line : Nat
  column : Nat
  offset : Nat

/-- What is known while a document is cut into tokens. -/
structure Tokenizer where
  place : Place
  /-- The tokens so far, the latest first. -/
  written : List Token := []
  /-- How many tokens there are so far. -/
  count : Nat := 0
  /-- The columns of the open blocks, the innermost first. -/
  indents : List Nat := []
  /-- Whether a key may start here. -/
  keyAllowed : Bool := true
  /-- The possible key outside of all flow collections. -/
  blockKey : Option PossibleKey := none
  /-- The possible keys inside of the open flow collections, the innermost first. -/
  flowKeys : List (Option PossibleKey) := []

namespace Tokenizer

/-- Whether the place is inside of a flow collection. -/
def inFlow (s : Tokenizer) : Bool := !s.flowKeys.isEmpty

/-- Adds a token. -/
def emit (s : Tokenizer) (t : Token) : Tokenizer :=
  { s with written := t :: s.written, count := s.count + 1 }

/-- Adds a token with a given number of tokens in front of it. -/
def emitAt (s : Tokenizer) (index : Nat) (t : Token) : Tokenizer :=
  { s with written := s.written.insertIdx (s.count - index) t, count := s.count + 1 }

/-- A number of the tokens so far, from the first on. -/
def firstTokens (s : Tokenizer) (n : Nat) : List Token :=
  (s.written.drop (s.count - n)).reverse

/-- The possible key at the innermost level. -/
def possibleKey (s : Tokenizer) : Option PossibleKey :=
  match s.flowKeys with
  | [] => s.blockKey
  | key :: _ => key

/-- Replaces the possible key at the innermost level. -/
def withKey (s : Tokenizer) (key : Option PossibleKey) : Tokenizer :=
  match s.flowKeys with
  | [] => { s with blockKey := key }
  | _ :: outer => { s with flowKeys := key :: outer }

/-- Gives up the possible key at the innermost level, which must not be required. -/
def dropKey (s : Tokenizer) : Except Fault Tokenizer :=
  if s.possibleKey.any (·.required) then throw .malformed else return s.withKey none

/-- Notes that a key may start here. -/
def noteKey (s : Tokenizer) : Except Fault Tokenizer :=
  if s.keyAllowed then do
    let required := !s.inFlow && s.indents.head? == some s.place.column
    let s ← s.dropKey
    return s.withKey
      (some ⟨s.count, required, s.place.line, s.place.column, s.place.offset⟩)
  else return s

/-- Gives up the possible keys that began on another line or too far back. -/
def dropStaleKeys (s : Tokenizer) : Except Fault Tokenizer :=
  let isStale (key : PossibleKey) : Bool :=
    key.line != s.place.line || 1024 < s.place.offset - key.offset
  let keep (key : Option PossibleKey) : Option PossibleKey := key.filter fun k => !isStale k
  if s.blockKey.any fun k => isStale k && k.required then throw .malformed
  else return { s with blockKey := keep s.blockKey, flowKeys := s.flowKeys.map keep }

/-- Closes the blocks that are indented by more than a column; all of them for no column. -/
def closeBlocks (s : Tokenizer) (column : Option Nat) : Tokenizer :=
  if s.inFlow then s
  else
    let isInner (indent : Nat) : Bool := column.all (· < indent)
    let closed := (s.indents.takeWhile isInner).length
    closed.repeat (·.emit .blockEnd) { s with indents := s.indents.dropWhile isInner }

/-- Opens a block at a column, with its token at an index, unless one is open there. -/
def openBlock (s : Tokenizer) (column index : Nat) (t : Token) : Tokenizer :=
  if s.indents.head?.any (column ≤ ·) then s
  else { s with indents := column :: s.indents }.emitAt index t

/-- Moves on by a number of code points. -/
def skip (s : Tokenizer) (n : Nat) : Except Fault Tokenizer := do
  return { s with place := ← s.place.skip n }

/-- Passes over spaces, comments and line ends.  Here and below, `fuel` is more than the number of
code points ahead. -/
def skipGap (s : Tokenizer) : Nat → Except Fault Tokenizer
  | 0 => return s
  | fuel + 1 => do
    match s.place.peek with
    | none => return s
    | some p =>
      if p.is ' ' then skipGap (← s.skip 1) fuel
      else if p.is '#' then
        skipGap { s with place := ← s.place.skipWhile fun p => !isBreak p } fuel
      else if isBreak p then
        skipGap { ← s.skip 1 with keyAllowed := s.keyAllowed || !s.inFlow } fuel
      else return s

/-- A line that separates documents. -/
def documentMarker (s : Tokenizer) : Except Fault Tokenizer := do
  let s ← (s.closeBlocks none).dropKey
  let t := if s.place.nextIn ['-'] then Token.documentStart else .documentEnd
  ({ s with keyAllowed := false }.emit t).skip 3

/-- The opening of a flow collection. -/
def openFlow (s : Tokenizer) (t : Token) : Except Fault Tokenizer := do
  let s ← s.noteKey
  ({ s with flowKeys := none :: s.flowKeys, keyAllowed := true }.emit t).skip 1

/-- The closing of a flow collection. -/
def closeFlow (s : Tokenizer) (t : Token) : Except Fault Tokenizer := do
  let s ← s.dropKey
  let _ :: outer := s.flowKeys | throw .malformed
  ({ s with flowKeys := outer, keyAllowed := false }.emit t).skip 1

/-- A comma in a flow collection. -/
def comma (s : Tokenizer) : Except Fault Tokenizer := do
  let s ← s.dropKey
  ({ s with keyAllowed := true }.emit .flowEntry).skip 1

/-- An indicator that opens a block at its column, if it stands outside of flow collections. -/
def blockIndicator (s : Tokenizer) (block t : Token) (keyAfter : Bool) :
    Except Fault Tokenizer := do
  if !s.inFlow && !s.keyAllowed then throw .malformed
  let s := if s.inFlow then s else s.openBlock s.place.column s.count block
  let s ← s.dropKey
  ({ s with keyAllowed := keyAfter }.emit t).skip 1

/-- A colon after a key, or after none. -/
def colon (s : Tokenizer) : Except Fault Tokenizer :=
  match s.possibleKey with
  | some key =>
    let s := { s.withKey none with keyAllowed := false }.emitAt key.index .key
    let s := if s.inFlow then s else s.openBlock key.column key.index .blockMapping
    (s.emit .value).skip 1
  | none => s.blockIndicator .blockMapping .value (!s.inFlow)

/-- A scalar without quotes. -/
def plain (s : Tokenizer) (fuel : Nat) : Except Fault Tokenizer := do
  let s ← s.noteKey
  let indent : Int := match s.indents with
    | [] => 0
    | column :: _ => column + 1
  let r ← plainFrom s.inFlow indent [] s.place false fuel
  return { s with place := r.after, keyAllowed := r.endsLine }.emit (.scalar true r.text)

/-- A scalar between quotes. -/
def quoted (s : Tokenizer) (fuel : Nat) : Except Fault Tokenizer := do
  let s ← s.noteKey
  let (text, after) ← Yaml.quoted s.place fuel
  return { s with place := after, keyAllowed := false }.emit (.scalar false text)

/-- Whether the code point after the next is no part of a word. -/
def standsAlone (s : Tokenizer) : Except Fault Bool := do
  return endsWord (← s.place.peekNext)

/-- Whether a plain scalar may start with the next two code points. -/
def startsPlain (s : Tokenizer) (p : CodePoint) : Except Fault Bool := do
  let indicators := ['-', '?', ':', ',', '[', ']', '{', '}', '#', '&', '*', '!', '|', '>', '\'',
    '"', '%', '@', '\x60']
  if !endsWord (some p) && !p.isIn indicators then return true
  else
    let alone ← s.standsAlone
    return !alone && (p.is '-' || (!s.inFlow && p.isIn ['?', ':']))

/-- Whether the next code point is a certain indicator, which has to stand alone unless it is
`free`. -/
def isIndicator (s : Tokenizer) (p : CodePoint) (c : Char) (free : Bool) : Except Fault Bool :=
  if !p.is c then return false else if free then return true else s.standsAlone

/-- Whether a line that starts with the next code point separates documents. -/
def atMarker (s : Tokenizer) (p : CodePoint) : Except Fault Bool :=
  if s.place.column = 0 && p.isIn ['-', '.'] then s.place.atMarker else return false

/-- Reads the token that starts with the next code point. -/
def next (s : Tokenizer) (p : CodePoint) (fuel : Nat) : Except Fault Tokenizer := do
  if s.place.column = 0 && p.is '%' then throw .malformed
  else if ← s.atMarker p then s.documentMarker
  else if p.is '[' then s.openFlow .flowSequence
  else if p.is '{' then s.openFlow .flowMapping
  else if p.is ']' then s.closeFlow .flowSequenceEnd
  else if p.is '}' then s.closeFlow .flowMappingEnd
  else if p.is ',' then s.comma
  else if ← s.isIndicator p '-' false then s.blockIndicator .blockSequence .blockEntry true
  else if ← s.isIndicator p '?' s.inFlow then s.blockIndicator .blockMapping .key (!s.inFlow)
  else if ← s.isIndicator p ':' s.inFlow then s.colon
  else if p.isIn ['\'', '"'] then s.quoted fuel
  else if ← s.startsPlain p then s.plain fuel
  else throw .malformed

/-- The tokenizer after the next token, or at the end and without any open block. -/
def pull (s : Tokenizer) (fuel : Nat) : Except Fault (Tokenizer × Bool) := do
  let s ← (← s.skipGap fuel).dropStaleKeys
  match s.place.peek with
  | none => return (← (s.closeBlocks none).dropKey, false)
  | some p => return (← (s.closeBlocks (some s.place.column)).next p fuel, true)

/-- The index of the first possible key, or else of the next token. -/
def firstOpen (s : Tokenizer) : Nat :=
  let keys := s.blockKey.toList ++ s.flowKeys.filterMap id
  keys.foldl (fun n key => min n key.index) s.count

end Tokenizer

/-- The tokens of a document, and the fault in front of which they end, if they end at one. -/
structure TokenStream where
  tokens : List Token
  fault : Option Fault

namespace Tokenizer

/-- Reads all tokens that are left. -/
def drain (s : Tokenizer) : Nat → TokenStream
  | 0 => ⟨[], some .malformed⟩
  | fuel + 1 =>
    match s.dropStaleKeys with
    | .error fault => ⟨[], some fault⟩
    | .ok s =>
      match s.pull fuel with
      | .error fault => ⟨s.firstTokens s.firstOpen, some fault⟩
      | .ok (s, false) => ⟨s.firstTokens s.count, none⟩
      | .ok (s, true) => drain s fuel

end Tokenizer

/-- The tokens of a document that starts at a place.  Every step but the last passes a code point,
so there is fuel for all of them and for the code points still ahead. -/
def TokenStream.ofPlace (c : Place) : TokenStream :=
  ({ place := c } : Tokenizer).drain (2 * c.rest.length + 3)

end WireScript.Yaml
