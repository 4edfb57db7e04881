import WireScript.Text.Basic

/-!
# Text as bytes

Bytes are read as UTF-8 where they are valid UTF-8, and one undecodable byte at a time where they
are not.  The definitions come in four groups:

* `leading?` finds the character whose encoding opens a list of bytes;
* `decode` and `encode` go between bytes and text;
* `decodePart` reads bytes that have to be UTF-8, and tells where they are not;
* `canonical` is the form a text has after it went over the wire.

Every list of bytes is the encoding of its own decoding, so nothing a peer sends is lost.
-/

namespace WireScript.Utf8

/-- The bytes of a character. -/
def octets (c : Char) : List UInt8 :=
  String.utf8EncodeChar c

/-- The number that the bits of the leading bytes spell, taking the first byte at its word on how
many bytes there are. -/
def spelled : List UInt8 → Nat
  | [] => 0
  | a :: rest =>
    let tail (i : Nat) : Nat := (rest.getD i 0).toNat % 0x40
    let a := a.toNat
    if a < 0x80 then a
    else if a < 0xE0 then (a % 0x20) * 0x40 + tail 0
    else if a < 0xF0 then (a % 0x10) * 0x1000 + tail 0 * 0x40 + tail 1
    else (a % 0x08) * 0x40000 + tail 0 * 0x1000 + tail 1 * 0x40 + tail 2

/-- The character whose encoding opens a list of bytes, and the bytes after it.  Comparing with
the encoding rules out overlong forms, surrogates, numbers past U+10FFFF and truncated forms all
at once. -/
def leading? (bytes : List UInt8) : Option (Char × List UInt8) :=
  let c := Char.ofNat (spelled bytes)
  if octets c <+: bytes then some (c, bytes.drop (octets c).length) else none

/-- An undecodable byte as a code point.  Bytes below `0x80` are always decodable. -/
def escaped (b : UInt8) : CodePoint :=
  .byte (Fin.ofNat 128 b.toNat)

theorem octets_ne_nil (c : Char) : octets c ≠ [] := by
  have := c.utf8Size_pos
  rw [← String.length_utf8EncodeChar] at this
  exact List.length_pos_iff.1 this

theorem eq_append_of_leading? {bytes rest : List UInt8} {c : Char}
    (h : leading? bytes = some (c, rest)) : bytes = octets c ++ rest := by
  unfold leading? at h
  dsimp only at h
  split at h
  · rename_i opens
    obtain ⟨rfl, rfl⟩ := Prod.mk.inj (Option.some.inj h)
    exact (List.prefix_iff_eq_append.1 opens).symm
  · simp at h

theorem length_lt_of_leading? {bytes rest : List UInt8} {c : Char}
    (h : leading? bytes = some (c, rest)) : rest.length < bytes.length := by
  have := List.length_pos_iff.2 (octets_ne_nil c)
  rw [eq_append_of_leading? h, List.length_append]
  omega

/-- The text of a list of bytes. -/
def decode (bytes : List UInt8) : Text :=
  match bytes with
  | [] => []
  | b :: rest =>
    match _spelled : leading? (b :: rest) with
    | some (c, rest) => .scalar c :: decode rest
    | none => escaped b :: decode rest
termination_by bytes.length
decreasing_by
  · exact length_lt_of_leading? _spelled
  · simp

/-- The bytes of a code point; a stray surrogate has none. -/
def encodePoint : CodePoint → Option (List UInt8)
  | .scalar c => some (octets c)
  | .byte low => some [UInt8.ofNat (0x80 + low)]
  | .stray _ => none

/-- The bytes of a text, unless it holds a stray surrogate. -/
def encode : Text → Option (List UInt8)
  | [] => some []
  | p :: t => do
    let bytes ← encodePoint p
    let rest ← encode t
    return bytes ++ rest

/-! ## Faults -/

/-- Where bytes stop being UTF-8, and why. -/
structure Fault where
  /-- The offset of the sequence that is wrong. -/
  offset : Nat
  /-- The bytes of the sequence that were right so far. -/
  bytes : List UInt8
  reason : String

/-- A fault in words. -/
def Fault.message (f : Fault) : Text :=
  let place : Text := match f.bytes with
    | [b] => "byte 0x" ++ Text.hex 2 b.toNat ++ " in position " ++ Text.ofNat f.offset
    | bytes =>
      "bytes in position " ++ Text.ofNat f.offset ++ "-" ++
        Text.ofNat (f.offset + bytes.length - 1)
  "'utf-8' codec can't decode " ++ place ++ ": " ++ (f.reason : Text)

/-- How many bytes follow a first byte, and the range of the one after it. -/
def tailsOf (first : UInt8) : Option (Nat × UInt8 × UInt8) :=
  if 0xC2 ≤ first ∧ first ≤ 0xDF then some (1, 0x80, 0xBF)
  else if first = 0xE0 then some (2, 0xA0, 0xBF)
  else if first = 0xED then some (2, 0x80, 0x9F)
  else if 0xE1 ≤ first ∧ first ≤ 0xEF then some (2, 0x80, 0xBF)
  else if first = 0xF0 then some (3, 0x90, 0xBF)
  else if first = 0xF4 then some (3, 0x80, 0x8F)
  else if 0xF1 ≤ first ∧ first ≤ 0xF3 then some (3, 0x80, 0xBF)
  else none

/-- The bytes of a sequence that are right, after the first, and whether more should have come. -/
def rightTails (count : Nat) (low high : UInt8) : List UInt8 → List UInt8 × Bool
  | [] => ([], true)
  | b :: rest =>
    if count = 0 ∨ b < low ∨ high < b then ([], false)
    else
      let (tails, ended) := rightTails (count - 1) 0x80 0xBF rest
      (b :: tails, ended)

/-- Whether bytes are the first two of a surrogate, and all there are. -/
def isCutSurrogate : List UInt8 → Bool
  | [first, second] => first == 0xED && 0xA0 ≤ second && second ≤ 0xBF
  | _ => false

/-- The fault of bytes that no character opens.  While more bytes may come, there is none if they
may complete the first character, and neither if they can only turn it into a surrogate. -/
def faultAt (isLast : Bool) (offset : Nat) : List UInt8 → Option Fault
  | [] => none
  | first :: rest =>
    match tailsOf first with
    | none => some ⟨offset, [first], "invalid start byte"⟩
    | some (count, low, high) =>
      match rightTails count low high rest with
      | (tails, true) =>
        if isLast then some ⟨offset, first :: tails, "unexpected end of data"⟩ else none
      | (tails, false) =>
        if !isLast && isCutSurrogate (first :: rest) then none
        else some ⟨offset, first :: tails, "invalid continuation byte"⟩

/-- Reads bytes from an offset on: their text, and the bytes at the end that wait for more. -/
def decodePart (isLast : Bool) (offset : Nat) (bytes : List UInt8) :
    Except Fault (Text × List UInt8) :=
  match bytes with
  | [] => .ok ([], [])
  | b :: rest =>
    match _spelled : leading? (b :: rest) with
    | some (c, rest) => do
      let (t, cut) ← decodePart isLast (offset + (octets c).length) rest
      return (.scalar c :: t, cut)
    | none =>
      match faultAt isLast offset (b :: rest) with
      | some fault => .error fault
      | none => .ok ([], b :: rest)
termination_by bytes.length
decreasing_by exact length_lt_of_leading? _spelled

end WireScript.Utf8

namespace WireScript.Text

/-- The form in which a text arrives when it is sent: undecodable bytes that together spell a
character become that character.  A text with a stray surrogate cannot be sent. -/
def canonical (t : Text) : Option Text :=
  (Utf8.encode t).map Utf8.decode

/-- Whether a text has a form on the wire. -/
def isEncodable (t : Text) : Bool :=
  (Utf8.encode t).isSome

end WireScript.Text
