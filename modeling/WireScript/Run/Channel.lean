import WireScript.Text.Basic

/-!
# Channels

A channel is one connection to the peer: the bytes that it will send, the bytes that were written to
it, and the point at which reading or writing starts to fail, if it ever does.  `readLine` takes one
byte at a time and never takes more than the line.
-/

namespace WireScript

/-- From the operation with the given number on, counted from zero, every operation fails. -/
structure Fault where
  start : Nat
  reason : Text
  deriving DecidableEq

/-- Why the operation with a given number fails, if it does. -/
def Fault.strikes (fault : Option Fault) (count : Nat) : Option Text :=
  match fault with
  | some f => if f.start ≤ count then some f.reason else none
  | none => none

/-- A connection. -/
structure Channel where
  /-- What the peer sends and was not read yet.  After it the peer closes the connection. -/
  incoming : List UInt8 := []
  /-- What was written, in order. -/
  written : List UInt8 := []
  /-- How many bytes were asked for. -/
  reads : Nat := 0
  /-- How often something was written. -/
  writes : Nat := 0
  readFault : Option Fault := none
  writeFault : Option Fault := none
  deriving DecidableEq, Inhabited

/-- Why a line could not be read. -/
inductive ReadError where
  /-- The connection was closed after this many bytes of a line. -/
  | closed (count : Nat)
  | failed (reason : Text)
  deriving DecidableEq

/-- Why a line could not be read, in words. -/
def ReadError.message : ReadError → Text
  | closed count =>
    "connection closed after " ++ Text.ofNat count ++ " byte(s) of an unterminated line"
  | failed reason => reason

namespace Channel

/-- Reads on in a line of which `taken` was read already, the latest byte first. -/
def readLineFrom (fault : Option Fault) (taken : List UInt8) (reads : Nat) :
    List UInt8 → Except ReadError (List UInt8) × Nat × List UInt8
  | [] =>
    match Fault.strikes fault reads with
    | some reason => (.error (.failed reason), reads, [])
    | none => (.error (.closed taken.length), reads + 1, [])
  | b :: rest =>
    match Fault.strikes fault reads with
    | some reason => (.error (.failed reason), reads, b :: rest)
    | none =>
      if b = 0x0A ∧ taken.head? = some 0x0D then (.ok (b :: taken).reverse, reads + 1, rest)
      else readLineFrom fault (b :: taken) (reads + 1) rest

/-- Reads up to and including the next carriage return with a line feed after it. -/
def readLine (c : Channel) : Except ReadError (List UInt8) × Channel :=
  let (line, reads, rest) := readLineFrom c.readFault [] c.reads c.incoming
  (line, { c with incoming := rest, reads := reads })

/-- Writes bytes, all of them or none. -/
def write (bytes : List UInt8) (c : Channel) : Except Text Channel :=
  match Fault.strikes c.writeFault c.writes with
  | some reason => .error reason
  | none => .ok { c with written := c.written ++ bytes, writes := c.writes + 1 }

end Channel

end WireScript
