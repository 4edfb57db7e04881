import WireScript.Number.Reader

/-!
# Addresses of peers

An address is a host and a port with a colon between them.  The last colon counts, so a host may
hold colons itself, and brackets around a host are taken off.
-/

namespace WireScript

/-- Where a peer listens. -/
structure Address where
  host : Text
  port : Nat
  deriving DecidableEq, Inhabited

/-- Why a text is no address; each cause carries the text. -/
inductive AddressError where
  | malformed (text : Text)
  | invalidPort (text : Text)
  | portOutOfRange (text : Text)
  deriving DecidableEq

/-- An address error in words. -/
def AddressError.message : AddressError → Text
  | malformed t => "Invalid address: " ++ t ++ " (expected host:port)"
  | invalidPort t => "Invalid port in address: " ++ t
  | portOutOfRange t => "Port out of range in address: " ++ t

namespace Address

/-- The parts of a text before and after the last occurrence of a character. -/
def splitLast (separator : Char) (t : Text) : Option (Text × Text) :=
  let isOther (p : CodePoint) : Bool := !p.is separator
  match t.reverse.dropWhile isOther with
  | [] => none
  | _ :: before => some (before.reverse, (t.reverse.takeWhile isOther).reverse)

/-- A host without the brackets around it. -/
def unbracketed (host : Text) : Text :=
  if host.head?.any (·.is '[') && host.getLast?.any (·.is ']') then host.tail.dropLast else host

/-- Reads an address. -/
def parse (t : Text) : Except AddressError Address :=
  match splitLast ':' t with
  | none | some ([], _) => .error (.malformed t)
  | some (host, port) =>
    match Number.integer? port with
    | none => .error (.invalidPort t)
    | some port =>
      if 0 < port ∧ port < 65536 then .ok ⟨unbracketed host, port.toNat⟩
      else .error (.portOutOfRange t)

end Address

end WireScript
