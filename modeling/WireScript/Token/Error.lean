import WireScript.Diagnostic
import WireScript.Number.Limit
import WireScript.Text.Quoted

/-!
# Lexical errors

What can be wrong with the spelling of a token.  Scanning goes on after each of them.  Apart from
that there are breakages: tokens that cannot be made, so that nothing comes of their source.
-/

namespace WireScript

/-- A fault in the spelling of a token. -/
inductive LexicalError where
  /-- A code point that begins no token. -/
  | invalidCharacter (p : CodePoint)
  /-- A string that is not closed on its line. -/
  | unterminatedString
  /-- A backslash followed by something that begins no escape. -/
  | unknownEscape (introducer : Text)
  /-- A numeric escape with too few digits. -/
  | illegalEscapeCharacter
  /-- A numeric escape whose value is no code point, or is a surrogate. -/
  | invalidCodePoint
  /-- An ampersand that is not doubled. -/
  | loneAmpersand
  /-- A vertical bar that is not doubled. -/
  | loneBar
  /-- An integer without digits, or one of more than 64 bits. -/
  | invalidInteger (lexeme : Text)
  deriving DecidableEq

namespace LexicalError

/-- The code of a lexical error. -/
def code : LexicalError → Text
  | invalidCharacter _ => "E001"
  | unterminatedString => "E002"
  | unknownEscape _ => "E003"
  | illegalEscapeCharacter => "E004"
  | invalidCodePoint => "E005"
  | loneAmpersand => "E006"
  | loneBar => "E007"
  | invalidInteger _ => "E008"

/-- A lexical error in words. -/
def message : LexicalError → Text
  | invalidCharacter p => "invalid character " ++ Text.quoted [p]
  | unterminatedString => "string not terminated"
  | unknownEscape introducer => "unknown escape sequence '\\" ++ introducer ++ "'"
  | illegalEscapeCharacter => "illegal character in escape sequence"
  | invalidCodePoint => "escape sequence is invalid Unicode code point"
  | loneAmpersand => "expected '&&'"
  | loneBar => "expected '||'"
  | invalidInteger lexeme => "invalid integer literal '" ++ lexeme ++ "'"

/-- Advice on a lexical error. -/
def hints : LexicalError → List Text
  | unterminatedString => ["string literals must be closed on the line they start"]
  | unknownEscape _ =>
    ["valid escapes: \\a \\b \\f \\n \\r \\t \\v \\\\ \\\" \\NNN \\xHH \\uHHHH \\UHHHHHHHH"]
  | _ => []

instance : Cause LexicalError := ⟨code, message, hints⟩

end LexicalError

/-- Why a token cannot be made. -/
inductive Breakage where
  /-- A string that holds a stray surrogate, so that it has no form on the wire. -/
  | unencodable
  /-- A decimal integer of so many digits that they are not read as a number. -/
  | tooManyDigits (count : Nat)
  deriving DecidableEq, Inhabited

/-- Why a token cannot be made, in words. -/
def Breakage.message : Breakage → Text
  | unencodable => "surrogates not allowed"
  | tooManyDigits count => Number.overlongDigits count

end WireScript
