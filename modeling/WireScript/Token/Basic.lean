import WireScript.Source.Position
import WireScript.Text.Quoted

/-!
# Tokens

A token has a kind, the lexeme it was read from and the stretch of source where that stands.  The
kind carries what the token means: the decoded text of a string, the value of an integer, the
literal text of one segment of a template.
-/

namespace WireScript

/-- The tokens with a fixed spelling, apart from the end of a line. -/
inductive Mark where
  /-- Opens an assertion. -/
  | tilde
  | plus
  | minus
  | star
  | slash
  | percent
  | equal
  | notEqual
  /-- Less than; at the start of a statement it opens a receive. -/
  | less
  /-- Greater than; at the start of a statement it opens a send. -/
  | greater
  | atMost
  | atLeast
  | not
  | and
  | or
  | assign
  | dot
  | openGroup
  | closeGroup
  deriving DecidableEq, Inhabited

/-- How a fixed token is written. -/
def Mark.spelling : Mark → String
  | tilde => "~"
  | plus => "+"
  | minus => "-"
  | star => "*"
  | slash => "/"
  | percent => "%"
  | equal => "=="
  | notEqual => "!="
  | less => "<"
  | greater => ">"
  | atMost => "<="
  | atLeast => ">="
  | not => "!"
  | and => "&&"
  | or => "||"
  | assign => "="
  | dot => "."
  | openGroup => "("
  | closeGroup => ")"

/-- What a token is. -/
inductive TokenKind where
  /-- Input that is no token; a report says why. -/
  | invalid
  | endOfInput
  | newline
  | name (name : Text)
  | integer (value : Int)
  | string (value : Text)
  /-- The first segment of a template; `continues` if an expression follows it. -/
  | templateStart (text : Text) (continues : Bool)
  /-- A later segment of a template. -/
  | templatePart (text : Text) (continues : Bool)
  | mark (mark : Mark)
  deriving DecidableEq, Inhabited

/-- A token of a source text. -/
structure Token where
  kind : TokenKind
  lexeme : Text
  span : Span
  deriving DecidableEq, Inhabited

namespace Token

/-- The empty token at the end of the input. -/
def atEnd (here : Location) : Token :=
  ⟨.endOfInput, [], .empty here⟩

/-- Whether a token ends the input. -/
def isEnd (t : Token) : Bool :=
  t.kind == .endOfInput

/-- Whether a token ends a line. -/
def isNewline (t : Token) : Bool :=
  t.kind == .newline

/-- Whether a token is the given mark. -/
def isMark (t : Token) (m : Mark) : Bool :=
  t.kind == .mark m

/-- A token in the words of a message. -/
def describe (t : Token) : Text :=
  match t.kind with
  | .invalid => "invalid input " ++ t.lexeme.quoted
  | .endOfInput => "end of input"
  | .newline => "newline"
  | .name name => "identifier '" ++ name ++ "'"
  | .integer _ => "integer " ++ t.lexeme
  | .string _ => "string literal"
  | .templateStart _ _ => "template literal"
  | .templatePart _ _ => "'\x7d'"
  | .mark m => "'" ++ (m.spelling : Text) ++ "'"

end Token

end WireScript
