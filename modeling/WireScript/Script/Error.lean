import WireScript.Diagnostic

/-!
# Syntax errors

What can be wrong with the order of tokens on a line.
-/

namespace WireScript

/-- What could have stood in the place of a token. -/
inductive Wanted where
  | expression
  | newline
  deriving DecidableEq

/-- What could have stood in the place of a token, in words. -/
def Wanted.name : Wanted → Text
  | expression => "expression"
  | newline => "newline"

/-- A fault in the order of tokens. -/
inductive SyntaxError where
  /-- A token where something else is wanted; `found` describes it. -/
  | unexpectedToken (wanted : Wanted) (found : Text)
  /-- The end of the input where something is wanted. -/
  | unexpectedEnd (wanted : Wanted)
  /-- Something other than a bare name in front of an assignment sign. -/
  | assignmentTarget
  /-- A group without its closing parenthesis. -/
  | unclosedGroup
  /-- An expression in a template that no closing brace follows. -/
  | unclosedTemplate
  deriving DecidableEq

namespace SyntaxError

/-- The code of a syntax error. -/
def code : SyntaxError → Text
  | unexpectedToken .. => "E101"
  | unexpectedEnd _ => "E102"
  | assignmentTarget => "E103"
  | unclosedGroup => "E104"
  | unclosedTemplate => "E105"

/-- A syntax error in words. -/
def message : SyntaxError → Text
  | unexpectedToken wanted found => "expected " ++ wanted.name ++ ", found " ++ found
  | unexpectedEnd wanted => "unexpected end of input, expected " ++ wanted.name
  | assignmentTarget => "not an identifier in assignment"
  | unclosedGroup => "expected ')' to close group"
  | unclosedTemplate => "expected '\x7d' after embedded template expression"

/-- Advice on a syntax error. -/
def hints : SyntaxError → List Text
  | unclosedTemplate => ["templates look like :text\x7bexpr\x7dtext"]
  | _ => []

instance : Cause SyntaxError := ⟨code, message, hints⟩

end SyntaxError

end WireScript
