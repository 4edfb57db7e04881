import WireScript.Text.Digit
import WireScript.Text.Printable

/-!
# Quoted text

Traces and messages show a text between quotes, with everything that cannot be shown as itself
written as an escape, so that the shown form is one line and determines the text.
-/

namespace WireScript.Text

/-- The quote to put around a text: an apostrophe, or a double quote where that saves escaping. -/
def quoteFor (t : Text) : Char :=
  if t.any (·.is '\'') && !t.any (·.is '"') then '"' else '\''

/-- How one code point is shown between quotes of the given kind. -/
def quotedPoint (quote : Char) (p : CodePoint) : Text :=
  if p.is quote || p.is '\\' then [.scalar '\\', p]
  else if p.is '\n' then "\\n"
  else if p.is '\r' then "\\r"
  else if p.is '\t' then "\\t"
  else if p.isPrintable then [p]
  else
    let n := p.toNat
    if n < 0x100 then "\\x" ++ hex 2 n
    else if n < 0x10000 then "\\u" ++ hex 4 n
    else "\\U" ++ hex 8 n

/-- A text between quotes. -/
def quoted (t : Text) : Text :=
  let quote := quoteFor t
  .scalar quote :: t.flatMap (quotedPoint quote) ++ [.scalar quote]

end WireScript.Text
