import WireScript.Script.Error
import WireScript.Script.Operator
import WireScript.Text.Blank

/-!
# Parsing

A script is parsed line by line: the tokens between two line ends are one statement, and a line
without tokens is none.  What is wrong with one line therefore never touches another.  Within a
line the definitions come in three groups:

* `LineParser` is a position in a line, with what was read and what was found wrong so far;
* `LineParser.expression` and its companions read an expression by precedence climbing;
* `LineParser.statement` reads the whole line.

The readers of expressions call each other as deep as the line nests, so they take a depth that
bounds this; `LineParser.depth` is enough for every line.
-/

namespace WireScript

/-! ## Positions in a line -/

/-- The tokens of one line, and the token that ends it. -/
structure Line where
  tokens : List Token
  stop : Token

/-- The lines of a list of tokens that ends with the token `stop`. -/
def Line.split (stop : Token) : List Token → List Line
  | [] => [⟨[], stop⟩]
  | t :: rest =>
    if t.isNewline then ⟨[], t⟩ :: split stop rest
    else match split stop rest with
      | line :: lines => ⟨t :: line.tokens, line.stop⟩ :: lines
      | [] => [⟨[t], stop⟩]

/-- A position in a line: the tokens behind it, the latest first, the tokens ahead, and the reports
made so far, the latest first. -/
structure LineParser where
  consumed : List Token
  ahead : List Token
  stop : Token
  reports : List (Report SyntaxError)

namespace LineParser

/-- The beginning of a line. -/
def ofLine (line : Line) : LineParser :=
  ⟨[], line.tokens, line.stop, []⟩

/-- The next token; behind the last it is the one that ends the line. -/
def current (p : LineParser) : Token :=
  p.ahead.headD p.stop

/-- The position after the next token.  The end of the line is never passed. -/
def advance (p : LineParser) : LineParser :=
  match p.ahead with
  | [] => p
  | t :: rest => { p with consumed := t :: p.consumed, ahead := rest }

/-- Adds a report. -/
def report (p : LineParser) (cause : SyntaxError) (span : Span) : LineParser :=
  { p with reports := ⟨cause, span⟩ :: p.reports }

/-- Reports that the next token is not what is wanted. -/
def unexpected (p : LineParser) (wanted : Wanted) : LineParser :=
  let t := p.current
  if t.isEnd then p.report (.unexpectedEnd wanted) t.span
  else p.report (.unexpectedToken wanted t.describe) t.span

/-- Where the tokens read so far end. -/
def lastStop (p : LineParser) : Location :=
  (p.consumed.headD p.current).span.stop

/-- The stretch from the start of a token to the end of the tokens read so far. -/
def spanFrom (p : LineParser) (start : Token) : Span :=
  ⟨start.span.start, p.lastStop⟩

/-! ## Expressions -/

/-- Stands in for an operand that is not there, and passes over the token in its place. -/
def missingOperand (p : LineParser) : Expr Span × LineParser :=
  (.string p.current.span [], (p.unexpected .expression).advance)

/-- The segment of a template as an operand; an empty one is none. -/
def segmentParts (span : Span) (text : Text) : List (Expr Span) :=
  if text.isEmpty then [] else [.string span text]

/-- The concatenation that a template stands for: its parts, and the end of a line. -/
def template (stop : Location) (parts : List (Expr Span)) : Expr Span :=
  parts.foldr (fun part rest => .concat ⟨part.note.start, rest.note.stop⟩ part rest)
    (.string (.empty stop) [.scalar '\r', .scalar '\n'])

/-- Whether an operator cannot follow an operand that the operator before it has taken.  An
operator that binds tighter was refused by that operand, and a comparison does not follow one. -/
def refuses (last : Option Operator) (op : Operator) : Bool :=
  match last with
  | none => false
  | some last => last.precedence < op.precedence || (last.isComparison && op.isComparison)

/-- A depth that no expression ahead exceeds. -/
def depth (p : LineParser) : Nat := 5 * p.ahead.length + 5

mutual

/-- Reads an expression: an assignment, or operands and operators. -/
def expression : Nat → LineParser → Expr Span × LineParser
  | 0, p => missingOperand p
  | depth + 1, p =>
    let start := p.current
    let (target, q) := chain depth 1 p
    let sign := q.current
    if sign.isMark .assign then
      let (value, q) := expression depth q.advance
      match target, start.isMark .openGroup with
      | .name note name, false => (.assign (q.spanFrom start) note name value, q)
      | _, _ => (target, q.report .assignmentTarget ⟨start.span.start, sign.span.start⟩)
    else (target, q)

/-- Reads operands and the operators between them that bind at least as tightly as given. -/
def chain : Nat → Nat → LineParser → Expr Span × LineParser
  | 0, _, p => missingOperand p
  | depth + 1, least, p =>
    let (left, q) := unary depth p
    chainRest depth least p.current none left q

/-- Reads on after an operand: the operator `last` in front of it, if there is one, has been dealt
with. -/
def chainRest : Nat → Nat → Token → Option Operator → Expr Span → LineParser →
    Expr Span × LineParser
  | 0, _, _, _, _, p => missingOperand p
  | depth + 1, least, start, last, left, p =>
    match p.current.operator? with
    | none => (left, p)
    | some op =>
      if op.precedence < least || refuses last op then (left, p)
      else
        let (right, q) := chain depth (op.precedence + 1) p.advance
        chainRest depth least start (some op) (op.apply (q.spanFrom start) left right) q

/-- Reads an operand with the negations and minus signs in front of it. -/
def unary : Nat → LineParser → Expr Span × LineParser
  | 0, p => missingOperand p
  | depth + 1, p =>
    let start := p.current
    match start.kind with
    | .mark .not =>
      let (operand, q) := unary depth p.advance
      (.not (q.spanFrom start) operand, q)
    | .mark .minus =>
      let (operand, q) := unary depth p.advance
      (.binary (q.spanFrom start) .sub (.integer start.span 0) operand, q)
    | _ => primary depth p

/-- Reads a name, a literal, a dot, a group or a template. -/
def primary : Nat → LineParser → Expr Span × LineParser
  | 0, p => missingOperand p
  | depth + 1, p =>
    let t := p.current
    match t.kind with
    | .name name => (.name t.span name, p.advance)
    | .integer n => (.integer t.span n, p.advance)
    | .string text => (.string t.span text, p.advance)
    | .mark .dot => (.dot t.span, p.advance)
    | .mark .openGroup =>
      let (inner, q) := expression depth p.advance
      if q.current.isMark .closeGroup then (inner, q.advance)
      else (inner, q.report .unclosedGroup ⟨t.span.start, q.current.span.start⟩)
    | .templateStart text continues =>
      let (parts, q) := segments depth t.span text continues p.advance
      (template q.lastStop parts, q)
    | _ => missingOperand p

/-- Reads the rest of a template after the segment with the given text. -/
def segments : Nat → Span → Text → Bool → LineParser → List (Expr Span) × LineParser
  | 0, _, _, _, p => ([], p.unexpected .expression)
  | depth + 1, span, text, continues, p =>
    let literal := segmentParts span text
    if continues then
      let (embedded, q) := expression depth p
      let t := q.current
      match t.kind with
      | .templatePart text continues =>
        let (others, q) := segments depth t.span text continues q.advance
        (literal ++ embedded :: others, q)
      | _ => (literal ++ [embedded], q.report .unclosedTemplate t.span)
    else (literal, p)

end

/-- Reads an expression of any depth. -/
def operand (p : LineParser) : Expr Span × LineParser :=
  expression p.depth p

/-! ## Statements -/

/-- The source text of the operand that starts at one position and ends at another.  Without the
source at hand it is put together from the tokens. -/
def operandText (source : Option Text) (start stop : LineParser) : Text :=
  match source with
  | some source =>
    (source.slice start.current.span.start.offset stop.lastStop.offset).stripped
  | none =>
    let taken := start.ahead.length - stop.ahead.length
    Text.join " " ((start.ahead.take taken).map (·.lexeme))

/-- Checks that the line is used up.  One report on a line is enough. -/
def finish (p : LineParser) : LineParser :=
  if p.ahead.isEmpty || !p.reports.isEmpty then p else p.unexpected .newline

/-- Reads the statement on a line. -/
def statement (source : Option Text) (p : LineParser) : Stmt Span × LineParser :=
  let start := p.current
  match start.kind with
  | .mark .greater =>
    let (value, q) := p.advance.operand
    (.send (q.spanFrom start) value, q.finish)
  | .mark .less =>
    let (pattern, q) := p.advance.operand
    (.receive (q.spanFrom start) pattern (operandText source p.advance q), q.finish)
  | .mark .tilde =>
    let (condition, q) := p.advance.operand
    (.assert (q.spanFrom start) condition (operandText source p.advance q), q.finish)
  | _ =>
    let (value, q) := p.operand
    (.expr value.note value, q.finish)

end LineParser

/-! ## Scripts -/

/-- A script, and the reports on its lines in order. -/
structure Parsed where
  script : Script Span
  reports : List (Report SyntaxError)

/-- The statement on a line, and the reports on it in order. -/
def Line.parse (source : Option Text) (line : Line) : Stmt Span × List (Report SyntaxError) :=
  let (statement, p) := (LineParser.ofLine line).statement source
  (statement, p.reports.reverse)

/-- Parses tokens up to the first that ends the input.  If none does, the input ends after the last
token.  The source text, if it is given, is remembered in the statements that show their operand. -/
def parse (source : Option Text) (tokens : List Token) : Parsed :=
  let body := tokens.takeWhile fun t => !t.isEnd
  let last? := body.getLast?
  let ending : Location := (last?.map (·.span.stop)).getD .first
  let stop := (tokens.find? (·.isEnd)).getD (.atEnd ending)
  let lines := (Line.split stop body).filter fun line => !line.tokens.isEmpty
  let parsed := lines.map (Line.parse source)
  let span : Span := ⟨(body.headD stop).span.start, (last?.getD stop).span.stop⟩
  ⟨⟨span, parsed.map (·.1)⟩, parsed.flatMap (·.2)⟩

end WireScript
