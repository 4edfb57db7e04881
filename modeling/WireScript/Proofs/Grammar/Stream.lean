import WireScript.Proofs.Grammar.Passes
import WireScript.Proofs.Grammar.Script

/-!
# Parsing token by token

A script can be parsed without its lines being known: a parser that pulls tokens from a stream one
by one, with one token of lookahead, reads a statement and the end of its line by turns.

* `StreamParser` is such a parser.  Nothing is known of the tokens ahead of it that could bound its
  recursion, so its functions take fuel, and one that runs out of it gives nothing.
  `StreamParser.Parses` says that parsing ends.
* `Upcoming` says which tokens are still to come: those up to the end of the input, whatever the
  stream gives behind that.
-/

namespace WireScript

/-! ## The parser -/

/-- A position in a stream of tokens: the tokens behind it, the latest first, the next token, the
stream behind that, and the reports made so far, the latest first. -/
structure StreamParser (σ : Type) where
  consumed : List Token
  current : Token
  stream : σ
  reports : List (Report SyntaxError)

namespace StreamParser

variable {σ : Type}

/-- Adds a report. -/
def report (s : StreamParser σ) (cause : SyntaxError) (span : Span) : StreamParser σ :=
  { s with reports := ⟨cause, span⟩ :: s.reports }

/-- Reports that the next token is not what is wanted. -/
def unexpected (s : StreamParser σ) (wanted : Wanted) : StreamParser σ :=
  let t := s.current
  if t.isEnd then s.report (.unexpectedEnd wanted) t.span
  else s.report (.unexpectedToken wanted t.describe) t.span

/-- Where the tokens read so far end. -/
def lastStop (s : StreamParser σ) : Location :=
  (s.consumed.headD s.current).span.stop

/-- The stretch from the start of a token to the end of the tokens read so far. -/
def spanFrom (s : StreamParser σ) (start : Token) : Span :=
  ⟨start.span.start, s.lastStop⟩

/-- Whether the next token ends a line or the input. -/
def endsLine (s : StreamParser σ) : Bool :=
  s.current.isNewline || s.current.isEnd

/-- The source text of the operand that starts at one position and ends at another.  Without the
source at hand it is put together from the tokens. -/
def operandText (source : Option Text) (start stop : StreamParser σ) : Text :=
  match source with
  | some source =>
    (source.slice start.current.span.start.offset stop.lastStop.offset).stripped
  | none =>
    let taken := stop.consumed.length - start.consumed.length
    Text.join " " ((stop.consumed.take taken).reverse.map (·.lexeme))

variable [Std.Stream σ Token]

/-- Takes the next token from a stream.  A stream without one ends the input at the given place. -/
def pull (here : Location) (stream : σ) : Token × σ :=
  (Std.Stream.next? stream).getD (.atEnd here, stream)

/-- The beginning of a stream. -/
def ofStream (stream : σ) : StreamParser σ :=
  let (t, stream) := pull .first stream
  ⟨[], t, stream, []⟩

/-- The position after the next token.  The end of the input is never passed. -/
def advance (s : StreamParser σ) : StreamParser σ :=
  if s.current.isEnd then s
  else
    let (t, stream) := pull s.current.span.stop s.stream
    { s with consumed := s.current :: s.consumed, current := t, stream := stream }

theorem advance_eq {s : StreamParser σ} (h : s.current.isEnd = false) :
    s.advance = ⟨s.current :: s.consumed, (pull s.current.span.stop s.stream).1,
      (pull s.current.span.stop s.stream).2, s.reports⟩ :=
  if_neg (by simp [h])

/-- Stands in for an operand that is not there, and passes over the token in its place unless that
ends the line. -/
def missingOperand (s : StreamParser σ) : Expr Span × StreamParser σ :=
  let q := s.unexpected .expression
  (.string s.current.span [], if s.endsLine then q else q.advance)

mutual

/-- Reads an expression: an assignment, or operands and operators. -/
def expression : Nat → StreamParser σ → Option (Expr Span × StreamParser σ)
  | 0, _ => none
  | fuel + 1, s => do
    let start := s.current
    let (target, q) ← chain fuel 1 s
    let sign := q.current
    if sign.isMark .assign then
      let (value, q) ← expression fuel q.advance
      match target, start.isMark .openGroup with
      | .name note name, false => return (.assign (q.spanFrom start) note name value, q)
      | _, _ => return (target, q.report .assignmentTarget ⟨start.span.start, sign.span.start⟩)
    else return (target, q)

/-- Reads operands and the operators between them that bind at least as tightly as given. -/
def chain : Nat → Nat → StreamParser σ → Option (Expr Span × StreamParser σ)
  | 0, _, _ => none
  | fuel + 1, least, s => do
    let (left, q) ← unary fuel s
    chainRest fuel least s.current none left q

/-- Reads on after an operand: the operator `last` in front of it, if there is one, has been dealt
with. -/
def chainRest : Nat → Nat → Token → Option Operator → Expr Span → StreamParser σ →
    Option (Expr Span × StreamParser σ)
  | 0, _, _, _, _, _ => none
  | fuel + 1, least, start, last, left, s =>
    match s.current.operator? with
    | none => return (left, s)
    | some op =>
      if op.precedence < least || LineParser.refuses last op then return (left, s)
      else do
        let (right, q) ← chain fuel (op.precedence + 1) s.advance
        chainRest fuel least start (some op) (op.apply (q.spanFrom start) left right) q

/-- Reads an operand with the negations and minus signs in front of it. -/
def unary : Nat → StreamParser σ → Option (Expr Span × StreamParser σ)
  | 0, _ => none
  | fuel + 1, s =>
    let start := s.current
    match start.kind with
    | .mark .not => do
      let (operand, q) ← unary fuel s.advance
      return (.not (q.spanFrom start) operand, q)
    | .mark .minus => do
      let (operand, q) ← unary fuel s.advance
      return (.binary (q.spanFrom start) .sub (.integer start.span 0) operand, q)
    | _ => primary fuel s

/-- Reads a name, a literal, a dot, a group or a template. -/
def primary : Nat → StreamParser σ → Option (Expr Span × StreamParser σ)
  | 0, _ => none
  | fuel + 1, s =>
    let t := s.current
    match t.kind with
    | .name name => return (.name t.span name, s.advance)
    | .integer n => return (.integer t.span n, s.advance)
    | .string text => return (.string t.span text, s.advance)
    | .mark .dot => return (.dot t.span, s.advance)
    | .mark .openGroup => do
      let (inner, q) ← expression fuel s.advance
      if q.current.isMark .closeGroup then return (inner, q.advance)
      else return (inner, q.report .unclosedGroup ⟨t.span.start, q.current.span.start⟩)
    | .templateStart text continues => do
      let (parts, q) ← segments fuel t.span text continues s.advance
      return (LineParser.template q.lastStop parts, q)
    | _ => return s.missingOperand

/-- Reads the rest of a template after the segment with the given text. -/
def segments : Nat → Span → Text → Bool → StreamParser σ →
    Option (List (Expr Span) × StreamParser σ)
  | 0, _, _, _, _ => none
  | fuel + 1, span, text, continues, s =>
    let literal := LineParser.segmentParts span text
    if continues then do
      let (embedded, q) ← expression fuel s
      let t := q.current
      match t.kind with
      | .templatePart text continues =>
        let (others, q) ← segments fuel t.span text continues q.advance
        return (literal ++ embedded :: others, q)
      | _ => return (literal ++ [embedded], q.report .unclosedTemplate t.span)
    else return (literal, s)

end

/-- Passes over what is left of a line. -/
def skipLine : Nat → StreamParser σ → Option (StreamParser σ)
  | 0, _ => none
  | fuel + 1, s => if s.endsLine then return s else skipLine fuel s.advance

/-- Passes over the ends of lines. -/
def skipNewlines : Nat → StreamParser σ → Option (StreamParser σ)
  | 0, _ => none
  | fuel + 1, s => if s.current.isNewline then skipNewlines fuel s.advance else return s

/-- Checks that the line is used up, unless something was found wrong with it, and passes over its
end. -/
def finish (fuel : Nat) (failed : Bool) (s : StreamParser σ) : Option (StreamParser σ) := do
  let s ← skipLine fuel (if s.endsLine || failed then s else s.unexpected .newline)
  return if s.current.isNewline then s.advance else s

/-- Reads a statement and the end of its line. -/
def statement (fuel : Nat) (source : Option Text) (s : StreamParser σ) :
    Option (Stmt Span × StreamParser σ) := do
  let start := s.current
  let failed (q : StreamParser σ) : Bool := s.reports.length < q.reports.length
  match start.kind with
  | .mark .greater =>
    let (value, q) ← s.advance.expression fuel
    return (.send (q.spanFrom start) value, ← q.finish fuel (failed q))
  | .mark .less =>
    let (pattern, q) ← s.advance.expression fuel
    return (.receive (q.spanFrom start) pattern (operandText source s.advance q),
      ← q.finish fuel (failed q))
  | .mark .tilde =>
    let (condition, q) ← s.advance.expression fuel
    return (.assert (q.spanFrom start) condition (operandText source s.advance q),
      ← q.finish fuel (failed q))
  | _ =>
    let (value, q) ← s.expression fuel
    return (.expr value.note value, ← q.finish fuel (failed q))

/-- Reads statements up to the end of the input. -/
def statements (source : Option Text) :
    Nat → StreamParser σ → Option (List (Stmt Span) × StreamParser σ)
  | 0, _ => none
  | fuel + 1, s => do
    let s ← s.skipNewlines fuel
    if s.current.isEnd then return ([], s)
    else
      let (first, s) ← s.statement fuel source
      let (others, s) ← statements source fuel s
      return (first :: others, s)

/-- Reads a script from a stream of tokens. -/
def script (fuel : Nat) (source : Option Text) (stream : σ) :
    Option (Script Span × StreamParser σ) := do
  let s := ofStream stream
  let (statements, q) ← s.statements source fuel
  return (⟨q.spanFrom s.current, statements⟩, q)

/-- The tokens that come up to the end of the input, the token that ends it, and the stream behind
that. -/
inductive Upcoming : StreamParser σ → List Token → Token → σ → Prop where
  | stop {s : StreamParser σ} (h : s.current.isEnd) : Upcoming s [] s.current s.stream
  | token {s : StreamParser σ} {ts : List Token} {stop : Token} {left : σ}
      (h : s.current.isEnd = false) (hts : Upcoming s.advance ts stop left) :
      Upcoming s (s.current :: ts) stop left

variable {s q : StreamParser σ} {t stop : Token} {ts us : List Token} {left : σ}

theorem Upcoming.current_eq (h : s.Upcoming ts stop left) : s.current = ts.headD stop := by
  cases h <;> rfl

theorem Upcoming.isEnd_stop (h : s.Upcoming ts stop left) : stop.isEnd := by
  induction h with
  | stop h => exact h
  | token _ _ ih => exact ih

theorem Upcoming.isEnd_of_mem (h : s.Upcoming ts stop left) : ∀ t ∈ ts, t.isEnd = false := by
  induction h with
  | stop h => exact List.forall_mem_nil _
  | token h _ ih => exact List.forall_mem_cons.2 ⟨h, ih⟩

theorem Upcoming.advance (h : s.Upcoming (t :: ts) stop left) :
    s.advance.Upcoming ts stop left := by
  cases h with
  | token _ hts => exact hts

theorem Upcoming.consumed_advance (h : s.Upcoming (t :: ts) stop left) :
    s.advance.consumed = t :: s.consumed ∧ s.advance.reports = s.reports := by
  cases h with
  | token h _ =>
    rw [advance_eq h]
    exact ⟨rfl, rfl⟩

/-- Reports make no difference to what comes. -/
theorem Upcoming.report (h : s.Upcoming ts stop left) (cause : SyntaxError) (span : Span) :
    (s.report cause span).Upcoming ts stop left := by
  induction h with
  | @stop s h => exact .stop (s := s.report cause span) h
  | @token s ts stop left h _ ih =>
    have hend : (s.report cause span).current.isEnd = false := h
    have hadvance : (s.report cause span).advance = s.advance.report cause span := by
      rw [advance_eq hend, advance_eq h]
      rfl
    exact .token hend (hadvance ▸ ih)

end StreamParser

end WireScript
