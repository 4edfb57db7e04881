import WireScript.Number.Word
import WireScript.Text.Digit
import WireScript.Text.Utf8
import WireScript.Token.Cursor
import WireScript.Token.Error

/-!
# Literals

How integers, strings and the segments of templates are read.  Each reader starts at the first
code point of the literal, goes as far as the literal extends, and reports what is wrong with it
on the way:

* integers are decimal, hexadecimal after `0x`, or octal after `0`, and wrap into 64 bits; the
  digits of a decimal integer are not converted at all if there are too many of them;
* strings stand between double quotes on one line and have escapes;
* segments of templates are taken as they are, up to an opening brace or the end of the line.
-/

namespace WireScript

/-- What a reader found: a value, the reports on it in order, and where it stopped. -/
structure Reading (α : Type) where
  value : α
  reports : List (Report LexicalError) := []
  after : Cursor

namespace Literal

/-! ## Integers -/

/-- The base of the integer that starts at `opening`, and where its digits start. -/
def integerBody (opening : Cursor) : Nat × Cursor :=
  if opening.peek == some (.scalar '0') then
    if opening.next.peek.any (·.isIn ['x', 'X']) then (16, opening.next.next)
    else (8, opening.next)
  else (10, opening)

/-- Reads an integer that starts at `opening`.  Without a digit it is only wrong after `0x`.  The
digits are taken to be convertible, which `integerBreakage?` denies of some lexemes. -/
def integer (opening : Cursor) : Reading Int :=
  let (base, body) := integerBody opening
  let isDigit (p : CodePoint) : Bool := (p.digit? base).isSome
  let digits := (body.read isDigit).filterMap (CodePoint.digit? base)
  let after := body.skip isDigit
  let value := ofDigits base digits
  if (base == 16 && digits.isEmpty) || wordCount ≤ value then
    ⟨0, [⟨.invalidInteger (opening.textTo after), opening.spanTo after⟩], after⟩
  else
    ⟨signed value, [], after⟩

/-- Why an integer cannot be made of a lexeme: it is decimal, as it does not start with a zero, and
has more digits than are converted, whatever their value. -/
def integerBreakage? (lexeme : Text) : Option Breakage :=
  if lexeme.head? != some (.scalar '0') && Number.digitLimit < lexeme.length then
    some (.tooManyDigits lexeme.length)
  else none

theorem after_integer (opening : Cursor) :
    (integer opening).after = (integerBody opening).2.skip
      fun p => (p.digit? (integerBody opening).1).isSome := by
  unfold integer
  dsimp only
  split <;> rfl

theorem reaches_integer (here : Location) {p : CodePoint} (rest : Text)
    (h : p.isDigit = true) :
    Cursor.Reaches ⟨here.next p, rest⟩ (integer ⟨here, p :: rest⟩).after := by
  rw [after_integer]
  unfold integerBody
  split
  · split
    · exact (Cursor.reaches_next _).trans (Cursor.reaches_skip _ _)
    · exact Cursor.reaches_skip _ _
  · refine Cursor.reaches_skip_cons here rest ?_
    simp only [CodePoint.isDigit, Bool.and_eq_true, decide_eq_true_eq] at h
    simp only [CodePoint.digit?, CodePoint.digitValue, h, and_self, if_true]
    rw [if_pos (by omega)]
    rfl

/-! ## Strings -/

/-- The character that a one-letter escape stands for. -/
def simpleEscape (p : CodePoint) : Option Char :=
  [('a', '\x07'), ('b', '\x08'), ('f', '\x0C'), ('n', '\n'), ('r', '\r'), ('t', '\t'),
    ('v', '\x0B'), ('\\', '\\'), ('"', '"')].findSome? fun (letter, c) =>
      if p.is letter then some c else none

/-- The form of a numeric escape: how many digits of which base, and whether they give a byte or a
code point. -/
structure NumericForm where
  digits : Nat
  base : Nat
  isByte : Bool
  deriving DecidableEq

namespace NumericForm

/-- The form of an escape that has only digits. -/
def octal : NumericForm := ⟨3, 8, true⟩

/-- The form that a letter introduces. -/
def ofLetter (p : CodePoint) : Option NumericForm :=
  if p.is 'x' then some ⟨2, 16, true⟩
  else if p.is 'u' then some ⟨4, 16, false⟩
  else if p.is 'U' then some ⟨8, 16, false⟩
  else none

/-- The largest value that the form may have. -/
def limit (form : NumericForm) : Nat :=
  if form.isByte then 0xFF else 0x10FFFF

/-- Whether a value can stand for a byte or a code point of the form. -/
def admits (form : NumericForm) (value : Nat) : Bool :=
  value ≤ form.limit && !(0xD800 ≤ value && value < 0xE000)

/-- The code point that a value of the form stands for. -/
def codePoint (form : NumericForm) (value : Nat) : CodePoint :=
  if form.isByte && 0x80 ≤ value then Utf8.escaped (UInt8.ofNat value)
  else .scalar (Char.ofNat value)

end NumericForm

/-- The digits of a numeric escape, as many as there are up to a count. -/
structure EscapeDigits where
  value : Nat
  /-- How many digits are missing. -/
  missing : Nat
  after : Cursor

/-- Reads up to `count` digits that continue a number. -/
def escapeDigits (base : Nat) (count value : Nat) (c : Cursor) : EscapeDigits :=
  match count with
  | 0 => ⟨value, 0, c⟩
  | missing + 1 =>
    match c.peek.bind (CodePoint.digit? base) with
    | some d => escapeDigits base missing (value * base + d) c.next
    | none => ⟨value, missing + 1, c⟩

/-- Passes over up to `count` code points of the same string. -/
def skipEscape (count : Nat) (c : Cursor) : Cursor :=
  match count with
  | 0 => c
  | count + 1 =>
    match c.peek with
    | some p => if p.isIn ['"', '\n'] then c else skipEscape count c.next
    | none => c

/-- Reads the digits of a numeric escape whose backslash is at `opening`. -/
def numericEscape (form : NumericForm) (opening c : Cursor) : Reading Text :=
  let digits := escapeDigits form.base form.digits 0 c
  let after := skipEscape digits.missing digits.after
  let short : List (Report LexicalError) :=
    if digits.missing = 0 then []
    else [⟨.illegalEscapeCharacter, .empty digits.after.here⟩]
  let outside : List (Report LexicalError) :=
    if form.admits digits.value then [] else [⟨.invalidCodePoint, opening.spanTo after⟩]
  let reports := short ++ outside
  ⟨if reports.isEmpty then [form.codePoint digits.value] else [], reports, after⟩

/-- Reports an escape that the code points up to `after` do not make. -/
def unknownEscape (introducer : Text) (opening after : Cursor) : Reading Text :=
  ⟨[], [⟨.unknownEscape introducer, opening.spanTo after⟩], after⟩

/-- Reads an escape whose backslash is at `opening` and in front of `c`.  The end of the line is
left to the string, which cannot be closed there, and a null character is not shown. -/
def escape (opening c : Cursor) : Reading Text :=
  match c.peek with
  | none => unknownEscape [] opening c
  | some p =>
    match simpleEscape p, NumericForm.ofLetter p with
    | some ch, _ => ⟨[.scalar ch], [], c.next⟩
    | none, some form => numericEscape form opening c.next
    | none, none =>
      if (p.digit? 8).isSome then numericEscape .octal opening c
      else if p.is '\n' then unknownEscape [p] opening c
      else unknownEscape (if p.is '\x00' then [] else [p]) opening c.next

theorem reaches_escapeDigits (base count value : Nat) (c : Cursor) :
    c.Reaches (escapeDigits base count value c).after := by
  induction count generalizing value c with
  | zero => exact .refl c
  | succ count ih =>
    unfold escapeDigits
    split
    · exact (Cursor.reaches_next c).trans (ih _ _)
    · exact .refl c

theorem reaches_skipEscape (count : Nat) (c : Cursor) : c.Reaches (skipEscape count c) := by
  induction count generalizing c with
  | zero => exact .refl c
  | succ count ih =>
    unfold skipEscape
    split
    · split
      · exact .refl c
      · exact (Cursor.reaches_next c).trans (ih _)
    · exact .refl c

theorem reaches_numericEscape (form : NumericForm) (opening c : Cursor) :
    c.Reaches (numericEscape form opening c).after :=
  (reaches_escapeDigits form.base form.digits 0 c).trans (reaches_skipEscape _ _)

theorem reaches_escape (opening c : Cursor) : c.Reaches (escape opening c).after := by
  unfold escape
  split
  · exact .refl c
  · split
    · exact Cursor.reaches_next c
    · exact (Cursor.reaches_next c).trans (reaches_numericEscape _ _ _)
    · split
      · exact reaches_numericEscape _ _ _
      · split
        · exact .refl c
        · exact Cursor.reaches_next c

/-- Reads what stands between the quotes of a string that starts at `opening`, and the closing
quote. -/
def stringBody (opening : Cursor) (c : Cursor) : Reading Text :=
  match c with
  | ⟨here, []⟩ => ⟨[], [⟨.unterminatedString, opening.spanTo ⟨here, []⟩⟩], ⟨here, []⟩⟩
  | ⟨here, p :: rest⟩ =>
    let c : Cursor := ⟨here, p :: rest⟩
    let after : Cursor := ⟨here.next p, rest⟩
    if p.is '\n' then ⟨[], [⟨.unterminatedString, opening.spanTo c⟩], c⟩
    else if p.is '"' then ⟨[], [], after⟩
    else if p.is '\\' then
      let first := escape c after
      let others := stringBody opening first.after
      ⟨first.value ++ others.value, first.reports ++ others.reports, others.after⟩
    else
      let others := stringBody opening after
      ⟨p :: others.value, others.reports, others.after⟩
termination_by c.rest.length
decreasing_by
  · have := (reaches_escape ⟨here, p :: rest⟩ ⟨here.next p, rest⟩).length_le
    simp only [List.length_cons] at *
    omega
  · simp

/-- Reads a string that starts at `opening`.  Its value is in canonical form, so that two strings
are equal when they stand for the same bytes.  A stray surrogate stands for none, and a text that
holds one stays as it is. -/
def string (opening : Cursor) : Reading Text :=
  let body := stringBody opening opening.next
  { body with value := body.value.canonical.getD body.value }

theorem reaches_stringBody (opening c : Cursor) : c.Reaches (stringBody opening c).after := by
  fun_induction stringBody opening c with
  | case1 here => exact .refl _
  | case2 => exact .refl _
  | case3 here p rest => exact Cursor.reaches_cons here p rest
  | case4 here p rest c after _ _ _ first others ih =>
    exact ((Cursor.reaches_cons here p rest).trans (reaches_escape c after)).trans ih
  | case5 here p rest after _ _ _ others ih =>
    exact (Cursor.reaches_cons here p rest).trans ih

theorem reaches_string (opening : Cursor) : opening.next.Reaches (string opening).after :=
  reaches_stringBody opening opening.next

/-! ## Segments of templates -/

/-- The text of a template segment, and whether an expression follows it. -/
structure Segment where
  text : Text
  continues : Bool
  deriving DecidableEq

/-- Reads the segment after the colon or brace at `opening`.  At the end of a line one carriage
return belongs to the line and not to the segment. -/
def segment (opening : Cursor) : Reading Segment :=
  let body := opening.next
  let inSegment (p : CodePoint) : Bool := !p.isIn ['\n', '{']
  let text := body.read inSegment
  let stop := body.skip inSegment
  if stop.peek == some (.scalar '{') then ⟨⟨text, true⟩, [], stop.next⟩
  else
    let text := if text.getLast? == some (.scalar '\r') then text.dropLast else text
    ⟨⟨text, false⟩, [], stop⟩

theorem reaches_segment (opening : Cursor) : opening.next.Reaches (segment opening).after := by
  unfold segment
  dsimp only
  split
  · exact (Cursor.reaches_skip _ _).trans (Cursor.reaches_next _)
  · exact Cursor.reaches_skip _ _

end Literal

end WireScript
