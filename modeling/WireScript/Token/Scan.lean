import WireScript.Token.Basic
import WireScript.Token.Literal

/-!
# Scanning

Scanning cuts a source text into tokens.  Every report is made in passing: a fault in one token
does not keep the ones after it from being read, and a whole text always ends in exactly one token
for the end of the input.

A token that cannot be made breaks this off.  `scan` passes over what breaks off and says what the
tokens are spelled like; `tokenize` gives the tokens that can be made, and it is what everything
that is done with a source goes through.
-/

namespace WireScript

/-- White space between tokens.  The line feed is not part of it, since it is a token. -/
def isSpacing (p : CodePoint) : Bool :=
  p.isIn [' ', '\t', '\r']

/-- The tokens of one character. -/
def singleMark : CodePoint → Option TokenKind
  | .scalar '\n' => some .newline
  | .scalar '(' => some (.mark .openGroup)
  | .scalar ')' => some (.mark .closeGroup)
  | .scalar '.' => some (.mark .dot)
  | .scalar '~' => some (.mark .tilde)
  | .scalar '+' => some (.mark .plus)
  | .scalar '-' => some (.mark .minus)
  | .scalar '*' => some (.mark .star)
  | .scalar '/' => some (.mark .slash)
  | .scalar '%' => some (.mark .percent)
  | _ => none

/-- The tokens that change when an equals sign follows: the token alone, and with the sign. -/
def equalsPair : CodePoint → Option (Mark × Mark)
  | .scalar '=' => some (.assign, .equal)
  | .scalar '!' => some (.not, .notEqual)
  | .scalar '<' => some (.less, .atMost)
  | .scalar '>' => some (.greater, .atLeast)
  | _ => none

/-- Reads a token that must be doubled. -/
def doubled (opening : Cursor) (p : CodePoint) (mark : Mark) (alone : LexicalError) :
    Reading TokenKind :=
  let after := opening.next
  if after.peek == some p then ⟨.mark mark, [], after.next⟩
  else ⟨.invalid, [⟨alone, opening.spanTo after⟩], after⟩

/-- Reads the token that starts with the code point `p` at `opening`. -/
def tokenKind (opening : Cursor) (p : CodePoint) : Reading TokenKind :=
  if p.isLetter then
    let inName (p : CodePoint) : Bool := p.isLetter || p.isDigit
    ⟨.name (opening.read inName), [], opening.skip inName⟩
  else if p.isDigit then
    let r := Literal.integer opening
    ⟨.integer r.value, r.reports, r.after⟩
  else if p.is '"' then
    let r := Literal.string opening
    ⟨.string r.value, r.reports, r.after⟩
  else if p.is ':' then
    let r := Literal.segment opening
    ⟨.templateStart r.value.text r.value.continues, r.reports, r.after⟩
  else if p.is '}' then
    let r := Literal.segment opening
    ⟨.templatePart r.value.text r.value.continues, r.reports, r.after⟩
  else if p.is '&' then doubled opening p .and .loneAmpersand
  else if p.is '|' then doubled opening p .or .loneBar
  else
    let after := opening.next
    match singleMark p, equalsPair p with
    | some kind, _ => ⟨kind, [], after⟩
    | none, some (alone, withEquals) =>
      if after.peek == some (.scalar '=') then ⟨.mark withEquals, [], after.next⟩
      else ⟨.mark alone, [], after⟩
    | none, none => ⟨.invalid, [⟨.invalidCharacter p, opening.spanTo after⟩], after⟩

/-- A token of one character is the end of a line or a mark. -/
theorem singleMark_cases {p : CodePoint} {kind : TokenKind} (h : singleMark p = some kind) :
    kind = .newline ∨ ∃ mark, kind = .mark mark := by
  unfold singleMark at h
  split at h <;> cases h
  case h_1 => exact Or.inl rfl
  all_goals exact Or.inr ⟨_, rfl⟩

/-- A token that must be doubled is a mark, or none. -/
theorem doubled_cases (opening : Cursor) (p : CodePoint) (mark : Mark) (alone : LexicalError) :
    (doubled opening p mark alone).value = .mark mark ∨
      (doubled opening p mark alone).value = .invalid := by
  unfold doubled
  dsimp only
  split
  · exact Or.inl rfl
  · exact Or.inr rfl

/-- What a segment of a template is, by the code point that opens it. -/
inductive OpensSegment : CodePoint → (Text → Bool → TokenKind) → Prop where
  | start : OpensSegment (.scalar ':') .templateStart
  | part : OpensSegment (.scalar '}') .templatePart

theorem OpensSegment.kind_eq {p : CodePoint} {kind : Text → Bool → TokenKind}
    (h : OpensSegment p kind) : kind = .templateStart ∨ kind = .templatePart := by
  cases h
  · exact Or.inl rfl
  · exact Or.inr rfl

/-- A token is read in one of eight ways, and its first code point says in which. -/
theorem tokenKind_cases {motive : (Cursor → Reading TokenKind) → Prop} (p : CodePoint)
    (name : p.isLetter → motive fun c => ⟨.name (c.read fun p => p.isLetter || p.isDigit), [],
      c.skip fun p => p.isLetter || p.isDigit⟩)
    (integer : p.isDigit → motive fun c => ⟨.integer (Literal.integer c).value,
      (Literal.integer c).reports, (Literal.integer c).after⟩)
    (string : p.is '"' → motive fun c => ⟨.string (Literal.string c).value,
      (Literal.string c).reports, (Literal.string c).after⟩)
    (segment : ∀ kind : Text → Bool → TokenKind, OpensSegment p kind → motive fun c =>
      ⟨kind (Literal.segment c).value.text (Literal.segment c).value.continues,
        (Literal.segment c).reports, (Literal.segment c).after⟩)
    (double : ∀ mark alone, p = .scalar '&' ∧ mark = .and ∧ alone = .loneAmpersand ∨
      p = .scalar '|' ∧ mark = .or ∧ alone = .loneBar → motive fun c => doubled c p mark alone)
    (single : ∀ kind, singleMark p = some kind → motive fun c => ⟨kind, [], c.next⟩)
    (pair : ∀ alone withEquals, equalsPair p = some (alone, withEquals) → motive fun c =>
      if c.next.peek == some (.scalar '=') then ⟨.mark withEquals, [], c.next.next⟩
      else ⟨.mark alone, [], c.next⟩)
    (invalid : motive fun c => ⟨.invalid, [⟨.invalidCharacter p, c.spanTo c.next⟩], c.next⟩) :
    motive fun c => tokenKind c p := by
  unfold tokenKind
  by_cases hletter : p.isLetter
  · simpa only [if_pos hletter] using name hletter
  by_cases hdigit : p.isDigit
  · simpa only [if_neg hletter, if_pos hdigit] using integer hdigit
  simp only [if_neg hletter, if_neg hdigit]
  by_cases hquote : p.is '"'
  · simpa only [if_pos hquote] using string hquote
  by_cases hcolon : p.is ':'
  · simpa only [if_neg hquote, if_pos hcolon] using segment _ (beq_iff_eq.1 hcolon ▸ .start)
  by_cases hbrace : p.is '}'
  · simpa only [if_neg hquote, if_neg hcolon, if_pos hbrace] using
      segment _ (beq_iff_eq.1 hbrace ▸ .part)
  simp only [if_neg hquote, if_neg hcolon, if_neg hbrace]
  by_cases hand : p.is '&'
  · simpa only [if_pos hand] using double _ _ (Or.inl ⟨beq_iff_eq.1 hand, rfl, rfl⟩)
  by_cases hor : p.is '|'
  · simpa only [if_neg hand, if_pos hor] using double _ _ (Or.inr ⟨beq_iff_eq.1 hor, rfl, rfl⟩)
  simp only [if_neg hand, if_neg hor]
  cases hsingle : singleMark p with
  | some kind => exact single kind hsingle
  | none =>
    cases hpair : equalsPair p with
    | some marks => exact pair marks.1 marks.2 hpair
    | none => exact invalid

theorem reaches_doubled (opening : Cursor) (p : CodePoint) (mark : Mark) (alone : LexicalError) :
    opening.next.Reaches (doubled opening p mark alone).after := by
  simp only [doubled]
  split
  · exact Cursor.reaches_next _
  · exact .refl _

/-- A token takes at least its first code point. -/
theorem reaches_tokenKind (here : Location) (p : CodePoint) (rest : Text) :
    Cursor.Reaches ⟨here.next p, rest⟩ (tokenKind ⟨here, p :: rest⟩ p).after := by
  apply tokenKind_cases p (motive := fun read =>
    Cursor.Reaches ⟨here.next p, rest⟩ (read ⟨here, p :: rest⟩).after)
  case name => exact fun hletter => Cursor.reaches_skip_cons here rest (by simp [hletter])
  case integer => exact fun hdigit => Literal.reaches_integer here rest hdigit
  case string => exact fun _ => Literal.reaches_string ⟨here, p :: rest⟩
  case segment => exact fun _ _ => Literal.reaches_segment ⟨here, p :: rest⟩
  case double => exact fun _ _ _ => reaches_doubled ⟨here, p :: rest⟩ _ _ _
  case single => exact fun _ _ => .refl _
  case pair =>
    intro alone withEquals _
    dsimp only
    split
    · exact Cursor.reaches_next _
    · exact .refl _
  case invalid => exact .refl _

/-- The tokens of a source text, and the reports on their spelling. -/
structure Scan where
  tokens : List Token
  reports : List (Report LexicalError)

/-- The tokens from a cursor to the end of its text. -/
def scanFrom (c : Cursor) : Scan :=
  match _ahead : c.skip isSpacing with
  | ⟨here, []⟩ => ⟨[.atEnd here], []⟩
  | ⟨here, p :: rest⟩ =>
    let opening : Cursor := ⟨here, p :: rest⟩
    let first := tokenKind opening p
    let others := scanFrom first.after
    ⟨⟨first.value, opening.textTo first.after, opening.spanTo first.after⟩ :: others.tokens,
      first.reports ++ others.reports⟩
termination_by c.rest.length
decreasing_by
  have spaced := (Cursor.reaches_skip isSpacing c).length_le
  have read := (reaches_tokenKind here p rest).length_le
  rw [_ahead] at spaced
  simp only [List.length_cons] at spaced read
  omega

/-- The tokens of a text. -/
def scan (source : Text) : Scan :=
  scanFrom (.ofText source)

/-- Whether every string in a scan has a form on the wire.  A string without one holds a stray
surrogate, which no decoded source does. -/
def Scan.isEncodable (s : Scan) : Bool :=
  s.tokens.all fun t => match t.kind with
    | .string value => value.isEncodable
    | _ => true

/-- Why a token cannot be made, if it cannot. -/
def Token.breakage? (t : Token) : Option Breakage :=
  match t.kind with
  | .string value => if value.isEncodable then none else some .unencodable
  | .integer _ => Literal.integerBreakage? t.lexeme
  | _ => none

/-- Why the tokens of a scan cannot be made; the first that cannot counts. -/
def Scan.breakage? (s : Scan) : Option Breakage :=
  s.tokens.findSome? Token.breakage?

/-- A scan all of whose tokens can be made. -/
def Scan.check (s : Scan) : Except Breakage Scan :=
  match s.breakage? with
  | some cause => .error cause
  | none => .ok s

/-- The tokens of a text, unless one of them cannot be made. -/
def tokenize (source : Text) : Except Breakage Scan :=
  (scan source).check

/-- A source text that is read once: after the token for the end of the input nothing follows. -/
structure Scanner where
  /-- Where reading goes on, until the end was reached. -/
  at? : Option Cursor

namespace Scanner

/-- A scanner at the beginning of a text. -/
def ofText (source : Text) : Scanner := ⟨some (.ofText source)⟩

/-- All tokens that are left, and the scanner after them, unless one of them cannot be made. -/
def drain (s : Scanner) : Except Breakage (Scan × Scanner) :=
  match s.at? with
  | some c => do return (← (scanFrom c).check, ⟨none⟩)
  | none => return (⟨[], []⟩, s)

end Scanner

end WireScript
