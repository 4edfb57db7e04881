/-!
# Text

Text on a connection is a sequence of Unicode code points.  A peer may send bytes that are no
valid UTF-8, so a code point is one of three things:

* a Unicode scalar value;
* one undecodable byte of the range `0x80` to `0xFF`, which shares its number with the surrogates
  U+DC80 to U+DCFF;
* any other surrogate, which stands for nothing on the wire and can only be written down by hand.

The module fixes the type, its numbering, and the few operations on text that need no knowledge
of UTF-8.
-/

namespace WireScript

/-- One code point of a text. -/
inductive CodePoint where
  /-- A Unicode scalar value. -/
  | scalar (c : Char)
  /-- The undecodable byte `0x80 + low`. -/
  | byte (low : Fin 128)
  /-- A surrogate that stands for no byte, counted from U+D800 with U+DC80 to U+DCFF left out. -/
  | stray (index : Fin 1920)
  deriving DecidableEq, Inhabited

namespace CodePoint

/-- The number of a code point. -/
def toNat : CodePoint → Nat
  | scalar c => c.toNat
  | byte low => 0xDC80 + low
  | stray index => if index.val < 0x480 then 0xD800 + index else 0xD880 + index

/-- The code point with a given number, if the number is below `0x110000`. -/
def ofNat? (n : Nat) : Option CodePoint :=
  if h : n < 0xD800 ∨ (0xDFFF < n ∧ n < 0x110000) then
    some (scalar (Char.ofNatAux n h))
  else if h : 0xD800 ≤ n ∧ n < 0xDC80 then
    some (stray ⟨n - 0xD800, by omega⟩)
  else if h : 0xDC80 ≤ n ∧ n < 0xDD00 then
    some (byte ⟨n - 0xDC80, by omega⟩)
  else if h : 0xDD00 ≤ n ∧ n < 0xE000 then
    some (stray ⟨n - 0xD880, by omega⟩)
  else
    none

/-- The scalar value held by a code point, if it holds one. -/
def char? : CodePoint → Option Char
  | scalar c => some c
  | _ => none

/-- Whether a code point is the given character. -/
def is (p : CodePoint) (c : Char) : Bool :=
  p == scalar c

/-- Whether a code point is one of the given characters. -/
def isIn (p : CodePoint) (cs : List Char) : Bool :=
  cs.any p.is

theorem toNat_injective {p q : CodePoint} (h : p.toNat = q.toNat) : p = q := by
  have scalar_range (c : Char) : c.toNat < 0xD800 ∨ 0xDFFF < c.toNat := by
    have := c.valid
    simp only [UInt32.isValidChar, Nat.isValidChar] at this
    unfold Char.toNat
    omega
  cases p with
  | scalar c =>
    have := scalar_range c
    cases q with
    | scalar d =>
      simp only [toNat] at h
      exact congrArg scalar (Char.toNat_inj.1 h)
    | byte low => simp only [toNat] at h; omega
    | stray index => simp only [toNat] at h; split at h <;> omega
  | byte low =>
    cases q with
    | scalar d => have := scalar_range d; simp only [toNat] at h; omega
    | byte low' => simp only [toNat] at h; exact congrArg byte (Fin.ext (by omega))
    | stray index => simp only [toNat] at h; split at h <;> omega
  | stray index =>
    cases q with
    | scalar d => have := scalar_range d; simp only [toNat] at h; split at h <;> omega
    | byte low => simp only [toNat] at h; split at h <;> omega
    | stray index' =>
      simp only [toNat] at h
      exact congrArg stray (Fin.ext (by split at h <;> split at h <;> omega))

end CodePoint

/-- A sequence of code points. -/
abbrev Text := List CodePoint

namespace Text

/-- The text of a list of characters. -/
def ofChars (cs : List Char) : Text :=
  cs.map .scalar

/-- The text of a string. -/
def ofString (s : String) : Text :=
  ofChars s.toList

instance : Coe String Text := ⟨ofString⟩

/-- A natural number in decimal. -/
def ofNat (n : Nat) : Text :=
  ofChars (Nat.toDigits 10 n)

/-- An integer in decimal, with a minus sign in front of a negative one. -/
def ofInt : Int → Text
  | .ofNat n => ofNat n
  | .negSucc n => .scalar '-' :: ofNat (n + 1)

/-- The texts of a list one after the other, with a separator between neighbours. -/
def join (separator : Text) : List Text → Text
  | [] => []
  | [t] => t
  | t :: rest => t ++ separator ++ join separator rest

/-- The same character a number of times. -/
def copies (n : Nat) (c : Char) : Text :=
  List.replicate n (.scalar c)

/-- A number in lowercase hexadecimal with at least the given number of digits. -/
def hex (width n : Nat) : Text :=
  let digits := ofChars (Nat.toDigits 16 n)
  copies (width - digits.length) '0' ++ digits

/-- A text with spaces put in front of it until it has the given width. -/
def padLeft (width : Nat) (t : Text) : Text :=
  copies (width - t.length) ' ' ++ t

/-- The code points from one position up to another. -/
def slice (start stop : Nat) (t : Text) : Text :=
  (t.drop start).take (stop - start)

/-- A text without the code points at its end that satisfy a predicate. -/
def dropTrailing (p : CodePoint → Bool) (t : Text) : Text :=
  (t.reverse.dropWhile p).reverse

/-- A text without the code points at both ends that satisfy a predicate. -/
def trim (p : CodePoint → Bool) (t : Text) : Text :=
  dropTrailing p (t.dropWhile p)

/-- Whether one text comes before or at another when code points are compared by number. -/
def le : Text → Text → Bool
  | [], _ => true
  | _ :: _, [] => false
  | p :: t, q :: u => p.toNat < q.toNat || (p == q && le t u)

/-- The pieces of a text between the occurrences of a character: one more than there are
occurrences. -/
def pieces (separator : Char) : Text → List Text
  | [] => [[]]
  | p :: t =>
    if p.is separator then [] :: pieces separator t
    else match pieces separator t with
      | [] => [[p]]
      | piece :: rest => (p :: piece) :: rest

/-- The lines of a text.  A text that ends in a line feed has an empty last line. -/
def lines (t : Text) : List Text :=
  t.pieces '\n'

/-- Line `n` of a text, counted from one, without the carriage returns at its end. -/
def line? (t : Text) (n : Nat) : Option Text :=
  if n = 0 then none else (t.lines[n - 1]?).map (dropTrailing (·.is '\r'))

@[simp] theorem length_copies (n : Nat) (c : Char) : (copies n c).length = n :=
  List.length_replicate

@[simp] theorem mem_copies {p : CodePoint} {n : Nat} {c : Char} :
    p ∈ copies n c ↔ n ≠ 0 ∧ p = .scalar c :=
  List.mem_replicate

@[simp] theorem length_padLeft (width : Nat) (t : Text) :
    (padLeft width t).length = max width t.length := by
  rw [padLeft, List.length_append, length_copies]
  omega

@[simp] theorem pieces_nil (separator : Char) : pieces separator [] = [[]] := rfl

theorem pieces_ne_nil (separator : Char) (t : Text) : t.pieces separator ≠ [] := by
  cases t with
  | nil => simp
  | cons p t =>
    unfold pieces
    split
    · simp
    · split <;> simp

end Text

end WireScript
