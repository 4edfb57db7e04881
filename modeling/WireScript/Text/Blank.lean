import WireScript.Text.Basic

/-!
# White space

Two sets of white space matter.  The Unicode one is trimmed from remembered source text and from
settings; the ASCII one surrounds a number that is written in ASCII alone.
-/

namespace WireScript.CodePoint

/-- Whether a code point is one of the six ASCII characters that separate words. -/
def isAsciiBlank (p : CodePoint) : Bool :=
  let n := p.toNat
  (0x09 ≤ n && n ≤ 0x0D) || n == 0x20

/-- Whether a code point is white space: a bidirectional paragraph or segment separator, a space
separator, or one of the ASCII separators. -/
def isBlank (p : CodePoint) : Bool :=
  let n := p.toNat
  (0x09 ≤ n && n ≤ 0x0D) || (0x1C ≤ n && n ≤ 0x20) || n == 0x85 || n == 0xA0 || n == 0x1680 ||
    (0x2000 ≤ n && n ≤ 0x200A) || n == 0x2028 || n == 0x2029 || n == 0x202F || n == 0x205F ||
    n == 0x3000

end WireScript.CodePoint

namespace WireScript.Text

variable {t w : Text} {q : CodePoint → Bool}

theorem dropTrailing_append (t : Text) (hw : ∀ p ∈ w, q p = true) :
    dropTrailing q (t ++ w) = dropTrailing q t := by
  have hreverse : ∀ p ∈ w.reverse, q p = true := fun p hp => hw p (List.mem_reverse.1 hp)
  rw [dropTrailing, dropTrailing, List.reverse_append, List.dropWhile_append_of_pos hreverse]

/-- What is dropped is dropped from the last part, if something of it is left. -/
theorem dropTrailing_append_right (t : Text) (hw : dropTrailing q w ≠ []) :
    dropTrailing q (t ++ w) = t ++ dropTrailing q w := by
  have hleft : ¬ (w.reverse.dropWhile q).isEmpty = true := by
    simpa [dropTrailing] using hw
  rw [dropTrailing, List.reverse_append, List.dropWhile_append, if_neg hleft,
    List.reverse_append, List.reverse_reverse, dropTrailing]

/-- Nothing is dropped behind a code point that stays. -/
theorem dropTrailing_of_getLast? (h : ∀ p, t.getLast? = some p → q p = false) :
    dropTrailing q t = t := by
  rcases List.eq_nil_or_concat t with rfl | ⟨u, p, rfl⟩
  · rfl
  · rw [List.concat_eq_append] at h ⊢
    have hp : q p = false := h p List.getLast?_concat
    simp [dropTrailing, hp]

theorem dropTrailing_prefix (t : Text) : dropTrailing q t <+: t := by
  have hsuffix : t.reverse.dropWhile q <:+ t.reverse := List.dropWhile_suffix q
  simpa [dropTrailing] using List.reverse_prefix.2 hsuffix

/-- A text without the white space at its two ends. -/
def stripped (t : Text) : Text :=
  t.trim CodePoint.isBlank

/-- White space behind a text is not part of the stripped text. -/
theorem stripped_append (t : Text) (hw : ∀ p ∈ w, p.isBlank = true) :
    stripped (t ++ w) = stripped t := by
  have hblank : (w ++ []).dropWhile CodePoint.isBlank = [] := List.dropWhile_append_of_pos hw
  rw [List.append_nil] at hblank
  unfold stripped trim
  rw [List.dropWhile_append]
  split
  · next hempty => rw [List.isEmpty_iff.1 hempty, hblank]
  · exact dropTrailing_append _ hw

/-- A text that starts with something visible is stripped at its end only. -/
theorem stripped_of_head? (h : ∀ p, t.head? = some p → p.isBlank = false) :
    stripped t = dropTrailing CodePoint.isBlank t := by
  have hfront : t.dropWhile CodePoint.isBlank = t := by
    cases t with
    | nil => rfl
    | cons p t => exact List.dropWhile_cons_of_neg (by simp [h p rfl])
  rw [stripped, trim, hfront]

end WireScript.Text
