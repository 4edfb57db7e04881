import WireScript.Proofs.Text.Decoding
import WireScript.Token.Scan

/-!
# Texts in tokens

Everything that a token stands for can be sent if its source can: a code point in a string or in a
segment of a template stands in the source, or an escape gives it, and no escape gives a surrogate
that stands for no byte (`isEncodable_escape`).  `isEncodable_of_mem_scanFrom` says so for all
tokens of a source, whatever is reported about them.  A source that comes as bytes can be sent.
-/

namespace WireScript

/-- The text that a token adds to a tree. -/
def TokenKind.text? : TokenKind → Option Text
  | .string t | .templateStart t _ | .templatePart t _ => some t
  | _ => none

namespace Text

theorem isEncodable_cons {p : CodePoint} {t : Text} :
    isEncodable (p :: t) ↔ isEncodable [p] ∧ t.isEncodable := by
  rw [← Bool.and_eq_true, ← isEncodable_append, List.singleton_append]

theorem isEncodable_scalar (c : Char) : isEncodable [.scalar c] :=
  isEncodable_ofChars [c]

theorem isEncodable_byte (low : Fin 128) : isEncodable [.byte low] := rfl

/-- The first part of a text that can be sent. -/
theorem isEncodable_of_prefix {t u : Text} (h : t <+: u) (hu : u.isEncodable) : t.isEncodable := by
  obtain ⟨v, rfl⟩ := h
  rw [isEncodable_append, Bool.and_eq_true] at hu
  exact hu.1

/-- The last part of a text that can be sent. -/
theorem isEncodable_of_suffix {t u : Text} (h : t <:+ u) (hu : u.isEncodable) : t.isEncodable := by
  obtain ⟨v, rfl⟩ := h
  rw [isEncodable_append, Bool.and_eq_true] at hu
  exact hu.2

/-- The canonical form does not change whether a text can be sent. -/
theorem isEncodable_getD_canonical (t : Text) :
    (t.canonical.getD t).isEncodable = t.isEncodable := by
  cases ht : t.canonical with
  | none => rfl
  | some u =>
    have hu : u.isEncodable = true := (isDecoded_of_canonical ht).isEncodable
    exact hu.trans (isEncodable_iff.2 ⟨u, ht⟩).symm

end Text

theorem Cursor.Reaches.isEncodable {c d : Cursor} (h : c.Reaches d) (hc : c.rest.isEncodable) :
    d.rest.isEncodable :=
  Text.isEncodable_of_suffix ⟨_, h.textTo_append.symm⟩ hc

namespace Literal

/-! ## Strings -/

/-- The code point of a numeric escape can be sent. -/
theorem isEncodable_codePoint (form : NumericForm) (value : Nat) :
    Text.isEncodable [form.codePoint value] := by
  unfold NumericForm.codePoint
  split
  · exact Text.isEncodable_byte _
  · exact Text.isEncodable_scalar _

theorem isEncodable_numericEscape (form : NumericForm) (opening c : Cursor) :
    (numericEscape form opening c).value.isEncodable := by
  have hvalue (clean : Bool) (value : Nat) :
      Text.isEncodable (if clean then [form.codePoint value] else []) := by
    cases clean with
    | false => rfl
    | true => exact isEncodable_codePoint form value
  exact hvalue _ _

/-- What an escape stands for can be sent. -/
theorem isEncodable_escape (opening c : Cursor) : (escape opening c).value.isEncodable := by
  unfold escape
  split
  · rfl
  · split
    · exact Text.isEncodable_scalar _
    · exact isEncodable_numericEscape _ _ _
    · split
      · exact isEncodable_numericEscape _ _ _
      · split <;> rfl

theorem isEncodable_stringBody (opening c : Cursor) (hc : c.rest.isEncodable) :
    (stringBody opening c).value.isEncodable := by
  fun_induction stringBody opening c with
  | case1 here => rfl
  | case2 here p rest => rfl
  | case3 here p rest => rfl
  | case4 here p rest c after _ _ _ first others ih =>
    have hafter : after.rest.isEncodable := (Text.isEncodable_cons.1 hc).2
    have hfirst := isEncodable_escape c after
    have hothers := ih ((reaches_escape c after).isEncodable hafter)
    rw [Text.isEncodable_append, hfirst, hothers]
    rfl
  | case5 here p rest after _ _ _ others ih =>
    obtain ⟨hp, hrest⟩ := Text.isEncodable_cons.1 hc
    exact Text.isEncodable_cons.2 ⟨hp, ih hrest⟩

theorem isEncodable_string (opening : Cursor) (h : opening.next.rest.isEncodable) :
    (string opening).value.isEncodable := by
  rw [string, Text.isEncodable_getD_canonical]
  exact isEncodable_stringBody opening opening.next h

/-! ## Segments of templates -/

theorem isEncodable_segment (opening : Cursor) (h : opening.next.rest.isEncodable) :
    (segment opening).value.text.isEncodable := by
  have hread := Text.isEncodable_of_prefix
    (List.takeWhile_prefix fun p : CodePoint => !p.isIn ['\n', '{']) h
  unfold segment
  dsimp only
  split
  · exact hread
  · dsimp only
    split
    · exact Text.isEncodable_of_prefix (List.dropLast_prefix _) hread
    · exact hread

end Literal

/-! ## Tokens -/

theorem text?_of_singleMark {p : CodePoint} {kind : TokenKind} (h : singleMark p = some kind) :
    kind.text? = none := by
  rcases singleMark_cases h with rfl | ⟨mark, rfl⟩ <;> rfl

theorem text?_doubled (opening : Cursor) (p : CodePoint) (mark : Mark) (alone : LexicalError) :
    (doubled opening p mark alone).value.text? = none := by
  rcases doubled_cases opening p mark alone with h | h <;> rw [h] <;> rfl

/-- A token without a text says nothing about texts. -/
theorem TokenKind.forall_text?_of_none {kind : TokenKind} (h : kind.text? = none)
    {P : Text → Prop} : ∀ s ∈ kind.text?, P s := by
  rw [h]
  rintro s ⟨⟩

theorem isEncodable_tokenKind (opening : Cursor) (p : CodePoint)
    (h : opening.next.rest.isEncodable) :
    ∀ s ∈ (tokenKind opening p).value.text?, s.isEncodable := by
  apply tokenKind_cases p (motive := fun read => ∀ s ∈ (read opening).value.text?, s.isEncodable)
  case name | integer => exact fun _ => TokenKind.forall_text?_of_none rfl
  case string =>
    rintro _ s ⟨⟩
    exact Literal.isEncodable_string opening h
  case segment =>
    intro kind hkind s hs
    rcases hkind.kind_eq with rfl | rfl <;> cases hs
    · exact Literal.isEncodable_segment opening h
    · exact Literal.isEncodable_segment opening h
  case double => exact fun _ _ _ => TokenKind.forall_text?_of_none (text?_doubled _ _ _ _)
  case single => exact fun kind hkind => TokenKind.forall_text?_of_none (text?_of_singleMark hkind)
  case pair =>
    intro alone withEquals _
    dsimp only
    split <;> exact TokenKind.forall_text?_of_none rfl
  case invalid => exact TokenKind.forall_text?_of_none rfl

/-- The texts of the tokens of a source can be sent if the source can. -/
theorem isEncodable_of_mem_scanFrom (c : Cursor) (hc : c.rest.isEncodable) :
    ∀ t ∈ (scanFrom c).tokens, ∀ s ∈ t.kind.text?, s.isEncodable := by
  fun_induction scanFrom c with
  | case1 c here hskip =>
    exact List.forall_mem_singleton.2 (TokenKind.forall_text?_of_none rfl)
  | case2 c here p rest hskip opening first others ih =>
    have hspaced := (Cursor.reaches_skip isSpacing c).isEncodable hc
    rw [hskip] at hspaced
    obtain ⟨_, hrest⟩ := Text.isEncodable_cons.1 hspaced
    refine List.forall_mem_cons.2 ⟨isEncodable_tokenKind opening p hrest, ih ?_⟩
    exact (reaches_tokenKind here p rest).isEncodable hrest

theorem Scan.isEncodable_iff {s : Scan} :
    s.isEncodable = true ↔ ∀ t ∈ s.tokens, ∀ v, t.kind = .string v → v.isEncodable := by
  rw [isEncodable, List.all_eq_true]
  refine forall₂_congr fun t _ => ?_
  split
  · next v hv => simp [hv]
  · next hnot => simpa using fun v hv => absurd hv (hnot v)

/-- Every string in a source that can be sent can be sent. -/
theorem isEncodable_scan {source : Text} (h : source.isEncodable) : (scan source).isEncodable :=
  Scan.isEncodable_iff.2 fun t ht v hv =>
    isEncodable_of_mem_scanFrom (.ofText source) h t ht v (by rw [hv]; rfl)

end WireScript
