import WireScript.Proofs.Text.Decoding

/-!
# Canonical texts

A text can be written in several ways that are the same on the wire: undecodable bytes that
together spell a character, and the character itself.  This module says which texts have a canonical
form, and that the canonical form stands for the bytes of the text.

There are three groups.

* Texts with a form on the wire.  `CodePoint.IsSurrogate` and `CodePoint.IsByteEscape` are ranges of
  numbers.  `isEncodable_iff_surrogates` says that only surrogates that stand for no byte keep a
  text from the wire.
* Canonical forms.  Encoding sees no difference between a text and its canonical form
  (`encode_of_canonical`), and decoding sees none between texts with the same bytes
  (`canonical_eq_iff`).  `canonical_of_same_bytes` puts the two together: the canonical form is the
  one text for the bytes.
* Slices.  However a decoded text is cut, each part is decoded from bytes of its own
  (`exists_pieces`), even where a cut goes through a sequence of undecodable bytes.  So the parts are
  canonical, and their bytes add up to those of the text (`slices_canonical`).
-/

namespace WireScript

/-! ## Texts with a form on the wire -/

namespace CodePoint

/-- The code points that UTF-8 has no bytes for. -/
def IsSurrogate (p : CodePoint) : Prop :=
  0xD800 ≤ p.toNat ∧ p.toNat ≤ 0xDFFF

/-- The surrogates that stand for one undecodable byte. -/
def IsByteEscape (p : CodePoint) : Prop :=
  0xDC80 ≤ p.toNat ∧ p.toNat ≤ 0xDCFF

instance (p : CodePoint) : Decidable p.IsSurrogate :=
  inferInstanceAs (Decidable (_ ∧ _))

instance (p : CodePoint) : Decidable p.IsByteEscape :=
  inferInstanceAs (Decidable (_ ∧ _))

theorem not_isSurrogate_scalar (c : Char) : ¬ (scalar c).IsSurrogate := by
  intro h
  have hvalid := c.valid
  simp only [IsSurrogate, toNat, Char.toNat] at h
  simp only [UInt32.isValidChar, Nat.isValidChar] at hvalid
  omega

theorem isByteEscape_byte (low : Fin 128) : (byte low).IsByteEscape := by
  have hlow := low.isLt
  simp only [IsByteEscape, toNat]
  omega

theorem isSurrogate_stray (index : Fin 1920) : (stray index).IsSurrogate := by
  have hindex := index.isLt
  simp only [IsSurrogate, toNat]
  split <;> omega

theorem not_isByteEscape_stray (index : Fin 1920) : ¬ (stray index).IsByteEscape := by
  intro h
  have hindex := index.isLt
  simp only [IsByteEscape, toNat] at h
  split at h <;> omega

end CodePoint

namespace Utf8

/-- A code point has bytes unless it is a surrogate that stands for none. -/
theorem isSome_encodePoint_iff (p : CodePoint) :
    (encodePoint p).isSome ↔ (p.IsSurrogate → p.IsByteEscape) := by
  cases p with
  | scalar c =>
    have hc := CodePoint.not_isSurrogate_scalar c
    simp [encodePoint, hc]
  | byte low =>
    have hlow := CodePoint.isByteEscape_byte low
    simp [encodePoint, hlow]
  | stray index =>
    have hsurrogate := CodePoint.isSurrogate_stray index
    have hescape := CodePoint.not_isByteEscape_stray index
    simp [encodePoint, hsurrogate, hescape]

end Utf8

namespace Text

/-- Every surrogate of a text stands for an undecodable byte. -/
def HasWireForm (t : Text) : Prop :=
  ∀ p ∈ t, p.IsSurrogate → p.IsByteEscape

instance (t : Text) : Decidable t.HasWireForm :=
  inferInstanceAs (Decidable (∀ p ∈ t, _))

theorem isEncodable_iff_surrogates {t : Text} : t.isEncodable ↔ t.HasWireForm := by
  induction t with
  | nil => simp [isEncodable, Utf8.encode, HasWireForm]
  | cons p t ih =>
    have hsplit : isEncodable (p :: t) = (isEncodable [p] && isEncodable t) :=
      isEncodable_append [p] t
    rw [hsplit, Bool.and_eq_true, isEncodable_singleton, Utf8.isSome_encodePoint_iff, ih]
    simp [HasWireForm]

/-! ## Canonical forms -/

/-- The canonical form of a text has the bytes of the text. -/
theorem encode_of_canonical {t u : Text} (h : t.canonical = some u) :
    Utf8.encode u = Utf8.encode t := by
  cases hbytes : Utf8.encode t with
  | none =>
    rw [canonical, hbytes] at h
    simp at h
  | some bytes =>
    rw [canonical, hbytes] at h
    have hu : Utf8.decode bytes = u := Option.some.inj h
    rw [← hu]
    exact Utf8.encode_decode bytes

/-- Texts have the same canonical form, or both none, exactly if they have the same bytes. -/
theorem canonical_eq_iff {s t : Text} :
    s.canonical = t.canonical ↔ Utf8.encode s = Utf8.encode t := by
  constructor
  · intro h
    cases hs : s.canonical with
    | none =>
      have ht : t.canonical = none := h ▸ hs
      rw [Option.map_eq_none_iff.1 hs, Option.map_eq_none_iff.1 ht]
    | some u =>
      have ht : t.canonical = some u := h ▸ hs
      rw [← encode_of_canonical hs, ← encode_of_canonical ht]
  · intro h
    rw [canonical, canonical, h]

/-- Putting parts in canonical form first makes no difference to the whole. -/
theorem canonical_append_of_canonical {s t s' t' : Text} (hs : s.canonical = some s')
    (ht : t.canonical = some t') : (s' ++ t').canonical = (s ++ t).canonical := by
  apply canonical_eq_iff.2
  rw [Utf8.encode_append, Utf8.encode_append, encode_of_canonical hs, encode_of_canonical ht]

/-- The canonical form of a text is the one text for its bytes.  Bytes are never lost in decoding.
Every text whose surrogates all stand for bytes has a canonical form; it has the bytes of the text,
is its own canonical form, and is shared by exactly the texts with these bytes; and two texts joined
have the canonical form that their canonical forms have when they are joined.  A text with another
surrogate has none. -/
theorem canonical_of_same_bytes :
    (∀ bytes, Utf8.encode (Utf8.decode bytes) = some bytes) ∧
      (∀ s t : Text, s.HasWireForm → t.HasWireForm →
        ∃ s' t' u, s.canonical = some s' ∧ t.canonical = some t' ∧
          Utf8.encode s' = Utf8.encode s ∧ s'.canonical = some s' ∧
          (s' = t' ↔ Utf8.encode s = Utf8.encode t) ∧
          (s ++ t).canonical = some u ∧ (s' ++ t').canonical = some u) ∧
      ∀ t : Text, ¬ t.HasWireForm → t.canonical = none := by
  refine ⟨Utf8.encode_decode, ?_, ?_⟩
  · intro s t hs ht
    have hs := isEncodable_iff_surrogates.2 hs
    have ht := isEncodable_iff_surrogates.2 ht
    have hst : (s ++ t).isEncodable := by rw [isEncodable_append, hs, ht]; rfl
    obtain ⟨s', hs'⟩ := isEncodable_iff.1 hs
    obtain ⟨t', ht'⟩ := isEncodable_iff.1 ht
    obtain ⟨u, hu⟩ := isEncodable_iff.1 hst
    have hself : s'.canonical = some s' := (isDecoded_of_canonical hs').canonical
    have hsame : s' = t' ↔ Utf8.encode s = Utf8.encode t := by
      rw [← canonical_eq_iff, hs', ht', Option.some.injEq]
    have hjoin : (s' ++ t').canonical = some u :=
      (canonical_append_of_canonical hs' ht').trans hu
    exact ⟨s', t', u, hs', ht', encode_of_canonical hs', hself, hsame, hu, hjoin⟩
  · intro t h
    have hencodable : ¬ t.isEncodable := fun henc => h (isEncodable_iff_surrogates.1 henc)
    cases hcanonical : t.canonical with
    | none => rfl
    | some u => exact absurd (isEncodable_iff.2 ⟨u, hcanonical⟩) hencodable

/-- Two undecodable bytes that spell a character have the canonical form of the character, and a
surrogate that stands for no byte has none. -/
theorem canonical_of_two_bytes :
    HasWireForm [.byte 0x43, .byte 0x29] ∧ HasWireForm ("é" : Text) ∧
      (∃ u, canonical [.byte 0x43, .byte 0x29] = some u ∧ canonical ("é" : Text) = some u) ∧
      ¬ HasWireForm [.stray 0] ∧ canonical [.stray 0] = none := by
  have hbytes : HasWireForm [.byte 0x43, .byte 0x29] := by decide
  have hchar : HasWireForm ("é" : Text) := by decide
  have hstray : ¬ HasWireForm [.stray 0] := by decide
  obtain ⟨s', t', _, hs, ht, _, _, hsame, _⟩ := canonical_of_same_bytes.2.1 _ _ hbytes hchar
  have heq : s' = t' := hsame.2 (by decide +kernel)
  exact ⟨hbytes, hchar, ⟨s', hs, heq ▸ ht⟩, hstray, canonical_of_same_bytes.2.2 _ hstray⟩

/-! ## Slices -/

theorem IsDecoded.slice {t : Text} (h : t.IsDecoded) (start stop : Nat) :
    IsDecoded (t.slice start stop) :=
  (h.drop start).take (stop - start)

/-- The bytes of texts that stand one behind the other are the bytes of each. -/
theorem encode_flatten (parts : List Text) :
    Utf8.encode parts.flatten = (parts.mapM Utf8.encode).map List.flatten := by
  induction parts with
  | nil => rfl
  | cons part parts ih =>
    rw [List.flatten_cons, Utf8.encode_append, ih, List.mapM_cons]
    cases Utf8.encode part <;> cases parts.mapM Utf8.encode <;> rfl

/-- The parts of a decoded text are decoded from the pieces of bytes that they stand for. -/
theorem IsDecoded.exists_pieces {parts : List Text} (h : IsDecoded parts.flatten) :
    ∃ pieces, parts.mapM Utf8.encode = some pieces ∧ pieces.map Utf8.decode = parts := by
  induction parts with
  | nil => exact ⟨[], rfl, rfl⟩
  | cons part parts ih =>
    rw [List.flatten_cons] at h
    obtain ⟨⟨piece, rfl⟩, hrest⟩ := h.of_append
    obtain ⟨pieces, hpieces, hdecode⟩ := ih hrest
    refine ⟨piece :: pieces, ?_, ?_⟩
    · rw [List.mapM_cons, Utf8.encode_decode, hpieces]
      rfl
    · rw [List.map_cons, hdecode]

/-- Slices of decoded bytes are canonical.  Every division of the text into consecutive parts comes
from a division of the bytes: the bytes of the parts are pieces of the bytes in their order, and
each part is what its piece is decoded to. -/
theorem slices_canonical (bytes : List UInt8) :
    (∀ start stop, canonical (slice start stop (Utf8.decode bytes)) =
        some (slice start stop (Utf8.decode bytes))) ∧
      ∀ parts : List Text, parts.flatten = Utf8.decode bytes →
        ∃ pieces, parts.mapM Utf8.encode = some pieces ∧ pieces.flatten = bytes ∧
          pieces.map Utf8.decode = parts := by
  constructor
  · exact fun start stop => ((isDecoded_decode bytes).slice start stop).canonical
  · intro parts hparts
    obtain ⟨pieces, hpieces, hdecode⟩ := IsDecoded.exists_pieces ⟨bytes, hparts⟩
    have hbytes : some bytes = some pieces.flatten :=
      calc some bytes = Utf8.encode parts.flatten := by rw [hparts, Utf8.encode_decode]
        _ = some pieces.flatten := by rw [encode_flatten, hpieces, Option.map_some]
    exact ⟨pieces, hpieces, (Option.some.inj hbytes).symm, hdecode⟩

/-- Three bytes of a character whose last byte is missing, cut behind the first of them. -/
theorem slices_canonical_cut_character :
    let bytes : List UInt8 := [0xF0, 0x9F, 0x98, 0x41, 0xC3, 0xA9]
    let parts : List Text := [[.byte 0x70], [.byte 0x1F, .byte 0x18, .scalar 'A'], [], ("é" : Text)]
    parts.flatten = Utf8.decode bytes ∧
      ∃ pieces, parts.mapM Utf8.encode = some pieces ∧ pieces.flatten = bytes ∧
        pieces.map Utf8.decode = parts := by
  intro bytes parts
  have hparts : parts.flatten = Utf8.decode bytes := by decide +kernel
  exact ⟨hparts, (slices_canonical bytes).2 parts hparts⟩

end Text

end WireScript
