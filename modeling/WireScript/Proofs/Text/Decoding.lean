import Mathlib.Tactic.ByContra
import WireScript.Text.Utf8

/-!
# Decoded text

Which texts come from the wire, and what stays true of their parts.

There are four groups.

* The bytes of one character.  `leading?_octets` says that a character is found at the start of any
  bytes that open with its encoding, whatever follows, and `leading?_append` that more bytes at the
  end change nothing about a character that was found.
* Decoding and encoding.  `encode_decode` says that nothing is lost: the bytes of a decoded text are
  the bytes it was decoded from.
* Encodable texts.  A text can be sent when each of its parts can (`isEncodable_append`), and then
  it has a canonical form.
* Parts of decoded texts.  `IsDecoded` is the property of being decoded from some bytes.  A cut
  through a decoded text falls between two pieces of its bytes (`exists_decode_take_drop`), so each
  side of the cut is decoded from its own piece, and decoded texts are canonical
  (`IsDecoded.canonical`).
-/

namespace WireScript.Utf8

/-! ## The bytes of one character -/

private theorem toNat_bounds (c : Char) :
    c.toNat < 0xD800 ∨ 0xDFFF < c.toNat ∧ c.toNat < 0x110000 := by
  have := c.valid
  simp only [UInt32.isValidChar, Nat.isValidChar] at this
  unfold Char.toNat
  omega

/-- The number that the bytes of a character spell is the number of the character, whatever follows
them. -/
theorem spelled_octets (c : Char) (rest : List UInt8) :
    spelled (octets c ++ rest) = c.toNat := by
  have hbounds := toNat_bounds c
  have hval : c.val.toNat = c.toNat := rfl
  unfold octets String.utf8EncodeChar
  simp only [hval]
  split
  · simp only [List.cons_append, List.nil_append, spelled, UInt8.toNat_ofNat']
    rw [if_pos (by omega)]
    omega
  · split
    · simp only [List.cons_append, List.nil_append, spelled, UInt8.toNat_ofNat',
        List.getD_cons_zero]
      rw [if_neg (by omega), if_pos (by omega)]
      omega
    · split
      · simp only [List.cons_append, List.nil_append, spelled, UInt8.toNat_ofNat',
          List.getD_cons_zero, List.getD_cons_succ]
        rw [if_neg (by omega), if_neg (by omega), if_pos (by omega)]
        omega
      · simp only [List.cons_append, List.nil_append, spelled, UInt8.toNat_ofNat',
          List.getD_cons_zero, List.getD_cons_succ]
        rw [if_neg (by omega), if_neg (by omega), if_neg (by omega)]
        omega

/-- Bytes that open with the encoding of a character open with that character. -/
theorem leading?_octets (c : Char) (rest : List UInt8) :
    leading? (octets c ++ rest) = some (c, rest) := by
  have hchar : Char.ofNat (spelled (octets c ++ rest)) = c := by
    rw [spelled_octets]
    exact Char.ofNat_toNat c
  unfold leading?
  simp only [hchar]
  rw [if_pos (List.prefix_append _ _), List.drop_left]

/-- More bytes at the end do not change which character the bytes open with. -/
theorem leading?_append {bytes rest : List UInt8} {c : Char}
    (h : leading? bytes = some (c, rest)) (more : List UInt8) :
    leading? (bytes ++ more) = some (c, rest ++ more) := by
  rw [eq_append_of_leading? h, List.append_assoc]
  exact leading?_octets c (rest ++ more)

/-- A byte below `0x80` is a character of its own. -/
theorem leading?_ascii {b : UInt8} (hb : b.toNat < 0x80) (rest : List UInt8) :
    leading? (b :: rest) = some (Char.ofNat b.toNat, rest) := by
  have hnat : (Char.ofNat b.toNat).toNat = b.toNat := by
    have hvalid : b.toNat.isValidChar := Or.inl (by omega)
    rw [Char.ofNat, dif_pos hvalid]
    rfl
  have hoctets : octets (Char.ofNat b.toNat) = [b] := by
    have hval : (Char.ofNat b.toNat).val.toNat = b.toNat := hnat
    unfold octets String.utf8EncodeChar
    simp only [hval]
    rw [if_pos (by omega), UInt8.ofNat_toNat]
  rw [show b :: rest = octets (Char.ofNat b.toNat) ++ rest by rw [hoctets]; rfl]
  exact leading?_octets _ _

/-! ## Decoding and encoding -/

@[simp] theorem decode_nil : decode [] = [] := by
  rw [decode]

theorem decode_of_leading? {bytes rest : List UInt8} {c : Char}
    (h : leading? bytes = some (c, rest)) : decode bytes = .scalar c :: decode rest := by
  cases bytes with
  | nil => simp [leading?, octets_ne_nil] at h
  | cons b tail =>
    rw [decode]
    split
    · rename_i c' rest' h'
      rw [h'] at h
      obtain ⟨rfl, rfl⟩ := Prod.mk.inj (Option.some.inj h)
      rfl
    · rename_i h'
      rw [h'] at h
      simp at h

theorem decode_of_leading?_none {b : UInt8} {rest : List UInt8}
    (h : leading? (b :: rest) = none) : decode (b :: rest) = escaped b :: decode rest := by
  rw [decode]
  split
  · rename_i h'
    rw [h'] at h
    simp at h
  · rfl

/-- Bytes below `0x80` decode one by one. -/
theorem decode_ascii {bytes : List UInt8} (h : ∀ b ∈ bytes, b.toNat < 0x80) :
    decode bytes = bytes.map fun b => .scalar (Char.ofNat b.toNat) := by
  induction bytes with
  | nil => exact decode_nil
  | cons b bytes ih =>
    obtain ⟨hb, hrest⟩ := List.forall_mem_cons.1 h
    rw [decode_of_leading? (leading?_ascii hb bytes), ih hrest]
    rfl

/-- The encoding of characters decodes to the characters. -/
theorem decode_octets (cs : List Char) : decode (cs.flatMap octets) = Text.ofChars cs := by
  induction cs with
  | nil => exact decode_nil
  | cons c cs ih =>
    rw [List.flatMap_cons, decode_of_leading? (leading?_octets c _), ih]
    rfl

/-- A byte that opens no character is the byte of its code point. -/
theorem encodePoint_escaped {b : UInt8} {rest : List UInt8} (h : leading? (b :: rest) = none) :
    encodePoint (escaped b) = some [b] := by
  have hb : 0x80 ≤ b.toNat := by
    by_contra hlow
    rw [leading?_ascii (by omega)] at h
    simp at h
  have hlt := b.toNat_lt
  have hmod : b.toNat % 128 = b.toNat - 0x80 := by omega
  simp only [escaped, encodePoint, Fin.ofNat, hmod]
  rw [show 0x80 + (b.toNat - 0x80) = b.toNat by omega, UInt8.ofNat_toNat]

/-- The bytes of a decoded text are the bytes it was decoded from. -/
theorem encode_decode (bytes : List UInt8) : encode (decode bytes) = some bytes := by
  fun_induction decode bytes with
  | case1 => rfl
  | case2 b tail c rest h ih =>
    rw [encode, ih, eq_append_of_leading? h]
    rfl
  | case3 b rest h ih =>
    rw [encode, ih, encodePoint_escaped h]
    rfl

theorem encode_append (t u : Text) :
    encode (t ++ u) = (encode t).bind fun bytes => (encode u).map (bytes ++ ·) := by
  induction t with
  | nil => simp [encode]
  | cons p t ih =>
    simp only [List.cons_append, encode, ih]
    cases encodePoint p <;> cases encode t <;> cases encode u <;> simp

/-! ## Parts of decoded texts -/

/-- A cut through a decoded text falls between two pieces of its bytes. -/
theorem exists_decode_take_drop (bytes : List UInt8) (k : Nat) :
    ∃ front back, bytes = front ++ back ∧
      decode front = (decode bytes).take k ∧ decode back = (decode bytes).drop k := by
  induction k generalizing bytes with
  | zero => exact ⟨[], bytes, rfl, by simp, rfl⟩
  | succ k ih =>
    cases bytes with
    | nil => exact ⟨[], [], rfl, by simp, by simp⟩
    | cons b tail =>
      cases h : leading? (b :: tail) with
      | some found =>
        obtain ⟨c, rest⟩ := found
        obtain ⟨front, back, hrest, hfront, hback⟩ := ih rest
        refine ⟨octets c ++ front, back, ?_, ?_, ?_⟩
        · rw [eq_append_of_leading? h, hrest, List.append_assoc]
        · rw [decode_of_leading? (leading?_octets c front), decode_of_leading? h, hfront]
          rfl
        · rw [decode_of_leading? h, hback]
          rfl
      | none =>
        obtain ⟨front, back, htail, hfront, hback⟩ := ih tail
        -- The cut takes bytes away, and fewer bytes cannot open a character either.
        have hnone : leading? (b :: front) = none := by
          cases hcut : leading? (b :: front) with
          | none => rfl
          | some found =>
            have hmore := leading?_append hcut back
            rw [List.cons_append, ← htail, h] at hmore
            simp at hmore
        refine ⟨b :: front, back, ?_, ?_, ?_⟩
        · rw [htail, List.cons_append]
        · rw [decode_of_leading?_none hnone, decode_of_leading?_none h, hfront]
          rfl
        · rw [decode_of_leading?_none h, hback]
          rfl

end WireScript.Utf8

namespace WireScript.Text

/-! ## Encodable texts -/

@[simp] theorem isEncodable_append (t u : Text) :
    isEncodable (t ++ u) = (t.isEncodable && u.isEncodable) := by
  simp only [isEncodable, Utf8.encode_append]
  cases Utf8.encode t <;> cases Utf8.encode u <;> rfl

/-- A code point can be sent if it has bytes. -/
theorem isEncodable_singleton (p : CodePoint) :
    isEncodable [p] = (Utf8.encodePoint p).isSome := by
  simp only [isEncodable, Utf8.encode]
  cases Utf8.encodePoint p <;> rfl

/-- Characters can be sent. -/
theorem isEncodable_ofChars (cs : List Char) : (ofChars cs).isEncodable := by
  induction cs with
  | nil => rfl
  | cons c cs ih =>
    have hcons : ofChars (c :: cs) = [.scalar c] ++ ofChars cs := rfl
    rw [hcons, isEncodable_append, ih]
    rfl

theorem isEncodable_ofInt (n : Int) : (ofInt n).isEncodable := by
  cases n with
  | ofNat n => exact isEncodable_ofChars _
  | negSucc n => exact isEncodable_ofChars ('-' :: Nat.toDigits 10 (n + 1))

/-- A text has a canonical form exactly when it can be sent. -/
theorem isEncodable_iff {t : Text} : t.isEncodable ↔ ∃ u, t.canonical = some u := by
  unfold isEncodable canonical
  cases Utf8.encode t with
  | none => simp
  | some bytes => simp

/-! ## Decoded texts -/

/-- A text that some bytes decode to, as every received line is. -/
def IsDecoded (t : Text) : Prop :=
  ∃ bytes, t = Utf8.decode bytes

theorem isDecoded_decode (bytes : List UInt8) : (Utf8.decode bytes).IsDecoded :=
  ⟨bytes, rfl⟩

theorem isDecoded_ofChars (cs : List Char) : (ofChars cs).IsDecoded :=
  ⟨cs.flatMap Utf8.octets, (Utf8.decode_octets cs).symm⟩

theorem IsDecoded.take {t : Text} (h : t.IsDecoded) (k : Nat) : IsDecoded (t.take k) := by
  obtain ⟨bytes, rfl⟩ := h
  obtain ⟨front, _, _, hfront, _⟩ := Utf8.exists_decode_take_drop bytes k
  exact ⟨front, hfront.symm⟩

theorem IsDecoded.drop {t : Text} (h : t.IsDecoded) (k : Nat) : IsDecoded (t.drop k) := by
  obtain ⟨bytes, rfl⟩ := h
  obtain ⟨_, back, _, _, hback⟩ := Utf8.exists_decode_take_drop bytes k
  exact ⟨back, hback.symm⟩

/-- The two parts of a decoded text are decoded. -/
theorem IsDecoded.of_append {t u : Text} (h : IsDecoded (t ++ u)) :
    t.IsDecoded ∧ u.IsDecoded := by
  have htake := h.take t.length
  have hdrop := h.drop t.length
  rw [List.take_left] at htake
  rw [List.drop_left] at hdrop
  exact ⟨htake, hdrop⟩

/-- Decoded texts are canonical. -/
theorem IsDecoded.canonical {t : Text} (h : t.IsDecoded) : t.canonical = some t := by
  obtain ⟨bytes, rfl⟩ := h
  rw [Text.canonical, Utf8.encode_decode]
  rfl

theorem canonical_ofChars (cs : List Char) : (ofChars cs).canonical = some (ofChars cs) :=
  (isDecoded_ofChars cs).canonical

theorem IsDecoded.isEncodable {t : Text} (h : t.IsDecoded) : t.isEncodable :=
  isEncodable_iff.2 ⟨t, h.canonical⟩

/-- The canonical form of a text is decoded. -/
theorem isDecoded_of_canonical {t u : Text} (h : t.canonical = some u) : u.IsDecoded := by
  obtain ⟨bytes, _, rfl⟩ := Option.map_eq_some_iff.1 h
  exact isDecoded_decode bytes

end WireScript.Text
