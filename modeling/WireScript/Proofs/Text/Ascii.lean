import WireScript.Proofs.Text.Decoding

/-!
# ASCII bytes in decoded text

A byte below `0x80` is a character of its own wherever it stands, so that bytes can be cut there
before they are decoded (`decode_append_ascii`), even where the bytes around it are pieces of broken
characters.  The other way round, a character in a decoded text stands in the bytes
(`octets_subset_of_mem_decode`).
-/

namespace WireScript.Utf8

/-- Only the first byte of a character is below `0x80`. -/
theorem le_of_mem_tail_octets (c : Char) : ∀ b ∈ (octets c).tail, 0x80 ≤ b.toNat := by
  have hcontinues (n : Nat) : 0x80 ≤ (UInt8.ofNat (n % 64 + 128)).toNat := by
    rw [UInt8.toNat_ofNat']
    omega
  have hnil : ∀ b ∈ ([] : List UInt8), 0x80 ≤ b.toNat := List.forall_mem_nil _
  unfold octets String.utf8EncodeChar
  dsimp only
  split
  · exact hnil
  · split
    · exact List.forall_mem_cons.2 ⟨hcontinues _, hnil⟩
    · split
      · exact List.forall_mem_cons.2
          ⟨hcontinues _, List.forall_mem_cons.2 ⟨hcontinues _, hnil⟩⟩
      · exact List.forall_mem_cons.2 ⟨hcontinues _, List.forall_mem_cons.2
          ⟨hcontinues _, List.forall_mem_cons.2 ⟨hcontinues _, hnil⟩⟩⟩

/-- Bytes that no character opens do not come to be opened by one when an ASCII byte follows. -/
theorem leading?_append_ascii {b a : UInt8} {rest : List UInt8} (hb : b.toNat < 0x80)
    (h : leading? (a :: rest) = none) (back : List UInt8) :
    leading? (a :: rest ++ b :: back) = none := by
  have hopens (c : Char) (more : List UInt8) : a :: rest ≠ octets c ++ more := by
    intro heq
    rw [heq, leading?_octets] at h
    cases h
  cases hfound : leading? (a :: rest ++ b :: back) with
  | none => rfl
  | some found =>
    obtain ⟨c, more⟩ := found
    -- either the character ends in front of the ASCII byte, or the byte is inside it
    rcases List.append_eq_append_iff.1 (eq_append_of_leading? hfound) with
      ⟨inside, hc, hmore⟩ | ⟨more', hc, _⟩
    · cases inside with
      | nil =>
        rw [List.append_nil] at hc
        exact absurd (hc.symm.trans (List.append_nil _).symm) (hopens c [])
      | cons b' inside =>
        obtain ⟨rfl, _⟩ := List.cons.inj hmore
        have hhigh := le_of_mem_tail_octets c b (by rw [hc]; simp)
        omega
    · exact absurd hc (hopens c more')

/-- An ASCII byte decodes on its own, and so does what stands on either side of it. -/
theorem decode_append_ascii {b : UInt8} (hb : b.toNat < 0x80) (front back : List UInt8) :
    decode (front ++ b :: back) =
      decode front ++ .scalar (Char.ofNat b.toNat) :: decode back := by
  fun_induction decode front with
  | case1 => exact decode_of_leading? (leading?_ascii hb back)
  | case2 a tail c rest h ih =>
    rw [decode_of_leading? (leading?_append h (b :: back)), ih]
    rfl
  | case3 a rest h ih =>
    have hnone := leading?_append_ascii hb h back
    rw [List.cons_append] at hnone ⊢
    rw [decode_of_leading?_none hnone, ih]
    rfl

/-- The bytes of a character of a decoded text are among the bytes. -/
theorem octets_subset_of_mem_decode {c : Char} {bytes : List UInt8}
    (h : CodePoint.scalar c ∈ decode bytes) : octets c ⊆ bytes := by
  fun_induction decode bytes with
  | case1 => cases h
  | case2 a tail c' rest hleading ih =>
    rw [eq_append_of_leading? hleading]
    rcases List.mem_cons.1 h with heq | hrest
    · cases heq
      exact List.subset_append_left _ _
    · exact List.subset_append_of_subset_right _ (ih hrest)
  | case3 a rest hleading ih =>
    rcases List.mem_cons.1 h with heq | hrest
    · cases heq
    · exact List.subset_cons_of_subset _ (ih hrest)

/-- The bytes of the last character of a decoded text are the last bytes. -/
theorem suffix_of_getLast?_decode {c : Char} {bytes : List UInt8}
    (h : (decode bytes).getLast? = some (.scalar c)) : octets c <:+ bytes := by
  obtain ⟨t, ht⟩ := List.getLast?_eq_some_iff.1 h
  have hencode := encode_decode bytes
  rw [ht, encode_append] at hencode
  obtain ⟨front, _, hback⟩ := Option.bind_eq_some_iff.1 hencode
  have hlast : encode [.scalar c] = some (octets c) := congrArg some (List.append_nil _)
  rw [hlast] at hback
  exact ⟨front, Option.some.inj hback⟩

end WireScript.Utf8
