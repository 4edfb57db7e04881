import WireScript.Proofs.Text.Decoding
import WireScript.Value

/-!
# Well-formed values

What a value must satisfy for a script to work with it, and for a peer to receive it: the text of a
well-formed value is a text that comes from the wire.
-/

namespace WireScript.Value

/-- The value of a text is well-formed. -/
theorem wellFormed_of_ofText? {t : Text} {v : Value} (h : ofText? t = some v) : v.WellFormed := by
  obtain ⟨u, hu, rfl⟩ := Option.map_eq_some_iff.1 h
  exact (Text.isDecoded_of_canonical hu).canonical

/-- The text of a well-formed value arrives as it is sent. -/
theorem WellFormed.isDecoded {v : Value} (h : v.WellFormed) : v.toText.IsDecoded := by
  cases v with
  | text t => exact Text.isDecoded_of_canonical h
  | integer n =>
    cases n with
    | ofNat n => exact Text.isDecoded_ofChars _
    | negSucc n => exact Text.isDecoded_ofChars ('-' :: Nat.toDigits 10 (n + 1))
  | bool c =>
    cases c with
    | false => exact Text.isDecoded_ofChars _
    | true => exact Text.isDecoded_ofChars _

/-- The text of a well-formed value can be sent. -/
theorem WellFormed.isEncodable {v : Value} (h : v.WellFormed) : v.toText.isEncodable :=
  h.isDecoded.isEncodable

end WireScript.Value
