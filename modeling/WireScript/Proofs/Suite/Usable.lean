import WireScript.Proofs.Data
import WireScript.Proofs.Peer.Address
import WireScript.Suite.Basic

/-!
# Usable suites

The description of a suite is rejected with a fault, or it leads to a suite that can be run: with a
host and a port, with scripts in their order, and with a time to wait that is a number above zero.
Four kinds of descriptions are neither, and `Suite.Slips` lists them.

* Times.  `Timeout.ofData_cases` says what is accepted.  An integer beyond all floating point
  numbers is no fault and no time (`Data.IsOversized`), and what is no number is let pass as one
  that is not zero or below (`Data.IsNan`).
* Messages.  Some faults show the value that has them.  A value that cannot be printed
  (`Data.IsUnprintable`) is no fault then; it is met among the scripts or as the time.
* Hosts.  An address is read before the brackets around its host are taken off, so that nothing may
  be left between them.

`Suite.Describes` says that a mapping has an address that can be read and a list of scripts, and
`ofData_cases` that everything else is a fault.  `isSettled_iff` puts these together: a description
is settled exactly if it is of none of the four kinds.
-/

namespace WireScript

/-! ## Times -/

/-- A number above zero. -/
def Binary64.IsPositive : Binary64 → Prop
  | nan => False
  | infinity negative => negative = false
  | finite negative units => negative = false ∧ 0 < units

theorem Binary64.isPositive_of_not_isAtMostZero {x : Binary64} (h : x.isAtMostZero = false)
    (hnan : x ≠ nan) : x.IsPositive := by
  cases x with
  | nan => exact absurd rfl hnan
  | infinity negative => exact h
  | finite negative units =>
    obtain ⟨hsign, hunits⟩ := Bool.or_eq_false_iff.1 h
    have hne : units ≠ 0 := by simpa using hunits
    exact ⟨hsign, Nat.pos_of_ne_zero hne⟩

/-- A ratio of natural numbers is a number. -/
theorem Binary64.ofRatio_ne_nan (negative : Bool) (m n : Nat) : ofRatio negative m n ≠ nan := by
  simp only [ofRatio]
  split
  · exact fun h => nomatch h
  · exact fun h => nomatch h

theorem Binary64.finite?_ne_nan (x : Binary64) : x.finite? ≠ some nan := by
  cases x <;> simp [finite?]

theorem le_roundedQuotient (numerator denominator : Nat) :
    numerator / denominator ≤ roundedQuotient numerator denominator := by
  unfold roundedQuotient
  dsimp only
  split
  · exact Nat.le_succ _
  · exact Nat.le_refl _

/-- Rounding to significant bits leaves a number above every power of two that it is above. -/
theorem Binary64.le_rounded (bits : Nat) {limit scaled : Nat} (hlimit : limit = Nat.pow 2 bits)
    (hbits : 52 ≤ bits) (h : limit ≤ scaled) :
    limit ≤ roundedQuotient scaled (Nat.pow 2 (scaled.log2 + 1 - 53)) *
      Nat.pow 2 (scaled.log2 + 1 - 53) := by
  subst hlimit
  have hpos : scaled ≠ 0 := Nat.ne_zero_of_lt (Nat.lt_of_lt_of_le (Nat.two_pow_pos bits) h)
  have hlog : bits ≤ scaled.log2 := (Nat.le_log2 hpos).2 h
  have hsum : scaled.log2 = 52 + (scaled.log2 + 1 - 53) := by omega
  generalize scaled.log2 + 1 - 53 = grain at hsum ⊢
  have hpow : Nat.pow 2 52 * Nat.pow 2 grain = Nat.pow 2 scaled.log2 := by
    rw [hsum]
    exact (Nat.pow_add 2 52 grain).symm
  have hquotient : Nat.pow 2 52 ≤ scaled / Nat.pow 2 grain := by
    refine (Nat.le_div_iff_mul_le (Nat.two_pow_pos grain)).2 ?_
    exact Nat.le_trans (Nat.le_of_eq hpow) (Nat.log2_self_le hpos)
  calc Nat.pow 2 bits ≤ Nat.pow 2 scaled.log2 := Nat.pow_le_pow_right (by decide) hlog
    _ = Nat.pow 2 52 * Nat.pow 2 grain := hpow.symm
    _ ≤ _ := Nat.mul_le_mul_right _ (Nat.le_trans hquotient (le_roundedQuotient _ _))

/-- An integer beyond the finite numbers is near none of them. -/
theorem Binary64.ofInt?_eq_none {n : Int} (h : unitsLimit ≤ n.natAbs * unitsPerOne) :
    ofInt? n = none := by
  have hunits := le_rounded 2098 (by decide +kernel) (by decide) h
  simp only [ofInt?, ofRatio, Nat.div_one, Nat.one_mul]
  rw [if_neg (Nat.not_lt.2 hunits)]
  rfl

/-- A value is an integer beyond all floating point numbers. -/
def Data.IsOversized (given : Data) : Prop := ∃ n, given = .integer n ∧ Binary64.ofInt? n = none

/-- An integer of too many digits is beyond all floating point numbers. -/
theorem Data.isOversized_of_isOverlong {n : Int} (h : Number.isOverlong n = true) :
    (integer n).IsOversized := by
  have hpos : 0 < Binary64.unitsPerOne := by decide +kernel
  have hlimit : Binary64.unitsLimit ≤ Nat.pow 10 Number.digitLimit := by decide +kernel
  refine ⟨n, rfl, Binary64.ofInt?_eq_none ?_⟩
  calc Binary64.unitsLimit ≤ Nat.pow 10 Number.digitLimit := hlimit
    _ ≤ n.natAbs := Number.isOverlong_iff.1 h
    _ ≤ n.natAbs * Binary64.unitsPerOne := Nat.le_mul_of_pos_right _ hpos

/-- A value is the floating point number that is not a number, or a text that spells it. -/
def Data.IsNan (given : Data) : Prop :=
  given = .float .nan ∨ ∃ t, given = .text t ∧ Number.binary64? t = some .nan

/-! ## Messages -/

namespace SuiteError

variable {given : Data}

/-- A value that can be printed is shown by its fault. -/
theorem showing_eq_fault (place : Text) (cause : Text → SuiteFault) (h : ¬ given.IsUnprintable) :
    ∃ printed, showing place cause given = .fault place (cause printed) := by
  rw [← Data.render?_eq_none_iff] at h
  obtain ⟨printed, hprinted⟩ := Option.ne_none_iff_exists'.1 h
  exact ⟨printed, by rw [showing, hprinted]; rfl⟩

/-- For one that cannot there is no fault. -/
theorem showing_of_isUnprintable (place : Text) (cause : Text → SuiteFault)
    (h : given.IsUnprintable) : showing place cause given = .unprintable := by
  rw [showing, Data.render?_eq_none_iff.2 h]
  rfl

end SuiteError

/-! ## Reading a time -/

namespace Timeout

variable {place : Text} {given : Data} {x : Binary64}

/-- The number of a value is not found only if the value is an integer that is too large. -/
theorem seconds?_eq_error {e : SuiteError} (h : seconds? given = .error e) :
    e = .timeoutTooLarge ∧ given.IsOversized := by
  cases given with
  | integer n =>
    rw [seconds?] at h
    cases hn : Binary64.ofInt? n with
    | some x =>
      rw [hn] at h
      cases h
    | none =>
      rw [hn] at h
      exact ⟨(Except.error.inj h).symm, n, rfl, hn⟩
  | _ => exact nomatch h

/-- A value that gives no number as its number is one of those that stand for it. -/
theorem isNan_of_seconds? (h : seconds? given = .ok (some .nan)) : given.IsNan := by
  cases given with
  | bool b => exact absurd (Option.some.inj (Except.ok.inj h)) (Binary64.ofRatio_ne_nan _ _ _)
  | integer n =>
    rw [seconds?] at h
    cases hn : Binary64.ofInt? n with
    | some x =>
      rw [hn] at h
      obtain rfl := Option.some.inj (Except.ok.inj h)
      exact absurd hn (Binary64.finite?_ne_nan _)
    | none =>
      rw [hn] at h
      cases h
  | float x => exact Or.inl (congrArg Data.float (Option.some.inj (Except.ok.inj h)))
  | text t => exact Or.inr ⟨t, rfl, Except.ok.inj h⟩
  | null | date | moment | list | mapping => exact nomatch Except.ok.inj h

theorem seconds?_of_isOversized (h : given.IsOversized) :
    seconds? given = .error .timeoutTooLarge := by
  obtain ⟨n, rfl, hn⟩ := h
  rw [seconds?, hn]
  rfl

theorem seconds?_of_isNan (h : given.IsNan) : seconds? given = .ok (some .nan) := by
  rcases h with rfl | ⟨t, rfl, ht⟩
  · rfl
  · exact congrArg Except.ok ht

/-- A value other than null is a time by its number. -/
theorem ofData_of_seconds? (hnull : given ≠ .null) :
    ofData place given = (do
      match ← seconds? given with
      | none => throw (.showing place .timeoutNotNumber given)
      | some x =>
        if x.isAtMostZero then throw (.showing place .timeoutNotPositive given)
        else return some x) := by
  unfold ofData
  split
  · exact absurd rfl hnull
  · rfl

theorem ofData_of_isOversized (place : Text) (h : given.IsOversized) :
    ofData place given = .error .timeoutTooLarge := by
  have hnull : given ≠ .null := by
    obtain ⟨n, rfl, -⟩ := h
    exact fun hn => nomatch hn
  rw [ofData_of_seconds? hnull, seconds?_of_isOversized h]
  rfl

theorem ofData_of_isNan (place : Text) (h : given.IsNan) :
    ofData place given = .ok (some .nan) := by
  have hnull : given ≠ .null := by
    rcases h with rfl | ⟨t, rfl, -⟩
    · exact fun hn => nomatch hn
    · exact fun hn => nomatch hn
  rw [ofData_of_seconds? hnull, seconds?_of_isNan h]
  rfl

/-- A value that cannot be printed is no time, and no fault either. -/
theorem ofData_of_isUnprintable (place : Text) (h : given.IsUnprintable) :
    ofData place given = .error .timeoutTooLarge ∨ ofData place given = .error .unprintable := by
  obtain ⟨n, hheld, hlong⟩ := h
  have hshowing (cause : Text → SuiteFault) :
      SuiteError.showing place cause given = .unprintable :=
    SuiteError.showing_of_isUnprintable place cause ⟨n, hheld, hlong⟩
  cases hheld with
  | integer => exact Or.inl (ofData_of_isOversized place (Data.isOversized_of_isOverlong hlong))
  | item | key | value =>
    refine Or.inr ?_
    exact congrArg Except.error (hshowing _)

/-- A value is refused as a time, or it cannot be printed, or it is too large, or it is no number
and accepted as one, or it is accepted as no limit or a number above zero. -/
theorem ofData_cases (place : Text) (given : Data) :
    (∃ cause, ofData place given = .error (.fault place cause)) ∨ given.IsUnprintable ∨
      given.IsOversized ∨ given.IsNan ∨
      ∃ limit : Timeout, (∀ x ∈ limit, x.IsPositive) ∧ ofData place given = .ok limit := by
  by_cases hnull : given = .null
  · subst hnull
    refine Or.inr (Or.inr (Or.inr (Or.inr ⟨none, ?_, rfl⟩)))
    intro x hx
    cases hx
  by_cases hprint : given.IsUnprintable
  · exact Or.inr (Or.inl hprint)
  have hshowing (cause : Text → SuiteFault) := SuiteError.showing_eq_fault place cause hprint
  rw [ofData_of_seconds? hnull]
  cases hseconds : seconds? given with
  | error e => exact Or.inr (Or.inr (Or.inl (seconds?_eq_error hseconds).2))
  | ok found =>
    cases found with
    | none =>
      obtain ⟨printed, hfault⟩ := hshowing .timeoutNotNumber
      exact Or.inl ⟨_, congrArg Except.error hfault⟩
    | some x =>
      by_cases hzero : x.isAtMostZero = true
      · obtain ⟨printed, hfault⟩ := hshowing .timeoutNotPositive
        exact Or.inl ⟨_, (if_pos hzero).trans (congrArg Except.error hfault)⟩
      · by_cases hnan : x = .nan
        · subst hnan
          exact Or.inr (Or.inr (Or.inr (Or.inl (isNan_of_seconds? hseconds))))
        · have hpositive := x.isPositive_of_not_isAtMostZero (Bool.not_eq_true _ ▸ hzero) hnan
          refine Or.inr (Or.inr (Or.inr (Or.inr ⟨some x, ?_, if_neg hzero⟩)))
          rintro y ⟨⟩
          exact hpositive

end Timeout

namespace Suite

variable {place : Text} {base : Path} {setting : Option Text} {data : Data}
  {fields : List (Data × Data)} {address : Text} {peer : Address} {entries : List Text}
  {items rest : List Data} {entry : Data}

/-! ## Scripts -/

/-- The path of a script entry. -/
def scriptPath (base : Path) (entry : Text) : Path := base.join (.ofText entry)

theorem scriptPaths_texts (place : Text) (base : Path) (entries : List Text) :
    scriptPaths place base (entries.map .text) = .ok (entries.map (scriptPath base)) := by
  induction entries with
  | nil => rfl
  | cons entry entries ih =>
    rw [List.map_cons, scriptPaths, ih]
    rfl

/-- The first entry that is no text is refused. -/
theorem scriptPaths_of_ne_text (place : Text) (base : Path) (entries : List Text)
    (hentry : ∀ t, entry ≠ .text t) (rest : List Data) :
    scriptPaths place base (entries.map .text ++ entry :: rest) =
      .error (.showing place .badScript entry) := by
  induction entries with
  | nil =>
    cases entry with
    | text t => exact absurd rfl (hentry t)
    | _ => rfl
  | cons first entries ih =>
    rw [List.map_cons, List.cons_append, scriptPaths, ih]
    rfl

/-- Entries are texts up to one that is none, if there is one. -/
theorem entries_cases (items : List Data) :
    (∃ entries : List Text, items = entries.map .text) ∨
      ∃ (entries : List Text) (entry : Data) (rest : List Data),
        items = entries.map .text ++ entry :: rest ∧ ∀ t, entry ≠ .text t := by
  induction items with
  | nil => exact Or.inl ⟨[], rfl⟩
  | cons item items ih =>
    cases item with
    | text first =>
      rcases ih with ⟨entries, rfl⟩ | ⟨entries, entry, rest, rfl, hentry⟩
      · exact Or.inl ⟨first :: entries, rfl⟩
      · exact Or.inr ⟨first :: entries, entry, rest, rfl, hentry⟩
    | _ => exact Or.inr ⟨[], _, items, rfl, nofun⟩

/-! ## Descriptions -/

/-- The time that a description gives, or else the setting.  Without either it is null. -/
def timeGiven (setting : Option Text) (fields : List (Data × Data)) : Data :=
  match Data.get? "timeout" fields with
  | some given => given
  | none =>
    let raw := (setting.getD []).stripped
    if raw.isEmpty then .null else .text raw

/-- The name of what gives the time. -/
def timePlace (place : Text) (fields : List (Data × Data)) : Text :=
  match Data.get? "timeout" fields with
  | some _ => place
  | none => timeoutSetting

/-- The time is read in the same way wherever it is given. -/
theorem timeout_eq (place : Text) (setting : Option Text) (fields : List (Data × Data)) :
    (match Data.get? "timeout" fields with
      | some given => Timeout.ofData place given
      | none => Timeout.ofSetting setting) =
      Timeout.ofData (timePlace place fields) (timeGiven setting fields) := by
  unfold timePlace timeGiven Timeout.ofSetting
  cases Data.get? "timeout" fields with
  | some given => rfl
  | none =>
    dsimp only
    split
    · rfl
    · rfl

/-- The fields of a description with an address that can be read and with a list of scripts. -/
structure Describes (fields : List (Data × Data)) (address : Text) (peer : Address)
    (items : List Data) : Prop where
  named : Data.get? "address" fields = some (.text address)
  parsed : Address.parse address = .ok peer
  listed : Data.get? "scripts" fields = some (.list items)
  ne_nil : items ≠ []

theorem Describes.address_ne_nil (h : Describes fields address peer items) : address ≠ [] := by
  rintro rfl
  exact nomatch h.parsed

/-- Of a description whose address is in order the scripts and then the time are left to read. -/
theorem ofData_of_describes (h : Describes fields address peer items) (place : Text)
    (base : Path) (setting : Option Text) :
    ofData place base setting (.mapping fields) = (do
      let paths ← scriptPaths place base items
      let limit ← Timeout.ofData (timePlace place fields) (timeGiven setting fields)
      return ⟨address, paths, limit⟩) := by
  have hlisted : items.isEmpty = false := by simpa using h.ne_nil
  have hnamed : address.isEmpty = false := by simpa using h.address_ne_nil
  rw [← timeout_eq]
  simp only [ofData, h.named, h.parsed, h.listed, hlisted, hnamed]
  cases Data.get? "timeout" fields <;> rfl

/-- If the scripts are texts, the time decides. -/
theorem ofData_of_texts (h : Describes fields address peer (entries.map .text)) (place : Text)
    (base : Path) (setting : Option Text) :
    ofData place base setting (.mapping fields) =
      (Timeout.ofData (timePlace place fields) (timeGiven setting fields)).map fun limit =>
        ⟨address, entries.map (scriptPath base), limit⟩ := by
  rw [ofData_of_describes h, scriptPaths_texts]
  cases Timeout.ofData (timePlace place fields) (timeGiven setting fields) <;> rfl

/-- If a script is none, it does. -/
theorem ofData_of_entry (h : Describes fields address peer (entries.map .text ++ entry :: rest))
    (hentry : ∀ t, entry ≠ .text t) (place : Text) (base : Path) (setting : Option Text) :
    ofData place base setting (.mapping fields) = .error (.showing place .badScript entry) := by
  rw [ofData_of_describes h, scriptPaths_of_ne_text place base entries hentry]
  rfl

/-- Every other description is a fault. -/
theorem ofData_cases (place : Text) (base : Path) (setting : Option Text) (data : Data) :
    (∃ cause, ofData place base setting data = .error (.fault place cause)) ∨
      ∃ fields address peer items, data = .mapping fields ∧
        Describes fields address peer items := by
  cases data with
  | mapping fields =>
    unfold ofData
    dsimp only
    split
    · next address hnamed =>
      split
      · exact Or.inl ⟨_, rfl⟩
      · split
        · exact Or.inl ⟨_, rfl⟩
        · next peer hparsed =>
          split
          · next items hlisted =>
            split
            · exact Or.inl ⟨_, rfl⟩
            · next hne =>
              refine Or.inr ⟨fields, address, peer, items, rfl, hnamed, hparsed, hlisted, ?_⟩
              rintro rfl
              exact hne rfl
          · exact Or.inl ⟨_, rfl⟩
    · exact Or.inl ⟨_, rfl⟩
  | _ => exact Or.inl ⟨_, rfl⟩

/-! ## What a description leads to -/

/-- A suite that can be run: with a host and a port, with the scripts of its description in order,
and with a time above zero or no limit. -/
structure IsUsable (suite : Suite) (base : Path) (data : Data) : Prop where
  peer : ∃ peer, Address.parse suite.address = .ok peer ∧ peer.host ≠ [] ∧
    1 ≤ peer.port ∧ peer.port ≤ 65535
  scripts : ∃ (fields : List (Data × Data)) (entries : List Text), data = .mapping fields ∧
    Data.get? "scripts" fields = some (.list (entries.map .text)) ∧ entries ≠ [] ∧
    suite.scripts = entries.map fun entry => base.join (.ofText entry)
  timeout : ∀ x ∈ suite.timeout, x.IsPositive

/-- A description is rejected with a fault, or it leads to a usable suite. -/
def IsSettled (place : Text) (base : Path) (setting : Option Text) (data : Data) : Prop :=
  (∃ origin cause, ofData place base setting data = .error (.fault origin cause)) ∨
    ∃ suite, ofData place base setting data = .ok suite ∧ suite.IsUsable base data

/-- The descriptions that slip through.  Their address and the list of their scripts are in order.
Then a script that is none cannot be printed.  Or all are in order, and the time cannot be printed
or is an integer that is too large, or it is no number, or it is accepted beside an address without
a host. -/
inductive Slips (place : Text) (setting : Option Text) : Data → Prop where
  | script {fields : List (Data × Data)} {address : Text} {peer : Address} {entries : List Text}
      {entry : Data} {rest : List Data}
      (h : Describes fields address peer (entries.map .text ++ entry :: rest))
      (hentry : entry.IsUnprintable) : Slips place setting (.mapping fields)
  | unprintable {fields : List (Data × Data)} {address : Text} {peer : Address}
      {entries : List Text} (h : Describes fields address peer (entries.map .text))
      (htime : (timeGiven setting fields).IsUnprintable) : Slips place setting (.mapping fields)
  | oversized {fields : List (Data × Data)} {address : Text} {peer : Address}
      {entries : List Text} (h : Describes fields address peer (entries.map .text))
      (htime : (timeGiven setting fields).IsOversized) : Slips place setting (.mapping fields)
  | nan {fields : List (Data × Data)} {address : Text} {peer : Address} {entries : List Text}
      (h : Describes fields address peer (entries.map .text))
      (htime : (timeGiven setting fields).IsNan) : Slips place setting (.mapping fields)
  | host {fields : List (Data × Data)} {address : Text} {peer : Address} {entries : List Text}
      {limit : Timeout} (h : Describes fields address peer (entries.map .text))
      (hhost : peer.host = [])
      (htime : Timeout.ofData (timePlace place fields) (timeGiven setting fields) = .ok limit) :
      Slips place setting (.mapping fields)

/-- An error that is no fault leaves a description unsettled. -/
theorem not_isSettled_of_error {e : SuiteError} (h : ofData place base setting data = .error e)
    (he : ∀ origin cause, e ≠ .fault origin cause) : ¬ IsSettled place base setting data := by
  rintro (⟨origin, cause, hfault⟩ | ⟨suite, hsuite, -⟩)
  · exact he origin cause (Except.error.inj (h.symm.trans hfault))
  · cases h.symm.trans hsuite

/-- So does a suite that is not usable. -/
theorem not_isSettled_of_ok {suite : Suite} (h : ofData place base setting data = .ok suite)
    (husable : ¬ suite.IsUsable base data) : ¬ IsSettled place base setting data := by
  rintro (⟨origin, cause, hfault⟩ | ⟨other, hsuite, hother⟩)
  · cases h.symm.trans hfault
  · exact husable (Except.ok.inj (h.symm.trans hsuite) ▸ hother)

/-- A text can be printed. -/
theorem ne_text_of_isUnprintable (h : entry.IsUnprintable) (t : Text) : entry ≠ .text t := by
  rintro rfl
  obtain ⟨n, hheld, -⟩ := h
  cases hheld

/-- Whatever slips through is neither rejected nor usable. -/
theorem Slips.not_isSettled (h : Slips place setting data) (base : Path) :
    ¬ IsSettled place base setting data := by
  cases h with
  | script h hentry =>
    have hresult := ofData_of_entry h (ne_text_of_isUnprintable hentry) place base setting
    rw [SuiteError.showing_of_isUnprintable _ _ hentry] at hresult
    exact not_isSettled_of_error hresult nofun
  | unprintable h htime =>
    have hresult := ofData_of_texts h place base setting
    rcases Timeout.ofData_of_isUnprintable _ htime with htime | htime
    · rw [htime] at hresult
      exact not_isSettled_of_error hresult nofun
    · rw [htime] at hresult
      exact not_isSettled_of_error hresult nofun
  | oversized h htime =>
    have hresult := ofData_of_texts h place base setting
    rw [Timeout.ofData_of_isOversized _ htime] at hresult
    exact not_isSettled_of_error hresult nofun
  | nan h htime =>
    have hresult := ofData_of_texts h place base setting
    rw [Timeout.ofData_of_isNan _ htime] at hresult
    exact not_isSettled_of_ok hresult fun husable => husable.timeout .nan rfl
  | host h hhost htime =>
    have hresult := ofData_of_texts h place base setting
    rw [htime] at hresult
    refine not_isSettled_of_ok hresult fun husable => ?_
    obtain ⟨other, hparsed, hne, -⟩ := husable.peer
    obtain rfl := Except.ok.inj (h.parsed.symm.trans hparsed)
    exact hne hhost

theorem Describes.isUsable (h : Describes fields address peer (entries.map .text)) (base : Path)
    (hhost : peer.host ≠ []) {limit : Timeout} (hlimit : ∀ x ∈ limit, x.IsPositive) :
    IsUsable ⟨address, entries.map (scriptPath base), limit⟩ base (.mapping fields) where
  peer := ⟨peer, h.parsed, hhost, Address.port_of_parse h.parsed⟩
  scripts := ⟨fields, entries, rfl, h.listed, by simpa using h.ne_nil, rfl⟩
  timeout := hlimit

/-- A description is settled exactly if it does not slip through. -/
theorem isSettled_iff (place : Text) (base : Path) (setting : Option Text) (data : Data) :
    IsSettled place base setting data ↔ ¬ Slips place setting data := by
  constructor
  · exact fun hsettled hslips => hslips.not_isSettled base hsettled
  · intro hslips
    rcases ofData_cases place base setting data with
      ⟨cause, hfault⟩ | ⟨fields, address, peer, items, rfl, h⟩
    · exact Or.inl ⟨place, cause, hfault⟩
    rcases entries_cases items with ⟨entries, rfl⟩ | ⟨entries, entry, rest, rfl, hentry⟩
    · have hresult := ofData_of_texts h place base setting
      rcases Timeout.ofData_cases (timePlace place fields) (timeGiven setting fields) with
        ⟨cause, hfault⟩ | htime | htime | htime | ⟨limit, hlimit, htime⟩
      · rw [hfault] at hresult
        exact Or.inl ⟨_, cause, hresult⟩
      · exact absurd (.unprintable h htime) hslips
      · exact absurd (.oversized h htime) hslips
      · exact absurd (.nan h htime) hslips
      · rw [htime] at hresult
        have hne : peer.host ≠ [] := fun hempty => hslips (.host h hempty htime)
        exact Or.inr ⟨_, hresult, h.isUsable base hne hlimit⟩
    · have hprint : ¬ entry.IsUnprintable := fun hentry => hslips (.script h hentry)
      obtain ⟨printed, hfault⟩ := SuiteError.showing_eq_fault place .badScript hprint
      have hresult := ofData_of_entry h hentry place base setting
      rw [hfault] at hresult
      exact Or.inl ⟨place, _, hresult⟩

/-- The fields of a description with an address, one script and a time. -/
def oneScript (address : Text) (entry time : Data) : List (Data × Data) :=
  [(.text "address", .text address), (.text "scripts", .list [entry]), (.text "timeout", time)]

theorem timeGiven_oneScript (setting : Option Text) (address : Text) (entry time : Data) :
    timeGiven setting (oneScript address entry time) = time := by
  have haddress : ("address" : Text) ≠ "timeout" := by decide +kernel
  have hscripts : ("scripts" : Text) ≠ "timeout" := by decide +kernel
  simp [timeGiven, oneScript, Data.get?, haddress, hscripts]

/-- One script is described as soon as its address can be read. -/
theorem describes_oneScript (h : Address.parse address = .ok peer) (entry time : Data) :
    Describes (oneScript address entry time) address peer [entry] := by
  have hscripts : ("address" : Text) ≠ "scripts" := by decide +kernel
  refine ⟨?_, h, ?_, List.cons_ne_nil _ _⟩
  · simp [oneScript, Data.get?]
  · simp [oneScript, Data.get?, hscripts]

theorem describes_oneText (h : Address.parse address = .ok peer) (entry : Text) (time : Data) :
    Describes (oneScript address (.text entry) time) address peer ([entry].map .text) :=
  describes_oneScript h (.text entry) time

theorem describes_noText (h : Address.parse address = .ok peer) (entry time : Data) :
    Describes (oneScript address entry time) address peer
      (([] : List Text).map .text ++ entry :: []) :=
  describes_oneScript h entry time

/-- A time that is an integer too large for a floating point number, one that is spelled out as no
number, an address with nothing in its brackets, and a script and a time that cannot be printed. -/
theorem not_isSettled_samples :
    ¬ IsSettled "suite" (.ofText "b") none
        (.mapping (oneScript "h:1" (.text "x") (.integer (1 <<< 1024)))) ∧
      ¬ IsSettled "suite" (.ofText "b") none
        (.mapping (oneScript "h:1" (.text "x") (.text "nan"))) ∧
      ¬ IsSettled "suite" (.ofText "b") none
        (.mapping (oneScript "[]:5" (.text "x") .null)) ∧
      ¬ IsSettled "suite" (.ofText "b") none
        (.mapping (oneScript "h:1" (.integer (Nat.pow 10 Number.digitLimit : Nat)) .null)) ∧
      ¬ IsSettled "suite" (.ofText "b") none
        (.mapping (oneScript "h:1" (.text "x") (.list [.integer (Nat.pow 10 Number.digitLimit : Nat)]))) := by
  have hsplit : Address.splitLast ':' "h:1" = some (("h" : Text), ("1" : Text)) := by
    decide +kernel
  have hempty : Address.splitLast ':' "[]:5" = some (("[]" : Text), ("5" : Text)) := by
    decide +kernel
  have hone : Number.integer? "1" = some 1 := by decide +kernel
  have hfive : Number.integer? "5" = some 5 := by decide +kernel
  have hhost := Address.parse_of_splitLast hsplit (by decide +kernel) hone (by decide)
  have hbrackets := Address.parse_of_splitLast hempty (by decide +kernel) hfive (by decide)
  have hlarge : Binary64.ofInt? (1 <<< 1024) = none := by decide +kernel
  have hnan : Number.binary64? "nan" = some .nan := by decide +kernel
  have hlong : Number.isOverlong (Nat.pow 10 Number.digitLimit : Nat) = true :=
    Number.isOverlong_iff.2 (Nat.le_of_eq (Int.natAbs_natCast _).symm)
  refine ⟨?_, ?_, ?_, ?_, ?_⟩
  · refine (Slips.oversized (describes_oneText hhost _ _) ?_).not_isSettled _
    rw [timeGiven_oneScript]
    exact ⟨_, rfl, hlarge⟩
  · refine (Slips.nan (describes_oneText hhost _ _) ?_).not_isSettled _
    rw [timeGiven_oneScript]
    exact Or.inr ⟨_, rfl, hnan⟩
  · have htime (place : Text) :
        Timeout.ofData place (timeGiven none (oneScript "[]:5" (.text "x") .null)) = .ok none := by
      rw [timeGiven_oneScript]
      rfl
    exact (Slips.host (describes_oneText hbrackets _ _) (by decide +kernel)
      (htime _)).not_isSettled _
  · exact (Slips.script (describes_noText hhost _ _) ⟨_, .integer, hlong⟩).not_isSettled _
  · refine (Slips.unprintable (describes_oneText hhost _ _) ?_).not_isSettled _
    rw [timeGiven_oneScript]
    exact ⟨_, .item (List.mem_singleton_self _) .integer, hlong⟩

/-- A host in brackets and a time that is spelled as a number. -/
theorem isSettled_bracketed :
    IsSettled "suite" (.ofText "b") none
      (.mapping (oneScript "[::1]:5" (.text "x") (.text "2.5"))) := by
  have hsplit : Address.splitLast ':' "[::1]:5" = some (("[::1]" : Text), ("5" : Text)) := by
    decide +kernel
  have hfive : Number.integer? "5" = some 5 := by decide +kernel
  have hparsed := Address.parse_of_splitLast hsplit (by decide +kernel) hfive (by decide)
  have hseconds : Number.binary64? "2.5" ≠ some .nan := by decide +kernel
  have h := describes_oneScript hparsed (.text "x") (.text "2.5")
  refine (isSettled_iff _ _ _ _).2 ?_
  intro hslips
  cases hslips with
  | @script _ _ _ _ entry _ h' hentry =>
    have hitems := Data.list.inj (Option.some.inj (h.listed.symm.trans h'.listed))
    have hmem : entry ∈ [Data.text "x"] := by
      rw [hitems]
      exact List.mem_append_right _ List.mem_cons_self
    exact ne_text_of_isUnprintable hentry "x" (List.mem_singleton.1 hmem)
  | unprintable h' htime =>
    rw [timeGiven_oneScript] at htime
    exact ne_text_of_isUnprintable htime _ rfl
  | oversized h' htime =>
    rw [timeGiven_oneScript] at htime
    obtain ⟨n, hn, -⟩ := htime
    cases hn
  | nan h' htime =>
    rw [timeGiven_oneScript] at htime
    rcases htime with hn | ⟨t, ht, hnan⟩
    · cases hn
    · cases ht
      exact hseconds hnan
  | host h' hhost htime =>
    obtain rfl := Data.text.inj (Option.some.inj (h'.named.symm.trans h.named))
    obtain rfl := Except.ok.inj (h'.parsed.symm.trans hparsed)
    exact absurd hhost (by decide +kernel)

end Suite

end WireScript
