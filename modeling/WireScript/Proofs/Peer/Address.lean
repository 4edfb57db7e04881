import WireScript.Peer.Address
import WireScript.Proofs.Text.Decimal

/-!
# Written addresses

An address is written as its host, a colon and its port.  A host with a colon in it stands in
brackets, and so does one with brackets around it, which would be taken off otherwise.

There are three groups.

* The port.  `Number.integer?_of_digits` reads a text of digits, unless there are too many of them:
  nothing in it is white space, a sign or an underscore.
* The host.  `splitLast_append` finds the colon behind it, since the port has none, and
  `unbracketed_inBrackets` takes off one pair of brackets and no more.
* `parse_render` puts the two together.
-/

namespace WireScript

/-! ## The port -/

namespace Number

variable {t : Text}

/-- ASCII digits are their own ASCII form. -/
theorem toAscii_of_digits (h : ∀ p ∈ t, p.isDigit = true) : toAscii t = t := by
  unfold toAscii
  refine (List.map_congr_left fun p hp => ?_).trans t.map_id
  have hdigit := h p hp
  simp only [CodePoint.isDigit, Bool.and_eq_true, decide_eq_true_eq] at hdigit
  rw [if_pos (by omega), id]

/-- There is no white space at the ends of digits. -/
theorem prepared_of_digits (h : ∀ p ∈ t, p.isDigit = true) : prepared t = t := by
  have hblank : ∀ p ∈ t, p.isAsciiBlank = false := by
    intro p hp
    have hdigit := h p hp
    simp only [CodePoint.isDigit, Bool.and_eq_true, decide_eq_true_eq] at hdigit
    simp only [CodePoint.isAsciiBlank, Bool.or_eq_false_iff, Bool.and_eq_false_iff,
      decide_eq_false_iff_not, beq_eq_false_iff_ne]
    omega
  have hfront : t.dropWhile CodePoint.isAsciiBlank = t := by
    cases t with
    | nil => rfl
    | cons p t => exact List.dropWhile_cons_of_neg (by simp [hblank p])
  rw [prepared, toAscii_of_digits h, Text.trim, hfront]
  exact Text.dropTrailing_of_getLast? fun p hp => hblank p (List.mem_of_getLast? hp)

/-- A digit is no underscore, and digits have none to take out. -/
theorem withoutUnderscores_of_digits (previousIsDigit : Bool)
    (h : ∀ p ∈ t, p.isDigit = true) : withoutUnderscores previousIsDigit t = some t := by
  induction t generalizing previousIsDigit with
  | nil => rfl
  | cons p t ih =>
    obtain ⟨hp, ht⟩ := List.forall_mem_cons.1 h
    have hunderscore : p.is '_' = false := CodePoint.is_eq_false_of_isDigit hp (by decide)
    simp [withoutUnderscores, hunderscore, ih p.isDigit ht]

/-- A digit is no sign. -/
theorem splitSign_of_digits (h : ∀ p ∈ t, p.isDigit = true) : splitSign t = (false, t) := by
  cases t with
  | nil => rfl
  | cons p t =>
    have hp := h p List.mem_cons_self
    have hminus : p.is '-' = false := CodePoint.is_eq_false_of_isDigit hp (by decide)
    have hplus : p.is '+' = false := CodePoint.is_eq_false_of_isDigit hp (by decide)
    simp [splitSign, hminus, hplus]

/-- Digits alone are read as the number that they stand for, as many as are read. -/
theorem integer?_of_digits (hne : t ≠ []) (h : ∀ p ∈ t, p.isDigit = true) :
    integer? t = if digitLimit < t.length then none else some (ofAsciiDigits t : Int) := by
  have hdigits : (t.isEmpty || !t.all CodePoint.isDigit) = false := by simpa [hne] using h
  rw [integer?, prepared_of_digits h, splitSign_of_digits h]
  simp only [withoutUnderscores_of_digits false h, Option.bind_eq_bind, Option.bind_some, hdigits,
    Bool.false_or, decide_eq_true_eq]
  rfl

/-- A number in decimal is read as the number, if it is not too long. -/
theorem integer?_ofNat {n : Nat} (hn : (Text.ofNat n).length ≤ digitLimit) :
    integer? (Text.ofNat n) = some (n : Int) := by
  have hdigits : ∀ p ∈ Text.ofNat n, p.isDigit = true := fun p hp => Text.isDigit_of_mem_ofNat hp
  have hvalues : (Text.ofNat n).map CodePoint.digitValue =
      (Text.ofNat n).filterMap (CodePoint.digit? 10) := by
    generalize Text.ofNat n = t at hdigits
    induction t with
    | nil => rfl
    | cons p t ih =>
      obtain ⟨hp, ht⟩ := List.forall_mem_cons.1 hdigits
      have hrange := hp
      simp only [CodePoint.isDigit, Bool.and_eq_true, decide_eq_true_eq] at hrange
      have hvalue : p.digitValue = p.toNat - 0x30 := by simp [CodePoint.digitValue, hrange]
      rw [List.map_cons, List.filterMap_cons_some (CodePoint.digit?_of_isDigit hp), ih ht, hvalue]
  rw [integer?_of_digits (Text.ofNat_ne_nil n) hdigits, if_neg (Nat.not_lt.2 hn), ofAsciiDigits,
    hvalues, Text.ofDigits_ofNat]

end Number

namespace Address

variable {host front back : Text}

/-! ## The host -/

/-- The last separator stands in front of the part that has none. -/
theorem splitLast_append (separator : Char) (front : Text)
    (h : ∀ p ∈ back, p.is separator = false) :
    splitLast separator (front ++ .scalar separator :: back) = some (front, back) := by
  have hother : ∀ p ∈ back.reverse, (!p.is separator) = true := by
    intro p hp
    rw [h p (List.mem_reverse.1 hp)]
    rfl
  have hself : (!(CodePoint.scalar separator).is separator) = false := by simp [CodePoint.is]
  have hreverse : (front ++ .scalar separator :: back).reverse =
      back.reverse ++ .scalar separator :: front.reverse := by simp
  rw [splitLast, hreverse, List.dropWhile_append_of_pos hother,
    List.takeWhile_append_of_pos hother, List.dropWhile_cons_of_neg (by simp [hself]),
    List.takeWhile_cons_of_neg (by simp [hself])]
  simp

/-- Whether a host has brackets around it. -/
def isInBrackets (host : Text) : Bool :=
  host.head?.any (·.is '[') && host.getLast?.any (·.is ']')

/-- A host with brackets around it. -/
def inBrackets (host : Text) : Text := .scalar '[' :: host ++ [.scalar ']']

/-- The brackets around a host are taken off, those that are its own are not. -/
theorem unbracketed_inBrackets (host : Text) : unbracketed (inBrackets host) = host := by
  have hlast : (inBrackets host).getLast? = some (.scalar ']') := List.getLast?_concat
  have hbrackets : isInBrackets (inBrackets host) = true := by
    rw [isInBrackets, hlast]
    rfl
  calc unbracketed (inBrackets host)
      = (inBrackets host).tail.dropLast := if_pos hbrackets
    _ = host := List.dropLast_concat

theorem unbracketed_of_not_isInBrackets (h : isInBrackets host = false) :
    unbracketed host = host :=
  if_neg (by simpa [isInBrackets] using h)

/-! ## The address -/

/-- What stands in front of the last colon and behind it makes an address. -/
theorem parse_of_splitLast {t port : Text} {n : Int} (hsplit : splitLast ':' t = some (host, port))
    (hne : host ≠ []) (hport : Number.integer? port = some n) (hrange : 0 < n ∧ n < 65536) :
    parse t = .ok ⟨unbracketed host, n.toNat⟩ := by
  obtain ⟨p, rest, rfl⟩ := List.exists_cons_of_ne_nil hne
  rw [parse, hsplit]
  dsimp only
  rw [hport]
  exact if_pos hrange

/-- A host as it is written in an address. -/
def renderHost (host : Text) : Text :=
  if host.any (·.is ':') || isInBrackets host then inBrackets host else host

/-- An address as it is written. -/
def render (a : Address) : Text := renderHost a.host ++ .scalar ':' :: Text.ofNat a.port

theorem renderHost_ne_nil (hne : host ≠ []) : renderHost host ≠ [] := by
  unfold renderHost
  split
  · exact List.cons_ne_nil _ _
  · exact hne

/-- Reading takes off the brackets that writing puts around a host, and no others. -/
theorem unbracketed_renderHost (host : Text) : unbracketed (renderHost host) = host := by
  unfold renderHost
  split
  · exact unbracketed_inBrackets host
  · next h =>
    have hnone : (host.any (·.is ':') || isInBrackets host) = false := by simpa using h
    exact unbracketed_of_not_isInBrackets (Bool.or_eq_false_iff.1 hnone).2

/-- A written address is read as the address. -/
theorem parse_render (a : Address) (hhost : a.host ≠ []) (hport : 1 ≤ a.port ∧ a.port ≤ 65535) :
    parse (render a) = .ok a := by
  have hsplit : splitLast ':' (render a) = some (renderHost a.host, Text.ofNat a.port) := by
    refine splitLast_append ':' _ fun p hp => ?_
    exact CodePoint.is_eq_false_of_isDigit (Text.isDigit_of_mem_ofNat hp) (by decide)
  have hrange : (0 : Int) < a.port ∧ (a.port : Int) < 65536 := by omega
  have hlength : (Text.ofNat a.port).length ≤ 5 :=
    (Text.length_ofNat_le_iff (by decide) a.port).2 (by omega)
  have hread : Number.integer? (Text.ofNat a.port) = some (a.port : Int) :=
    Number.integer?_ofNat (Nat.le_trans hlength (by decide))
  rw [parse_of_splitLast hsplit (renderHost_ne_nil hhost) hread hrange, unbracketed_renderHost]
  rfl

/-- A host with brackets of its own and colons between them keeps both. -/
theorem parse_render_bracketed :
    let a : Address := ⟨"[::1]", 65535⟩
    a.host ≠ [] ∧ (1 ≤ a.port ∧ a.port ≤ 65535) ∧ render a = "[[::1]]:65535" ∧
      parse (render a) = .ok a :=
  ⟨by decide, by decide, by decide +kernel, parse_render _ (by decide) (by decide)⟩

/-- A port is never zero and fits into two bytes. -/
theorem port_of_parse {t : Text} {a : Address} (h : parse t = .ok a) :
    1 ≤ a.port ∧ a.port ≤ 65535 := by
  unfold parse at h
  split at h
  · cases h
  · cases h
  · split at h
    · cases h
    · split at h
      · next port _ hrange =>
        obtain rfl := Except.ok.inj h
        show 1 ≤ port.toNat ∧ port.toNat ≤ 65535
        omega
      · cases h

end Address

end WireScript
