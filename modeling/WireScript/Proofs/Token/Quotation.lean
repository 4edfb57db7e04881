import WireScript.Token.Literal

/-!
# Quotation

Every text can be written as a string literal: code points with a letter of their own are escaped
by it, undecodable bytes by their number, and all others stand for themselves.  Reading the literal
gives the text back if it is in canonical form (`string_literal`).
-/

namespace WireScript

open Literal

/-! ## Writing -/

/-- The letter that escapes a code point, if it has one. -/
def CodePoint.escapeLetter? (p : CodePoint) : Option Char :=
  ['a', 'b', 'f', 'n', 'r', 't', 'v', '\\', '"'].find? fun letter =>
    (simpleEscape (.scalar letter)).any p.is

/-- A code point as it is written between quotes. -/
def CodePoint.written (p : CodePoint) : Text :=
  match p, p.escapeLetter? with
  | .byte low, _ => .scalar '\\' :: .scalar 'x' :: Text.hex 2 (0x80 + low)
  | _, some letter => [.scalar '\\', .scalar letter]
  | p, none => [p]

/-- A text as a string literal. -/
def Text.literal (t : Text) : Text :=
  .scalar '"' :: (t.flatMap CodePoint.written ++ [.scalar '"'])

/-- What a reader finds that has read a code point in front of the rest. -/
def Reading.cons (p : CodePoint) (r : Reading Text) : Reading Text :=
  { r with value := p :: r.value }

namespace Literal

variable {opening : Cursor} {here : Location} {p : CodePoint} {rest : Text}

/-! ## Reading code point by code point -/

/-- Digits of the base, as many as are wanted, are all read. -/
theorem escapeDigits_of_digits {base : Nat} {ds : Text} (value : Nat)
    (h : ∀ p ∈ ds, (p.digit? base).isSome) :
    escapeDigits base ds.length value ⟨here, ds ++ rest⟩ =
      ⟨(ds.filterMap (CodePoint.digit? base)).foldl (fun n d => n * base + d) value, 0,
        ⟨here.past ds, rest⟩⟩ := by
  induction ds generalizing here value with
  | nil => rfl
  | cons p ds ih =>
    have hp := h p List.mem_cons_self
    obtain ⟨d, hd⟩ := Option.isSome_iff_exists.1 hp
    rw [List.length_cons, escapeDigits]
    simp only [Cursor.peek, List.cons_append, List.head?_cons, Option.bind_some, hd]
    rw [Cursor.next, ih _ fun p hp => h p (List.mem_cons_of_mem _ hp),
      List.filterMap_cons_some hd]
    rfl

theorem stringBody_raw (hline : p ≠ .scalar '\n') (hquote : p ≠ .scalar '"')
    (hslash : p ≠ .scalar '\\') :
    stringBody opening ⟨here, p :: rest⟩ =
      Reading.cons p (stringBody opening ⟨here.next p, rest⟩) := by
  rw [stringBody]
  simp [CodePoint.is, hline, hquote, hslash, Reading.cons]

/-- An escape in front of the rest of a string. -/
theorem stringBody_escape {u : Text} {after : Cursor}
    (h : escape ⟨here, .scalar '\\' :: u⟩ ⟨here.next (.scalar '\\'), u⟩ = ⟨[p], [], after⟩) :
    stringBody opening ⟨here, .scalar '\\' :: u⟩ = Reading.cons p (stringBody opening after) := by
  rw [stringBody]
  simp [CodePoint.is, h, Reading.cons]

theorem escape_letter {letter c : Char} (h : simpleEscape (.scalar letter) = some c) :
    escape opening ⟨here, .scalar letter :: rest⟩ =
      ⟨[.scalar c], [], ⟨here.next (.scalar letter), rest⟩⟩ := by
  simp [escape, Cursor.peek, h, Cursor.next]

/-- A numeric escape with all of its digits stands for their value. -/
theorem numericEscape_of_digits {form : NumericForm} {ds : Text} (hlength : ds.length = form.digits)
    (hdigits : ∀ p ∈ ds, (p.digit? form.base).isSome)
    (hadmits : form.admits (ofDigits form.base (ds.filterMap (CodePoint.digit? form.base)))) :
    numericEscape form opening ⟨here, ds ++ rest⟩ =
      ⟨[form.codePoint (ofDigits form.base (ds.filterMap (CodePoint.digit? form.base)))], [],
        ⟨here.past ds, rest⟩⟩ := by
  have hread : escapeDigits form.base ds.length 0 ⟨here, ds ++ rest⟩ = _ :=
    escapeDigits_of_digits 0 hdigits
  rw [hlength] at hread
  unfold ofDigits at hadmits ⊢
  simp [numericEscape, hread, skipEscape, hadmits]

/-- An undecodable byte is written with two digits that stand for its number. -/
theorem hex_byte (low : Fin 128) :
    (Text.hex 2 (0x80 + low)).length = 2 ∧
      (∀ p ∈ Text.hex 2 (0x80 + low), (p.digit? 16).isSome) ∧
      ofDigits 16 ((Text.hex 2 (0x80 + low)).filterMap (CodePoint.digit? 16)) = 0x80 + low := by
  revert low
  decide +kernel

theorem escape_byte (low : Fin 128) :
    escape opening ⟨here, .scalar 'x' :: (Text.hex 2 (0x80 + low) ++ rest)⟩ =
      ⟨[.byte low], [], ⟨(here.next (.scalar 'x')).past (Text.hex 2 (0x80 + low)), rest⟩⟩ := by
  have hform : ∀ low : Fin 128, (⟨2, 16, true⟩ : NumericForm).admits (0x80 + low) = true ∧
      (⟨2, 16, true⟩ : NumericForm).codePoint (0x80 + low) = .byte low := by
    decide +kernel
  obtain ⟨hlength, hdigits, hvalue⟩ := hex_byte low
  have hnumeric : numericEscape ⟨2, 16, true⟩ opening
      ⟨here.next (.scalar 'x'), Text.hex 2 (0x80 + low) ++ rest⟩ = _ :=
    numericEscape_of_digits hlength hdigits (by rw [hvalue]; exact (hform low).1)
  rw [hvalue, (hform low).2] at hnumeric
  exact hnumeric

/-! ## Reading what was written -/

theorem eq_of_escapeLetter? {letter : Char} (h : p.escapeLetter? = some letter) :
    ∃ c, p = .scalar c ∧ simpleEscape (.scalar letter) = some c := by
  have hletter := List.find?_some h
  obtain ⟨c, hc, hp⟩ := (Option.any_eq_true _ _).1 hletter
  exact ⟨c, by simpa [CodePoint.is] using hp, hc⟩

/-- A code point without a letter can stand for itself. -/
theorem raw_of_escapeLetter? (h : p.escapeLetter? = none) :
    p ≠ .scalar '\n' ∧ p ≠ .scalar '"' ∧ p ≠ .scalar '\\' := by
  have hletters : (CodePoint.scalar '\n').escapeLetter?.isSome ∧
      (CodePoint.scalar '"').escapeLetter?.isSome ∧
      (CodePoint.scalar '\\').escapeLetter?.isSome := by
    decide
  have hnone : ¬ p.escapeLetter?.isSome := by simp [h]
  obtain ⟨hline, hquote, hslash⟩ := hletters
  exact ⟨fun hp => hnone (hp ▸ hline), fun hp => hnone (hp ▸ hquote),
    fun hp => hnone (hp ▸ hslash)⟩

/-- What is written for one code point is read as this code point. -/
theorem stringBody_written :
    stringBody opening ⟨here, p.written ++ rest⟩ =
      Reading.cons p (stringBody opening ⟨here.past p.written, rest⟩) := by
  unfold CodePoint.written
  split
  · next low => exact stringBody_escape (escape_byte low)
  · next letter hletter =>
    obtain ⟨c, rfl, hc⟩ := eq_of_escapeLetter? hletter
    exact stringBody_escape (escape_letter hc)
  · next hletter =>
    obtain ⟨hline, hquote, hslash⟩ := raw_of_escapeLetter? hletter
    exact stringBody_raw hline hquote hslash

theorem stringBody_of_written (t : Text) :
    stringBody opening ⟨here, t.flatMap CodePoint.written ++ .scalar '"' :: rest⟩ =
      ⟨t, [], ⟨(here.past (t.flatMap CodePoint.written)).next (.scalar '"'), rest⟩⟩ := by
  induction t generalizing here with
  | nil =>
    rw [List.flatMap_nil, List.nil_append, stringBody]
    simp [CodePoint.is]
  | cons p t ih =>
    rw [List.flatMap_cons, List.append_assoc, stringBody_written, ih, Location.past_append]
    rfl

/-- A text that is written as a literal is read back, if it is in canonical form. -/
theorem string_literal {t : Text} (h : t.canonical = some t) :
    Literal.string ⟨here, t.literal ++ rest⟩ = ⟨t, [], ⟨here.past t.literal, rest⟩⟩ := by
  have hbody : (⟨here, t.literal ++ rest⟩ : Cursor).next =
      ⟨here.next (.scalar '"'), t.flatMap CodePoint.written ++ .scalar '"' :: rest⟩ := by
    simp [Text.literal, Cursor.next]
  rw [Literal.string, hbody, stringBody_of_written, h]
  simp [Text.literal, Location.past_append]

end Literal

end WireScript
