import WireScript.Proofs.Text.Canonical
import WireScript.Proofs.Token.Encodable
import WireScript.Proofs.Token.Numeral
import WireScript.Proofs.Token.Quotation
import WireScript.Proofs.Token.Spelling

/-!
# What a string literal spells

A string literal is a sequence of elements between double quotes, and each element spells some
bytes: a raw code point the bytes it has in the source, an escape the byte or the character that its
letter or its digits name.  `Escape`, `Element` and `Spells` say so without any account of reading.

* Every escape is read as one code point with the bytes that it spells (`Escape.read`), and an
  escape that nothing is reported about is one of them (`exists_escape`).
* Every element therefore adds its bytes to the string that it stands in (`Element.read`), and what
  stands between two quotes without a report is a sequence of elements (`exists_spells`).
* `strings_mean_what_they_spell` puts both directions together: every sequence of elements between
  quotes is one string token that stands for the bytes of the elements, and every string token of a
  source without reports is such a sequence.
-/

namespace WireScript

/-! ## Elements -/

/-- The letters that make an escape alone, each with the byte that it stands for. -/
def escapeLetters : List (Char × UInt8) :=
  [('a', 0x07), ('b', 0x08), ('f', 0x0C), ('n', 0x0A), ('r', 0x0D), ('t', 0x09), ('v', 0x0B),
    ('\\', 0x5C), ('"', 0x22)]

/-- What follows the backslash of an escape, and the bytes that the escape spells. -/
inductive Escape : Text → List UInt8 → Prop where
  | letter {letter : Char} {b : UInt8} (h : (letter, b) ∈ escapeLetters) :
      Escape [.scalar letter] [b]
  | octal {ds : Text} {n : Nat} (h : Digits 8 ds n) (hlength : ds.length = 3) (hn : n ≤ 255) :
      Escape ds [UInt8.ofNat n]
  | hexadecimal {ds : Text} {n : Nat} (h : Digits 16 ds n) (hlength : ds.length = 2) :
      Escape (.scalar 'x' :: ds) [UInt8.ofNat n]
  | unicode {letter : Char} {ds : Text} {n : Nat} (h : Digits 16 ds n)
      (hlength : (letter, ds.length) ∈ [('u', 4), ('U', 8)]) (hn : n ≤ 0x10FFFF)
      (hscalar : ¬ (0xD800 ≤ n ∧ n ≤ 0xDFFF)) :
      Escape (.scalar letter :: ds) (Utf8.octets (Char.ofNat n))

/-- One element of a string literal, and the bytes that it spells. -/
inductive Element : Text → List UInt8 → Prop where
  | raw {p : CodePoint} {bytes : List UInt8} (hp : p.isIn ['"', '\\', '\n'] = false)
      (hbytes : Utf8.encodePoint p = some bytes) : Element [p] bytes
  | escape {t : Text} {bytes : List UInt8} (h : Escape t bytes) : Element (.scalar '\\' :: t) bytes

/-- A sequence of elements, and the bytes that they spell one after the other. -/
inductive Spells : Text → List UInt8 → Prop where
  | nil : Spells [] []
  | cons {t u : Text} {bytes more : List UInt8} (h : Element t bytes) (hu : Spells u more) :
      Spells (t ++ u) (bytes ++ more)

/-- A text between double quotes. -/
def Text.inQuotes (t : Text) : Text :=
  .scalar '"' :: (t ++ [.scalar '"'])

namespace Literal

/-- The bytes that a value spells as a numeric escape of some form. -/
def NumericForm.bytes (form : NumericForm) (n : Nat) : List UInt8 :=
  if form.isByte then [UInt8.ofNat n] else Utf8.octets (Char.ofNat n)

variable {opening c : Cursor} {here : Location} {p : CodePoint} {t rest : Text}
  {bytes : List UInt8} {form : NumericForm} {n : Nat}

/-! ## Single escapes -/

/-- The letters are read as the characters of their bytes. -/
theorem simpleEscape_of_mem {letter : Char} {b : UInt8} (h : (letter, b) ∈ escapeLetters) :
    ∃ ch, simpleEscape (.scalar letter) = some ch ∧ Utf8.octets ch = [b] := by
  have hletters : ∀ e ∈ escapeLetters,
      (simpleEscape (.scalar e.1)).map Utf8.octets = some [e.2] := by
    decide +kernel
  exact Option.map_eq_some_iff.1 (hletters _ h)

/-- Only the letters are read as escapes of their own. -/
theorem mem_of_simpleEscape {ch : Char} (h : simpleEscape p = some ch) :
    ∃ letter b, p = .scalar letter ∧ (letter, b) ∈ escapeLetters := by
  obtain ⟨⟨letter, c⟩, hmem, hfound⟩ := List.exists_of_findSome?_eq_some h
  have hp : p = .scalar letter := by
    by_contra hp
    simp [CodePoint.is, hp] at hfound
  -- Both tables have the same letters.
  have hletter : letter ∈ escapeLetters.map Prod.fst := List.mem_map_of_mem (f := Prod.fst) hmem
  obtain ⟨⟨_, b⟩, hb, rfl⟩ := List.mem_map.1 hletter
  exact ⟨_, b, hp, hb⟩

/-- The letters in front of the digits of a numeric escape. -/
theorem ofLetter_cases (h : NumericForm.ofLetter p = some form) :
    p = .scalar 'x' ∧ form = ⟨2, 16, true⟩ ∨ p = .scalar 'u' ∧ form = ⟨4, 16, false⟩ ∨
      p = .scalar 'U' ∧ form = ⟨8, 16, false⟩ := by
  unfold NumericForm.ofLetter at h
  split at h
  · next hx => exact Or.inl ⟨beq_iff_eq.1 hx, (Option.some.inj h).symm⟩
  · split at h
    · next hu => exact Or.inr (Or.inl ⟨beq_iff_eq.1 hu, (Option.some.inj h).symm⟩)
    · split at h
      · next hU => exact Or.inr (Or.inr ⟨beq_iff_eq.1 hU, (Option.some.inj h).symm⟩)
      · cases h

/-! ## Numeric escapes -/

theorem admits_iff : form.admits n ↔ n ≤ form.limit ∧ ¬ (0xD800 ≤ n ∧ n ≤ 0xDFFF) := by
  simp only [NumericForm.admits, Bool.and_eq_true, Bool.not_eq_true', Bool.and_eq_false_iff,
    decide_eq_true_eq, decide_eq_false_iff_not]
  omega

theorem encodePoint_codePoint (h : form.admits n) :
    Utf8.encodePoint (form.codePoint n) = some (form.bytes n) := by
  obtain ⟨digits, base, isByte⟩ := form
  cases isByte with
  | false => rfl
  | true =>
    have hbytes : ∀ k : Fin 256,
        Utf8.encodePoint ((⟨0, 0, true⟩ : NumericForm).codePoint k) = some [UInt8.ofNat k] := by
      decide +kernel
    have hn : n ≤ 0xFF := (admits_iff.1 h).1
    exact hbytes ⟨n, by omega⟩

/-- A numeric escape with all of its digits is read as the code point of its bytes. -/
theorem read_numericEscape {ds : Text} (h : Digits form.base ds n)
    (hlength : ds.length = form.digits) (hadmits : form.admits n) :
    numericEscape form opening ⟨here, ds ++ rest⟩ =
      ⟨[form.codePoint n], [], ⟨here.past ds, rest⟩⟩ := by
  have hvalue := h.ofDigits_filterMap
  have hread : numericEscape form opening ⟨here, ds ++ rest⟩ = _ :=
    numericEscape_of_digits hlength h.isSome_digit? (by rwa [hvalue])
  rwa [hvalue] at hread

/-- Digits of which none is missing stand in front. -/
theorem exists_digits {base count value : Nat} (h : (escapeDigits base count value c).missing = 0) :
    ∃ ds rest, c.rest = ds ++ rest ∧ ds.length = count ∧ ∀ p ∈ ds, (p.digit? base).isSome := by
  fun_induction escapeDigits base count value c with
  | case1 value c => exact ⟨[], c.rest, rfl, rfl, List.forall_mem_nil _⟩
  | case2 value c missing d hd ih =>
    obtain ⟨ds, rest, hrest, rfl, hds⟩ := ih h
    obtain ⟨p, hpeek, hp⟩ := Option.bind_eq_some_iff.1 hd
    rcases c with ⟨here, _ | ⟨q, tail⟩⟩
    · cases hpeek
    · cases hpeek
      exact ⟨p :: ds, rest, congrArg (p :: ·) hrest, rfl,
        List.forall_mem_cons.2 ⟨by simp [hp], hds⟩⟩
  | case3 => cases h

/-- A numeric escape without a report has all of its digits, and they stand for something. -/
theorem exists_numericEscape (h : (numericEscape form opening c).reports = []) :
    ∃ ds rest n, c.rest = ds ++ rest ∧ Digits form.base ds n ∧ ds.length = form.digits ∧
      form.admits n := by
  obtain ⟨hshort, houtside⟩ := List.append_eq_nil_iff.1 h
  have hmissing : (escapeDigits form.base form.digits 0 c).missing = 0 := by
    by_contra hmissing
    rw [if_neg hmissing] at hshort
    cases hshort
  have hadmits : form.admits (escapeDigits form.base form.digits 0 c).value := by
    by_contra hadmits
    rw [if_neg hadmits] at houtside
    cases houtside
  obtain ⟨ds, rest, hrest, hlength, hds⟩ := exists_digits hmissing
  have hdigits := Digits.of_forall hds
  refine ⟨ds, rest, _, hrest, hdigits, hlength, ?_⟩
  obtain ⟨here, u⟩ := c
  obtain rfl : u = ds ++ rest := hrest
  rw [← hlength, escapeDigits_of_digits 0 hds] at hadmits
  exact hadmits

/-! ## Escapes -/

theorem escape_ofLetter {letter : Char} (h : NumericForm.ofLetter (.scalar letter) = some form) :
    escape opening ⟨here, .scalar letter :: rest⟩ =
      numericEscape form opening ⟨here.next (.scalar letter), rest⟩ := by
  have hsimple : simpleEscape (.scalar letter) = none := by
    rcases ofLetter_cases h with ⟨hletter, -⟩ | ⟨hletter, -⟩ | ⟨hletter, -⟩ <;>
      rw [hletter] <;> decide
  simp [escape, Cursor.peek, hsimple, h, Cursor.next]

theorem escape_octal (h : (p.digit? 8).isSome) :
    escape opening ⟨here, p :: rest⟩ = numericEscape .octal opening ⟨here, p :: rest⟩ := by
  have hsimple : simpleEscape p = none := by
    rw [← Option.not_isSome_iff_eq_none]
    intro hsome
    obtain ⟨ch, hch⟩ := Option.isSome_iff_exists.1 hsome
    obtain ⟨letter, b, rfl, hmem⟩ := mem_of_simpleEscape hch
    have hletters : ∀ e ∈ escapeLetters, (CodePoint.digit? 8 (.scalar e.1)).isSome = false := by
      decide
    rw [hletters _ hmem] at h
    cases h
  have hform : NumericForm.ofLetter p = none := by
    rw [← Option.not_isSome_iff_eq_none]
    intro hsome
    obtain ⟨form, hform⟩ := Option.isSome_iff_exists.1 hsome
    rcases ofLetter_cases hform with ⟨rfl, -⟩ | ⟨rfl, -⟩ | ⟨rfl, -⟩ <;> cases h
  simp [escape, Cursor.peek, hsimple, hform, h]

/-- An escape is read as one code point, which has the bytes that the escape spells. -/
theorem Escape.read (h : Escape t bytes) :
    ∃ p, Utf8.encodePoint p = some bytes ∧ ∀ opening here rest,
      escape opening ⟨here, t ++ rest⟩ = ⟨[p], [], ⟨here.past t, rest⟩⟩ := by
  cases h with
  | letter h =>
    obtain ⟨ch, hread, hbytes⟩ := simpleEscape_of_mem h
    exact ⟨.scalar ch, by rw [Utf8.encodePoint, hbytes], fun _ _ _ => escape_letter hread⟩
  | @octal _ n h hlength hn =>
    have hadmits : NumericForm.octal.admits n := admits_iff.2 ⟨hn, by omega⟩
    refine ⟨_, encodePoint_codePoint hadmits, fun opening here rest => ?_⟩
    obtain ⟨p, ds, rfl⟩ := List.exists_cons_of_length_pos (l := t) (by omega)
    have hp := h.isSome_digit? p List.mem_cons_self
    rw [List.cons_append, escape_octal hp, ← List.cons_append]
    exact read_numericEscape h hlength hadmits
  | @hexadecimal ds n h hlength =>
    have hlt := h.lt_pow
    rw [hlength] at hlt
    have hn : n ≤ 255 := Nat.le_of_lt_succ hlt
    have hadmits : (⟨2, 16, true⟩ : NumericForm).admits n := admits_iff.2 ⟨hn, by omega⟩
    have hform : NumericForm.ofLetter (.scalar 'x') = some ⟨2, 16, true⟩ := rfl
    refine ⟨_, encodePoint_codePoint hadmits, fun opening here rest => ?_⟩
    rw [List.cons_append, escape_ofLetter hform]
    exact read_numericEscape h hlength hadmits
  | @unicode letter ds n h hlength hn hscalar =>
    have hadmits : (⟨ds.length, 16, false⟩ : NumericForm).admits n := admits_iff.2 ⟨hn, hscalar⟩
    have hform : NumericForm.ofLetter (.scalar letter) = some ⟨ds.length, 16, false⟩ := by
      simp only [List.mem_cons, Prod.mk.injEq, List.not_mem_nil, or_false] at hlength
      rcases hlength with ⟨rfl, hlength⟩ | ⟨rfl, hlength⟩ <;> rw [hlength] <;> rfl
    refine ⟨_, encodePoint_codePoint hadmits, fun opening here rest => ?_⟩
    rw [List.cons_append, escape_ofLetter hform]
    exact read_numericEscape h rfl hadmits

/-- An escape without a report is one of those that spell some bytes. -/
theorem exists_escape (h : (escape opening c).reports = []) :
    ∃ t bytes rest, Escape t bytes ∧ c.rest = t ++ rest := by
  rcases c with ⟨here, _ | ⟨p, tail⟩⟩
  · cases h
  cases hsimple : simpleEscape p with
  | some ch =>
    obtain ⟨letter, b, rfl, hmem⟩ := mem_of_simpleEscape hsimple
    exact ⟨_, _, tail, .letter hmem, rfl⟩
  | none =>
    cases hform : NumericForm.ofLetter p with
    | some form =>
      simp only [escape, Cursor.peek, List.head?_cons, hsimple, hform] at h
      obtain ⟨ds, rest, n, hrest, hdigits, hlength, hadmits⟩ := exists_numericEscape h
      obtain ⟨hn, hscalar⟩ := admits_iff.1 hadmits
      obtain rfl : tail = ds ++ rest := hrest
      rcases ofLetter_cases hform with ⟨rfl, rfl⟩ | ⟨rfl, rfl⟩ | ⟨rfl, rfl⟩
      · exact ⟨_, _, rest, .hexadecimal hdigits hlength, rfl⟩
      · exact ⟨_, _, rest, .unicode hdigits (by rw [hlength]; decide) hn hscalar, rfl⟩
      · exact ⟨_, _, rest, .unicode hdigits (by rw [hlength]; decide) hn hscalar, rfl⟩
    | none =>
      simp only [escape, Cursor.peek, List.head?_cons, hsimple, hform] at h
      split at h
      · obtain ⟨ds, rest, n, hrest, hdigits, hlength, hadmits⟩ := exists_numericEscape h
        exact ⟨_, _, rest, .octal hdigits hlength (admits_iff.1 hadmits).1, hrest⟩
      · split at h <;> cases h

/-! ## Strings -/

/-- An element is read as one code point of the string, which has the bytes that it spells. -/
theorem Element.read (h : Element t bytes) :
    ∃ p, Utf8.encodePoint p = some bytes ∧ ∀ opening here rest,
      stringBody opening ⟨here, t ++ rest⟩ =
        Reading.cons p (stringBody opening ⟨here.past t, rest⟩) := by
  cases h with
  | @raw p _ hp hbytes =>
    have hne (x : Char) (hx : x ∈ ['"', '\\', '\n']) : p ≠ .scalar x := by
      rintro rfl
      exact Bool.false_ne_true (hp.symm.trans (List.any_eq_true.2 ⟨x, hx, beq_self_eq_true _⟩))
    exact ⟨p, hbytes, fun opening here rest =>
      stringBody_raw (hne _ (by decide)) (hne _ (by decide)) (hne _ (by decide))⟩
  | escape h =>
    obtain ⟨p, hbytes, hread⟩ := Escape.read h
    exact ⟨p, hbytes, fun opening here rest => stringBody_escape (hread _ _ rest)⟩

/-- A sequence of elements in front of a quote is read as a string of the bytes that it spells. -/
theorem Spells.read (h : Spells t bytes) :
    ∃ value, Utf8.encode value = some bytes ∧ ∀ opening here rest,
      stringBody opening ⟨here, t ++ .scalar '"' :: rest⟩ =
        ⟨value, [], ⟨(here.past t).next (.scalar '"'), rest⟩⟩ := by
  induction h with
  | nil =>
    refine ⟨[], rfl, fun opening here rest => ?_⟩
    rw [List.nil_append, stringBody]
    simp [CodePoint.is]
  | cons h _ ih =>
    obtain ⟨p, hp, hfirst⟩ := Element.read h
    obtain ⟨value, hvalue, hothers⟩ := ih
    refine ⟨p :: value, by simp [Utf8.encode, hp, hvalue], fun opening here rest => ?_⟩
    rw [List.append_assoc, hfirst, hothers, Location.past_append]
    rfl

/-- What is read as a string without a report is a sequence of elements and a quote, if its value
has a form on the wire. -/
theorem exists_spells (hvalue : (stringBody opening c).value.isEncodable)
    (h : (stringBody opening c).reports = []) :
    ∃ t bytes rest, Spells t bytes ∧ c.rest = t ++ .scalar '"' :: rest := by
  fun_induction stringBody opening c with
  | case1 here => cases h
  | case2 here p rest => cases h
  | case3 here p rest _ _ hquote =>
    exact ⟨[], [], rest, .nil, congrArg (· :: rest) (beq_iff_eq.1 hquote)⟩
  | case4 here p rest c after _ _ hslash first others ih =>
    obtain ⟨hfirst, hothers⟩ := List.append_eq_nil_iff.1 h
    obtain ⟨t, bytes, tail, hescape, htail⟩ := exists_escape hfirst
    obtain ⟨q, -, hread⟩ := Escape.read hescape
    obtain rfl : rest = t ++ tail := htail
    have hafter : first.after = ⟨(here.next p).past t, tail⟩ :=
      congrArg Reading.after (hread c (here.next p) tail)
    rw [Text.isEncodable_append, Bool.and_eq_true] at hvalue
    obtain ⟨u, more, rest, hu, hrest⟩ := ih hvalue.2 hothers
    obtain rfl : tail = u ++ .scalar '"' :: rest := by rw [← hrest, hafter]
    obtain rfl : p = .scalar '\\' := beq_iff_eq.1 hslash
    exact ⟨_, _, rest, .cons (.escape hescape) hu, by simp⟩
  | case5 here p rest after hline hquote hslash others ih =>
    obtain ⟨hp, hothers⟩ := Text.isEncodable_cons.1 hvalue
    obtain ⟨u, more, tail, hu, htail⟩ := ih hothers h
    obtain ⟨bytes, hbytes⟩ := Option.isSome_iff_exists.1 (Text.isEncodable_singleton p ▸ hp)
    have hraw : p.isIn ['"', '\\', '\n'] = false := by
      simp [CodePoint.isIn, hline, hquote, hslash]
    exact ⟨_, _, tail, .cons (.raw hraw hbytes) hu, congrArg (p :: ·) htail⟩

end Literal

/-! ## Scans -/

open Literal

variable {bytes : List UInt8} {t : Text}

theorem tokenKind_quote (opening : Cursor) :
    tokenKind opening (.scalar '"') =
      ⟨.string (Literal.string opening).value, (Literal.string opening).reports,
        (Literal.string opening).after⟩ := rfl

/-- A string literal is read up to its end, as the text that its bytes are decoded to. -/
theorem string_inQuotes (h : Spells t bytes) (here : Location) (rest : Text) :
    Literal.string ⟨here, .scalar '"' :: (t ++ .scalar '"' :: rest)⟩ =
      ⟨Utf8.decode bytes, [], ⟨here.past t.inQuotes, rest⟩⟩ := by
  obtain ⟨v, hv, hread⟩ := Spells.read h
  have hcanonical : v.canonical = some (Utf8.decode bytes) := by rw [Text.canonical, hv]; rfl
  rw [Literal.string, Cursor.next, hread, hcanonical]
  simp [Text.inQuotes, Location.past_append]

/-- The token that a string literal starts in a text. -/
theorem tokenAt_inQuotes (h : Spells t bytes) (here : Location) (rest : Text) :
    let opening : Cursor := ⟨here, .scalar '"' :: (t ++ .scalar '"' :: rest)⟩
    tokenKind opening (.scalar '"') =
        ⟨.string (Utf8.decode bytes), [], ⟨here.past t.inQuotes, rest⟩⟩ ∧
      tokenAt opening (.scalar '"') =
        ⟨.string (Utf8.decode bytes), t.inQuotes, ⟨here, here.past t.inQuotes⟩⟩ := by
  have hkind := tokenKind_quote ⟨here, .scalar '"' :: (t ++ .scalar '"' :: rest)⟩
  rw [string_inQuotes h] at hkind
  have hlexeme := Cursor.textTo_past here t.inQuotes rest
  have hrest : t.inQuotes ++ rest = .scalar '"' :: (t ++ .scalar '"' :: rest) := by
    simp [Text.inQuotes]
  rw [hrest] at hlexeme
  exact ⟨hkind, by rw [tokenAt, hkind, hlexeme]; rfl⟩

/-- A string literal that spells some bytes is scanned as one token. -/
theorem scan_inQuotes (h : Spells t bytes) :
    ∃ value, Utf8.encode value = some bytes ∧
      scan t.inQuotes = ⟨[⟨.string value, t.inQuotes, ⟨.first, Location.first.past t.inQuotes⟩⟩,
        .atEnd (Location.first.past t.inQuotes)], []⟩ := by
  obtain ⟨hkind, htoken⟩ := tokenAt_inQuotes h .first []
  have hskip : (Cursor.ofText t.inQuotes).skip isSpacing =
      ⟨.first, .scalar '"' :: (t ++ [.scalar '"'])⟩ := rfl
  have hscan := scanFrom_of_skip_cons hskip
  have hend : (Cursor.skip isSpacing ⟨Location.first.past t.inQuotes, []⟩) = _ := rfl
  rw [htoken, hkind, scanFrom_of_skip_nil hend] at hscan
  exact ⟨Utf8.decode bytes, Utf8.encode_decode bytes, hscan⟩

/-- Only a quote opens a string. -/
theorem eq_quote_of_string {opening : Cursor} {p : CodePoint} {value : Text}
    (h : (tokenKind opening p).value = .string value) : p = .scalar '"' := by
  revert h
  apply tokenKind_cases p (motive := fun read =>
    (read opening).value = .string value → p = .scalar '"')
  case string => exact fun hp _ => beq_iff_eq.1 hp
  case name | integer => rintro _ ⟨⟩
  case segment =>
    intro kind hkind h
    rcases hkind.kind_eq with rfl | rfl <;> cases h
  case double =>
    intro mark alone _ h
    rcases doubled_cases opening p mark alone with hvalue | hvalue <;> cases hvalue.symm.trans h
  case single =>
    rintro kind hkind rfl
    rcases singleMark_cases hkind with hvalue | ⟨mark, hvalue⟩ <;> cases hvalue
  case pair =>
    intro alone withEquals _ h
    dsimp only at h
    split at h <;> cases h
  case invalid => rintro ⟨⟩

/-- A string token of a scan without reports is a string literal that spells its bytes. -/
theorem spells_of_mem_scan {source : Text} (hsource : source.isEncodable)
    (hclean : (scan source).reports = []) {token : Token} (htoken : token ∈ (scan source).tokens)
    {value : Text} (hvalue : token.kind = .string value) :
    ∃ t bytes, Spells t bytes ∧ token.lexeme = t.inQuotes ∧ Utf8.encode value = some bytes := by
  rcases mem_tokens_scanFrom htoken with ⟨here, -, rfl⟩ | ⟨here, p, rest, hreach, rfl, hreports⟩
  · cases hvalue
  obtain rfl : p = .scalar '"' := eq_quote_of_string hvalue
  rw [show scanFrom _ = scan source from rfl, hclean, List.subset_nil] at hreports
  have hrest := (Text.isEncodable_cons.1 (hreach.isEncodable hsource)).2
  obtain ⟨t, bytes, tail, hspells, rfl⟩ :=
    exists_spells (c := ⟨_, rest⟩) (isEncodable_stringBody _ _ hrest) hreports
  rw [(tokenAt_inQuotes hspells here tail).2] at hvalue ⊢
  cases hvalue
  exact ⟨t, bytes, hspells, rfl, Utf8.encode_decode bytes⟩

/-- A string literal means exactly the bytes that its elements spell.  Every sequence of elements
between quotes is scanned without a report as one string token and the end of the input, and the
value of the token is sent as the bytes of the elements.  In a source that comes as bytes and is
scanned without a report, every string token is such a sequence and means its bytes. -/
theorem strings_mean_what_they_spell :
    (∀ t bytes, Spells t bytes → ∃ value, Utf8.encode value = some bytes ∧
      scan t.inQuotes = ⟨[⟨.string value, t.inQuotes, ⟨.first, Location.first.past t.inQuotes⟩⟩,
        .atEnd (Location.first.past t.inQuotes)], []⟩) ∧
    ∀ input, (scan (Utf8.decode input)).reports = [] →
      ∀ token ∈ (scan (Utf8.decode input)).tokens, ∀ value, token.kind = .string value →
        ∃ t bytes, Spells t bytes ∧ token.lexeme = t.inQuotes ∧
          Utf8.encode value = some bytes := by
  refine ⟨fun t bytes h => scan_inQuotes h, fun input hclean token htoken value hvalue => ?_⟩
  exact spells_of_mem_scan (Text.isDecoded_decode input).isEncodable hclean htoken hvalue

/-- Two bytes that are written one by one are sent as one character. -/
theorem string_of_two_bytes :
    (∃ value, Utf8.encode value = some [0xC3, 0xA9] ∧
      scan (Text.inQuotes "\\xC3\\251") =
        ⟨[⟨.string value, Text.inQuotes "\\xC3\\251", ⟨⟨1, 1, 0⟩, ⟨1, 11, 10⟩⟩⟩,
          .atEnd ⟨1, 11, 10⟩], []⟩) ∧
      ∃ t bytes, Spells t bytes ∧ Text.inQuotes "\\xC3\\251" = t.inQuotes ∧
        Utf8.encode "é" = some bytes := by
  have hhex : Digits 16 ("C3" : Text) (ofDigits 16 [0xC, 0x3]) := .of_forall (by decide)
  have hoctal : Digits 8 ("251" : Text) (ofDigits 8 [2, 5, 1]) := .of_forall (by decide)
  have hspells : Spells "\\xC3\\251" [0xC3, 0xA9] :=
    .cons (.escape (.hexadecimal hhex rfl)) (.cons (.escape (.octal hoctal rfl (by decide))) .nil)
  have hdecode : Utf8.decode [34, 92, 120, 67, 51, 92, 50, 53, 49, 34] =
      Text.inQuotes "\\xC3\\251" := by
    decide +kernel
  obtain ⟨hspelled, hmeant⟩ := strings_mean_what_they_spell
  refine ⟨hspelled _ _ hspells, ?_⟩
  exact hmeant [34, 92, 120, 67, 51, 92, 50, 53, 49, 34] (by decide +kernel)
    ⟨.string "é", Text.inQuotes "\\xC3\\251", ⟨⟨1, 1, 0⟩, ⟨1, 11, 10⟩⟩⟩ (by decide +kernel) "é" rfl

end WireScript
