import WireScript.Proofs.Token.Along

/-!
# Scanning a part of a text

A text is scanned in the same way wherever it stands, up to the end of its last line: text in front
of it only moves the locations, and text behind the end of the line is not looked at.

* `Cursor.within` puts text in front of and behind the text at a cursor, and `Cursor.Sealed` says
  that the text behind is out of reach: there is none, or the end of a line comes first.
* For each reader one lemma says that it commutes with `within`, up to `tokenKind_within`.
* `scanFrom_within` says that the tokens of the part come first, with their locations moved, and
  then those of the text behind.  `scan_append` is what this comes to for a text that ends a line
  and another one behind it.
-/

namespace WireScript

namespace Cursor

variable {c d : Cursor} {front back : Text} {q : CodePoint → Bool}

/-- The same place in a longer text, with text in front of and behind the one at hand. -/
def within (front back : Text) (c : Cursor) : Cursor :=
  ⟨c.here.behind front, c.rest ++ back⟩

/-- The text behind comes after the end of a line, if there is any. -/
def Sealed (back : Text) (c : Cursor) : Prop := back = [] ∨ c.rest.EndsLine

theorem Sealed.along (h : c.Sealed back) (hcd : c.Along d) : d.Sealed back :=
  h.imp_right hcd.endsLine

theorem Sealed.eq_nil (h : c.Sealed back) (hc : c.rest = []) : back = [] := by
  refine h.resolve_right fun hends => ?_
  have hmem := hends.mem
  rw [hc] at hmem
  cases hmem

theorem within_nil (here : Location) (front back : Text) :
    within front back ⟨here, []⟩ = ⟨here.behind front, back⟩ := rfl

theorem within_cons (here : Location) (p : CodePoint) (rest front back : Text) :
    within front back ⟨here, p :: rest⟩ = ⟨here.behind front, p :: (rest ++ back)⟩ := rfl

theorem within_mk (here : Location) (rest front back : Text) :
    within front back ⟨here, rest⟩ = ⟨here.behind front, rest ++ back⟩ := rfl

theorem peek_within (h : c.Sealed back) (front : Text) : (c.within front back).peek = c.peek := by
  obtain ⟨here, rest⟩ := c
  cases rest with
  | nil =>
    obtain rfl := h.eq_nil rfl
    rfl
  | cons p rest => rfl

theorem next_within (h : c.Sealed back) (front : Text) :
    (c.within front back).next = c.next.within front back := by
  obtain ⟨here, rest⟩ := c
  cases rest with
  | nil =>
    obtain rfl := h.eq_nil rfl
    rfl
  | cons p rest => exact congrArg (Cursor.mk · _) (Location.next_behind here p)

/-- What is read stops in front of the end of the line. -/
theorem takeWhile_append_of_sealed (h : c.Sealed back) (hq : q (.scalar '\n') = false) :
    (c.rest ++ back).takeWhile q = c.rest.takeWhile q ∧
      (c.rest ++ back).dropWhile q = c.rest.dropWhile q ++ back := by
  rcases h with rfl | ⟨t, ht⟩
  · simp
  · obtain ⟨htake, hdrop⟩ := takeWhile_append_cons hq t back
    obtain ⟨htake', hdrop'⟩ := takeWhile_append_cons hq t []
    rw [ht, List.append_assoc, List.singleton_append, htake, htake', hdrop, hdrop',
      List.append_assoc, List.singleton_append]
    exact ⟨rfl, rfl⟩

theorem read_within (h : c.Sealed back) (hq : q (.scalar '\n') = false) (front : Text) :
    (c.within front back).read q = c.read q :=
  (takeWhile_append_of_sealed h hq).1

theorem skip_within (h : c.Sealed back) (hq : q (.scalar '\n') = false) (front : Text) :
    (c.within front back).skip q = (c.skip q).within front back := by
  obtain ⟨htake, hdrop⟩ := takeWhile_append_of_sealed h hq
  simp only [skip, read, within, htake, hdrop, Location.past_behind]

theorem textTo_within (h : c.Reaches d) (front back : Text) :
    (c.within front back).textTo (d.within front back) = c.textTo d := by
  obtain ⟨t, hrest, hhere⟩ := h
  have hoffset := Location.offset_past c.here t
  rw [← hhere] at hoffset
  have hwidth : d.here.offset + front.length - (c.here.offset + front.length) =
      d.here.offset - c.here.offset := Nat.add_sub_add_right _ _ _
  show (c.rest ++ back).take (_ - _) = _
  rw [show (d.within front back).here.offset - (c.within front back).here.offset = _ from hwidth,
    List.take_append_of_le_length]
  · rfl
  · rw [hrest, List.length_append]
    omega

theorem spanTo_within (c d : Cursor) (front back : Text) :
    (c.within front back).spanTo (d.within front back) = (c.spanTo d).behind front := rfl

end Cursor

/-- What a reader finds in a longer text. -/
def Reading.within {α : Type} (front back : Text) (r : Reading α) : Reading α :=
  ⟨r.value, r.reports.map (Report.behind front), r.after.within front back⟩

namespace Literal

open Cursor

variable {opening c : Cursor} {front back : Text}

/-! ## Integers -/

theorem integerBody_within (h : opening.Sealed back) (front : Text) :
    integerBody (opening.within front back) =
      ((integerBody opening).1, (integerBody opening).2.within front back) := by
  unfold integerBody
  rw [peek_within h]
  split
  · next hzero =>
    have hnext : opening.next.Sealed back := h.along (along_next fun hline => by
      rw [hline] at hzero
      revert hzero
      decide)
    rw [next_within h, peek_within hnext, next_within hnext]
    split <;> rfl
  · rfl

theorem integer_within (h : opening.Sealed back) (front : Text) :
    integer (opening.within front back) = (integer opening).within front back := by
  have hline := digit?_eq_none (base_integerBody_le opening) (p := .scalar '\n') rfl
  have hq : (CodePoint.digit? (integerBody opening).1 (.scalar '\n')).isSome = false := by
    rw [hline]
    rfl
  have hbody := h.along (along_integerBody opening)
  have hafter := (along_integer opening).reaches
  rw [after_integer] at hafter
  unfold integer
  rw [integerBody_within h]
  dsimp only
  rw [read_within hbody hq, skip_within hbody hq, textTo_within hafter, spanTo_within]
  split <;> rfl

/-! ## Strings -/

/-- The digits of an escape in a longer text. -/
def EscapeDigits.within (front back : Text) (r : EscapeDigits) : EscapeDigits :=
  { r with after := r.after.within front back }

theorem escapeDigits_within {base : Nat} (hbase : base ≤ 16) (count value : Nat)
    (h : c.Sealed back) (front : Text) :
    escapeDigits base count value (c.within front back) =
      (escapeDigits base count value c).within front back := by
  induction count generalizing value c with
  | zero => rfl
  | succ count ih =>
    rw [escapeDigits, escapeDigits, peek_within h]
    split
    · next d hd =>
      have hnext : c.Along c.next := along_next fun hline => by
        rw [hline, Option.bind_some, digit?_eq_none hbase rfl] at hd
        cases hd
      rw [next_within h, ih _ (h.along hnext)]
    · rfl

theorem skipEscape_within (count : Nat) (h : c.Sealed back) (front : Text) :
    skipEscape count (c.within front back) = (skipEscape count c).within front back := by
  induction count generalizing c with
  | zero => rfl
  | succ count ih =>
    rw [skipEscape, skipEscape, peek_within h]
    split
    · next p hpeek =>
      split
      · rfl
      · next hp =>
        have hnext : c.Along c.next := along_next fun hline => by
          rw [hline] at hpeek
          cases hpeek
          exact hp rfl
        rw [next_within h, ih (h.along hnext)]
    · rfl

theorem numericEscape_within {form : NumericForm} (hform : form.base ≤ 16) (opening : Cursor)
    (h : c.Sealed back) (front : Text) :
    numericEscape form (opening.within front back) (c.within front back) =
      (numericEscape form opening c).within front back := by
  have hdigits := h.along (along_escapeDigits hform form.digits 0 c)
  simp only [numericEscape, escapeDigits_within hform _ _ h, EscapeDigits.within,
    skipEscape_within _ hdigits, Reading.within, List.map_append, spanTo_within]
  split <;> split <;> rfl

theorem escape_within (opening : Cursor) (h : c.Sealed back) (front : Text) :
    escape (opening.within front back) (c.within front back) =
      (escape opening c).within front back := by
  unfold escape
  rw [peek_within h, next_within h]
  split
  · rfl
  · next p hpeek =>
    have hnext (hp : p ≠ .scalar '\n') : c.next.Sealed back :=
      h.along (along_next fun hline => hp (Option.some.inj (hpeek.symm.trans hline)))
    split
    · rfl
    · next hform =>
      refine numericEscape_within (base_le_of_ofLetter hform) opening (hnext fun heq => ?_) front
      rw [heq] at hform
      cases hform
    · split
      · exact numericEscape_within (by decide) opening h front
      · split <;> rfl

theorem stringBody_within (opening : Cursor) (h : c.Sealed back) (front : Text) :
    stringBody (opening.within front back) (c.within front back) =
      (stringBody opening c).within front back := by
  fun_induction stringBody opening c with
  | case1 here =>
    obtain rfl := h.eq_nil rfl
    rw [within_nil, stringBody]
    rfl
  | case2 here p rest c hline =>
    rw [within_cons, stringBody, if_pos hline]
    rfl
  | case3 here p rest after hline hquote =>
    rw [within_cons, stringBody, if_neg hline, if_pos hquote, Location.next_behind]
    rfl
  | case4 here p rest c after hline hquote hescape first others ih =>
    have hafter := h.along (along_cons here rest (CodePoint.ne_scalar hline))
    have hfirst : escape ⟨here.behind front, p :: (rest ++ back)⟩ (after.within front back) =
        first.within front back := escape_within c hafter front
    have hothers := ih (hafter.along (along_escape c after))
    rw [within_cons, stringBody, if_neg hline, if_neg hquote, if_pos hescape,
      Location.next_behind, ← within_mk, hfirst]
    dsimp only [Reading.within]
    rw [hothers]
    simp only [Reading.within, List.map_append, others]
  | case5 here p rest after hline hquote hescape others ih =>
    have hothers := ih (h.along (along_cons here rest (CodePoint.ne_scalar hline)))
    rw [within_cons, stringBody, if_neg hline, if_neg hquote, if_neg hescape,
      Location.next_behind, ← within_mk, hothers]
    rfl

theorem string_within (h : opening.Sealed back) (hopening : opening.peek ≠ some (.scalar '\n'))
    (front : Text) :
    string (opening.within front back) = (string opening).within front back := by
  rw [string, next_within h, stringBody_within opening (h.along (along_next hopening))]
  rfl

/-! ## Segments of templates -/

theorem segment_within (h : opening.Sealed back) (hopening : opening.peek ≠ some (.scalar '\n'))
    (front : Text) :
    segment (opening.within front back) = (segment opening).within front back := by
  let inSegment (p : CodePoint) : Bool := !p.isIn ['\n', '{']
  have hq : inSegment (.scalar '\n') = false := rfl
  have hbody := h.along (along_next hopening)
  have hstop := hbody.along (along_skip hq opening.next)
  unfold segment
  rw [next_within h]
  dsimp only
  rw [read_within hbody hq, skip_within hbody hq, peek_within hstop]
  split
  · rw [next_within hstop]
    rfl
  · rfl

end Literal

/-! ## Tokens -/

section Tokens

open Cursor

variable {opening : Cursor} {front back rest : Text} {here : Location} {p : CodePoint}

theorem doubled_within (h : opening.Sealed back) (hpeek : opening.peek = some p)
    (hp : p ≠ .scalar '\n') (mark : Mark) (alone : LexicalError) (front : Text) :
    doubled (opening.within front back) p mark alone =
      (doubled opening p mark alone).within front back := by
  have hnext := h.along (along_next (by simpa [hpeek] using hp))
  unfold doubled
  dsimp only
  rw [next_within h, peek_within hnext]
  split
  · rw [next_within hnext]
    rfl
  · rfl

/-- A token is the same in a longer text. -/
theorem tokenKind_within (h : Sealed back ⟨here, p :: rest⟩) (front : Text) :
    tokenKind (within front back ⟨here, p :: rest⟩) p =
      (tokenKind ⟨here, p :: rest⟩ p).within front back := by
  by_cases hp : p = .scalar '\n'
  · rw [hp, tokenKind_lineFeed, tokenKind_lineFeed]
    exact congrArg (Reading.mk _ _ <| Cursor.mk · _) (Location.next_behind here _)
  have hpeek : Cursor.peek ⟨here, p :: rest⟩ ≠ some (.scalar '\n') := by simpa [peek] using hp
  have hnext := h.along (along_next hpeek)
  apply tokenKind_cases p (motive := fun read =>
    read (within front back ⟨here, p :: rest⟩) = (read ⟨here, p :: rest⟩).within front back)
  all_goals dsimp only
  case name =>
    intro _
    have hname : (fun p : CodePoint => p.isLetter || p.isDigit) (.scalar '\n') = false := rfl
    rw [read_within h hname, skip_within h hname]
    rfl
  case integer =>
    intro _
    rw [Literal.integer_within h]
    rfl
  case string =>
    intro _
    rw [Literal.string_within h hpeek]
    rfl
  case segment =>
    intro kind _
    rw [Literal.segment_within h hpeek]
    rfl
  case double => exact fun mark alone _ => doubled_within h rfl hp mark alone front
  case single =>
    intro kind _
    rw [next_within h]
    rfl
  case pair =>
    intro alone withEquals _
    rw [next_within h, peek_within hnext, next_within hnext]
    split <;> rfl
  case invalid =>
    rw [next_within h]
    rfl

/-- No token that starts with a code point is the end of the input. -/
theorem value_tokenKind_ne_endOfInput (opening : Cursor) (p : CodePoint) :
    (tokenKind opening p).value ≠ .endOfInput := by
  apply tokenKind_cases p (motive := fun read => (read opening).value ≠ .endOfInput)
  case name | integer | string => exact fun _ => by simp
  case invalid => simp
  case segment =>
    intro kind hkind
    rcases hkind.kind_eq with rfl | rfl <;> simp
  case double =>
    intro mark alone _
    rcases doubled_cases opening p mark alone with h | h <;> simp [h]
  case single =>
    intro kind hkind
    rcases singleMark_cases hkind with rfl | ⟨mark, rfl⟩ <;> simp
  case pair =>
    intro alone withEquals _
    dsimp only
    split <;> simp

/-! ## Scans -/

/-- Where a token comes to be when a text is put in front. -/
def Token.behind (front : Text) (t : Token) : Token :=
  { t with span := t.span.behind front }

/-- The tokens of a scan without the end of the input. -/
def Scan.body (s : Scan) : List Token := s.tokens.takeWhile fun t => !t.isEnd

/-- A scan with its locations moved. -/
def Scan.behind (front : Text) (s : Scan) : Scan :=
  ⟨s.tokens.map (Token.behind front), s.reports.map (Report.behind front)⟩

theorem not_isEnd_of_mem_body {s : Scan} {t : Token} (h : t ∈ s.body) : t.isEnd = false := by
  simpa using List.mem_takeWhile_imp (p := fun t : Token => !t.isEnd) h

@[simp] theorem behind_nil_token (t : Token) : t.behind [] = t := rfl

@[simp] theorem behind_nil_report {ε : Type} (r : Report ε) : r.behind [] = r := rfl

variable {c d : Cursor}

theorem not_isEnd_tokenAt (opening : Cursor) (p : CodePoint) : (tokenAt opening p).isEnd = false :=
  beq_false_of_ne (value_tokenKind_ne_endOfInput opening p)

theorem body_of_skip_nil (h : c.skip isSpacing = ⟨here, []⟩) : (scanFrom c).body = [] := by
  rw [scanFrom_of_skip_nil h]
  rfl

theorem body_of_skip_cons (h : c.skip isSpacing = ⟨here, p :: rest⟩) :
    (scanFrom c).body =
      tokenAt ⟨here, p :: rest⟩ p :: (scanFrom (tokenKind ⟨here, p :: rest⟩ p).after).body := by
  rw [scanFrom_of_skip_cons h, Scan.body, List.takeWhile_cons_of_pos]
  · rfl
  · rw [not_isEnd_tokenAt]
    rfl

theorem Cursor.Reaches.past_rest (h : c.Reaches d) : c.here.past c.rest = d.here.past d.rest := by
  obtain ⟨t, hrest, hhere⟩ := h
  rw [hrest, hhere, Location.past_append]

/-- A scan ends with the end of the input, where the text ends. -/
theorem tokens_scanFrom (c : Cursor) :
    (scanFrom c).tokens = (scanFrom c).body ++ [.atEnd (c.here.past c.rest)] := by
  have hspaced := reaches_skip isSpacing c
  rw [hspaced.past_rest]
  rcases hskip : c.skip isSpacing with ⟨here, _ | ⟨p, rest⟩⟩
  · rw [body_of_skip_nil hskip, scanFrom_of_skip_nil hskip]
    rfl
  · have hfirst := reaches_tokenAt here p rest
    have hshorter := length_lt_of_skip_cons hskip
    have hothers := tokens_scanFrom (tokenKind ⟨here, p :: rest⟩ p).after
    rw [body_of_skip_cons hskip, scanFrom_of_skip_cons hskip, hfirst.past_rest]
    exact congrArg (tokenAt ⟨here, p :: rest⟩ p :: ·) hothers
termination_by c.rest.length

/-- The token that is read in a longer text is the same, but elsewhere. -/
theorem tokenAt_within (h : Sealed back ⟨here, p :: rest⟩) (front : Text) :
    tokenAt (within front back ⟨here, p :: rest⟩) p =
      (tokenAt ⟨here, p :: rest⟩ p).behind front := by
  have htext := textTo_within (reaches_tokenAt here p rest) front back
  simp only [tokenAt, tokenKind_within h, Reading.within, htext, spanTo_within, Token.behind]

/-- A part of a text is scanned as it is on its own, and then the text behind it. -/
theorem scanFrom_within (c : Cursor) (front back : Text)
    (h : back = [] ∨ c.rest = [] ∨ c.rest.EndsLine) :
    scanFrom (c.within front back) =
      ⟨(scanFrom c).body.map (Token.behind front) ++
          (scanFrom ⟨(c.here.past c.rest).behind front, back⟩).tokens,
        (scanFrom c).reports.map (Report.behind front) ++
          (scanFrom ⟨(c.here.past c.rest).behind front, back⟩).reports⟩ := by
  by_cases hrest : c.rest = []
  · obtain ⟨here, rest⟩ := c
    obtain rfl : rest = [] := hrest
    have hskip : Cursor.skip isSpacing ⟨here, []⟩ = ⟨here, []⟩ := rfl
    rw [body_of_skip_nil hskip, scanFrom_of_skip_nil hskip]
    rfl
  -- what is left behind a token is nothing, or it still ends the line
  have hsealed : c.Sealed back := h.imp_right fun h => h.resolve_left hrest
  have hspaced := hsealed.along (along_skip (q := isSpacing) rfl c)
  have hskipped := skip_within (q := isSpacing) hsealed rfl front
  have hreaches := reaches_skip isSpacing c
  rw [hreaches.past_rest]
  rcases hskip : c.skip isSpacing with ⟨here, _ | ⟨p, rest⟩⟩
  · rw [hskip] at hspaced hskipped
    obtain rfl := hspaced.eq_nil rfl
    have hend : Cursor.skip isSpacing ⟨here.behind front, []⟩ = ⟨here.behind front, []⟩ := rfl
    rw [body_of_skip_nil hskip, scanFrom_of_skip_nil hskip, scanFrom_of_skip_nil hskipped,
      Location.past_nil, scanFrom_of_skip_nil hend]
    rfl
  · rw [hskip] at hspaced hskipped
    have hfirst := reaches_tokenAt here p rest
    have hshorter := length_lt_of_skip_cons hskip
    have hafter : back = [] ∨ (tokenKind ⟨here, p :: rest⟩ p).after.rest = [] ∨
        (tokenKind ⟨here, p :: rest⟩ p).after.rest.EndsLine := by
      exact hspaced.imp_right fun hends => or_iff_not_imp_left.2 (hfirst.endsLine hends)
    have hothers := scanFrom_within (tokenKind ⟨here, p :: rest⟩ p).after front back hafter
    have htoken := tokenAt_within hspaced front
    rw [within_cons] at hskipped
    rw [body_of_skip_cons hskip, scanFrom_of_skip_cons hskip, scanFrom_of_skip_cons hskipped,
      ← within_cons, htoken, tokenKind_within hspaced, hfirst.past_rest]
    dsimp only [Reading.within]
    rw [hothers]
    simp only [List.map_cons, List.cons_append, List.map_append, List.append_assoc]
termination_by c.rest.length

end Tokens

/-! ## Texts made of two -/

section Append

variable {front back : Text}

/-- A scan of a whole text behind another one. -/
theorem scanFrom_behind (front back : Text) :
    scanFrom ⟨Location.first.behind front, back⟩ = (scan back).behind front := by
  have hwithin := scanFrom_within (.ofText back) front [] (Or.inl rfl)
  have hend : Cursor.skip isSpacing ⟨(Location.first.past back).behind front, []⟩ =
      ⟨(Location.first.past back).behind front, []⟩ := rfl
  have htokens : (scan back).tokens = (scan back).body ++ [.atEnd (Location.first.past back)] :=
    tokens_scanFrom (.ofText back)
  rw [Cursor.ofText, Cursor.within_mk, List.append_nil, scanFrom_of_skip_nil hend] at hwithin
  rw [hwithin, Scan.behind, htokens, List.map_append, List.append_nil]
  rfl

/-- Scanning a text that ends a line, and another one behind it: first the tokens of the first
without the end of the input, and then those of the second, moved. -/
theorem scan_append (h : front.EndsLine) (back : Text) :
    scan (front ++ back) =
      ⟨(scan front).body ++ (scan back).tokens.map (Token.behind front),
        (scan front).reports ++ (scan back).reports.map (Report.behind front)⟩ := by
  have hwithin := scanFrom_within (.ofText front) [] back (Or.inr (Or.inr h))
  have hback : scanFrom ⟨Location.first.past front, back⟩ = (scan back).behind front := by
    rw [← Location.behind_first h, scanFrom_behind]
  rw [Cursor.ofText, Cursor.within_mk, Location.behind_nil] at hwithin
  rw [scan, Cursor.ofText, hwithin]
  simp only [Location.behind_nil, hback, Scan.behind]
  congr 1
  · exact congrArg (· ++ _) (List.map_id'' behind_nil_token _)
  · exact congrArg (· ++ _) (List.map_id'' behind_nil_report _)

end Append

/-! ## Texts that end a line -/

section EndsLine

open Cursor

variable {c : Cursor} {source : Text} {t : Token} {r : Report LexicalError}

/-- What is left behind a token of a text that ends a line. -/
theorem endsLine_after (here : Location) {p : CodePoint} {rest : Text}
    (h : Text.EndsLine (p :: rest)) :
    p = .scalar '\n' ∧ (tokenKind ⟨here, p :: rest⟩ p).after.rest = rest ∨
      p ≠ .scalar '\n' ∧ (tokenKind ⟨here, p :: rest⟩ p).after.rest.EndsLine := by
  by_cases hp : p = .scalar '\n'
  · subst hp
    exact Or.inl ⟨rfl, rfl⟩
  · exact Or.inr ⟨hp, (along_tokenKind here rest hp).endsLine h⟩

/-- The last token of a text that ends a line is the end of the line. -/
theorem body_of_endsLine (c : Cursor) (h : c.rest.EndsLine) :
    ∃ ts t, (scanFrom c).body = ts ++ [t] ∧ t.kind = .newline := by
  have hspaced := (along_skip (q := isSpacing) rfl c).endsLine h
  rcases hskip : c.skip isSpacing with ⟨here, _ | ⟨p, rest⟩⟩
  · rw [hskip] at hspaced
    exact absurd hspaced.mem List.not_mem_nil
  · have hshorter := length_lt_of_skip_cons hskip
    rw [hskip] at hspaced
    rw [body_of_skip_cons hskip]
    by_cases hnil : (tokenKind ⟨here, p :: rest⟩ p).after.rest = []
    · rcases endsLine_after here hspaced with ⟨rfl, -⟩ | ⟨-, hends⟩
      · obtain rfl : rest = [] := hnil
        have hafter : (tokenKind ⟨here, [.scalar '\n']⟩ (.scalar '\n')).after.skip isSpacing =
            ⟨here.next (.scalar '\n'), []⟩ := rfl
        refine ⟨[], tokenAt ⟨here, [.scalar '\n']⟩ (.scalar '\n'), ?_, rfl⟩
        rw [body_of_skip_nil hafter]
        rfl
      · rw [hnil] at hends
        exact absurd hends.mem List.not_mem_nil
    · have hends := (reaches_tokenAt here p rest).endsLine hspaced hnil
      obtain ⟨ts, t, hbody, ht⟩ := body_of_endsLine _ hends
      exact ⟨_ :: ts, t, by rw [hbody, List.cons_append], ht⟩
termination_by c.rest.length

/-- A token in front of the end of the input was read at a cursor on the way there. -/
theorem mem_body_scanFrom (h : t ∈ (scanFrom c).body) :
    ∃ here p rest, c.Reaches ⟨here, p :: rest⟩ ∧ t = tokenAt ⟨here, p :: rest⟩ p := by
  have hnot := not_isEnd_of_mem_body h
  rcases mem_tokens_scanFrom ((List.takeWhile_subset _) h) with
    ⟨here, -, rfl⟩ | ⟨here, p, rest, hreach, ht, -⟩
  · cases hnot
  · exact ⟨here, p, rest, hreach, ht⟩

/-- The tokens of a text that ends a line start in front of the end of its last line. -/
theorem start_line_le (hsource : source.EndsLine) (h : t ∈ (scan source).body) :
    t.span.start.line ≤ source.lineFeeds := by
  obtain ⟨here, p, rest, hreach, rfl⟩ := mem_body_scanFrom h
  exact hreach.line_le hsource (List.cons_ne_nil p rest)

/-- They stop there too, unless they are themselves the end of a line. -/
theorem stop_line_le (hsource : source.EndsLine) (h : t ∈ (scan source).body)
    (hline : t.kind ≠ .newline) : t.span.stop.line ≤ source.lineFeeds := by
  obtain ⟨here, p, rest, hreach, rfl⟩ := mem_body_scanFrom h
  have hends : Text.EndsLine (p :: rest) := hreach.endsLine hsource (List.cons_ne_nil p rest)
  rcases endsLine_after here hends with ⟨rfl, -⟩ | ⟨-, hafter⟩
  · exact absurd rfl hline
  · have hread := hreach.trans (reaches_tokenAt here p rest)
    refine hread.line_le hsource fun hnil => ?_
    rw [hnil] at hafter
    exact absurd hafter.mem List.not_mem_nil

/-- The reports on a text that ends a line start in front of the end of its last line. -/
theorem report_line_le (hsource : source.EndsLine) (h : r ∈ (scan source).reports) :
    r.span.start.line ≤ source.lineFeeds := by
  obtain ⟨here, p, rest, hreach, -, hr⟩ := mem_reports_scanFrom h
  obtain ⟨d, e, hd, -, hspan⟩ := marks_tokenKind here p rest r hr
  have hends : Text.EndsLine (p :: rest) := hreach.endsLine hsource (List.cons_ne_nil p rest)
  rw [hspan]
  refine (hreach.trans hd.reaches).line_le hsource fun hnil => ?_
  have hafter := hd.endsLine hends
  rw [hnil] at hafter
  exact absurd hafter.mem List.not_mem_nil

end EndsLine

end WireScript
