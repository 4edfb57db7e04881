import WireScript.Proofs.Token.Lexeme
import WireScript.Proofs.Token.Within

/-!
# Scanning a part of a text again

Tokens that were scanned without a report are scanned again from the text that they were read from:
on its own, at another place, without the white space around it, or from their lexemes with spaces
between them.

* `Lexes` says that tokens are read between two cursors, one lexeme behind the other.  It can be cut
  between any two tokens (`Lexes.split`), and a scan without reports gives it (`exists_lexes`).
* `Lexes.scans` moves tokens to another place and cuts off what stands behind them.
  `Lexes.scans_stripped` does this for a text without the white space around it.
* `Lexes.scans_spaced` puts one space between neighbours instead of what stood there.
-/

namespace WireScript

open Literal

/-! ## Tokens between two cursors -/

/-- Tokens are read between two cursors: each from a lexeme, with white space in front. -/
inductive Lexes : Cursor → List Token → Cursor → Prop where
  | nil (c : Cursor) : Lexes c [] c
  | cons {here : Location} {gap t rest : Text} {k : TokenKind} {ts : List Token} {d : Cursor}
      (hgap : ∀ p ∈ gap, isSpacing p = true) (h : Lexeme rest k t)
      (hts : Lexes ⟨(here.past gap).past t, rest⟩ ts d) :
      Lexes ⟨here, gap ++ (t ++ rest)⟩
        (⟨k, t, ⟨here.past gap, (here.past gap).past t⟩⟩ :: ts) d

variable {c d : Cursor} {ts us : List Token} {t : Token} {x : Text}

/-- Tokens that are scanned without a report are read, if their strings can be sent. -/
theorem exists_lexes (c : Cursor) (hreports : (scanFrom c).reports = [])
    (hencodable : ∀ t ∈ (scanFrom c).tokens, ∀ v, t.kind = .string v → v.isEncodable) :
    ∃ d, Lexes c (scanFrom c).body d := by
  obtain ⟨gap, hgap, hc, hskip⟩ := exists_gap c
  cases hahead : (c.skip isSpacing).rest with
  | nil =>
    rw [hahead] at hskip
    exact ⟨c, body_of_skip_nil hskip ▸ .nil c⟩
  | cons p rest =>
    rw [hahead] at hskip hc
    have hshorter := length_lt_of_skip_cons hskip
    rw [scanFrom_of_skip_cons hskip] at hreports hencodable
    obtain ⟨hfirst, hothers⟩ := List.append_eq_nil_iff.1 hreports
    obtain ⟨hstring, hstrings⟩ := List.forall_mem_cons.1 hencodable
    obtain ⟨k, t, after, hrest, hlexeme⟩ := exists_lexeme_ahead hfirst hstring
    obtain ⟨q, u, rfl, -⟩ := hlexeme.exists_head
    rw [List.cons_append] at hrest
    obtain ⟨rfl, rfl⟩ := List.cons.inj hrest
    obtain ⟨d, hd⟩ := exists_lexes _ hothers hstrings
    rw [body_of_skip_cons hskip, hlexeme.tokenAt_eq]
    rw [hlexeme.read] at hd ⊢
    rw [hc]
    exact ⟨d, .cons hgap hlexeme hd⟩
termination_by c.rest.length

/-- A token with another one behind it on the same line is not the end of a template. -/
theorem Lexeme.not_endsTemplate {rest : Text} {k : TokenKind} (h : Lexeme rest k x)
    {here : Location} (hts : Lexes ⟨here, rest⟩ (t :: ts) d) (hline : t.kind ≠ .newline) :
    k.endsTemplate = false := by
  cases h with
  | @finish _ _ u _ _ hrest =>
    -- the end of the line would stand in the gap, or in front of the next lexeme
    cases hts with
    | @cons _ gap _ _ _ _ _ hgap hlexeme =>
      cases gap with
      | cons q gap =>
        have hq : isSpacing q = true := hgap q List.mem_cons_self
        rw [hrest q rfl] at hq
        cases hq
      | nil =>
        obtain ⟨q, v, rfl, -, hq⟩ := hlexeme.exists_head
        have hvisible : q.isBlank = false := hq hline
        rw [hrest q rfl] at hvisible
        cases hvisible
  | embed hp => cases hp <;> rfl
  | _ => rfl

namespace Lexes

/-- Tokens can be cut between any two of them. -/
theorem split (h : Lexes c (ts ++ us) d) : ∃ e, Lexes c ts e ∧ Lexes e us d := by
  induction ts generalizing c with
  | nil => exact ⟨c, .nil c, h⟩
  | cons t ts ih =>
    cases h with
    | cons hgap hlexeme hrest =>
      obtain ⟨e, hts, hus⟩ := ih hrest
      exact ⟨e, .cons hgap hlexeme hts, hus⟩

theorem reaches (h : Lexes c ts d) : c.Reaches d := by
  induction h with
  | nil c => exact .refl c
  | @cons here gap t rest k ts d hgap hlexeme hts ih =>
    have hfirst : Cursor.Reaches ⟨here, gap ++ (t ++ rest)⟩ ⟨(here.past gap).past t, rest⟩ :=
      ⟨gap ++ t, by simp, by rw [Location.past_append]⟩
    exact hfirst.trans ih

/-- The last of the tokens ends where reading has come to. -/
theorem stop_eq (h : Lexes c ts d) (ht : ts.getLast? = some t) : t.span.stop = d.here := by
  induction h with
  | nil => cases ht
  | cons hgap hlexeme hts ih =>
    cases hts with
    | nil =>
      cases ht
      rfl
    | cons => exact ih (by rwa [List.getLast?_cons_cons] at ht)

/-- The first of the tokens starts behind white space. -/
theorem exists_start (h : Lexes c (t :: ts) d) (hline : t.kind ≠ .newline) :
    ∃ e, c.Reaches e ∧ e.here = t.span.start ∧ Lexes e (t :: ts) d ∧
      ∀ p, e.rest.head? = some p → p.isBlank = false := by
  cases h with
  | @cons here gap x rest k ts d hgap hlexeme hts =>
    refine ⟨⟨here.past gap, x ++ rest⟩, ⟨gap, rfl, rfl⟩, rfl, ?_, ?_⟩
    · have hnone : ∀ p ∈ ([] : Text), isSpacing p = true := List.forall_mem_nil _
      exact .cons hnone hlexeme hts
    · obtain ⟨p, u, rfl, -, hp⟩ := hlexeme.exists_head
      rintro q ⟨⟩
      exact hp hline

/-! ## Scanning again -/

/-- Tokens are scanned again from their text at another place, in front of the end or of a first
part of what stood behind them. -/
theorem scans (h : Lexes c ts d) (hx : c.rest = x ++ d.rest) {rest : Text} (hrest : rest <+: d.rest)
    (here : Location) :
    ∃ us, us.map (·.kind) = ts.map (·.kind) ∧
      Cursor.Scans ⟨here, x ++ rest⟩ us [] ⟨here.past x, rest⟩ := by
  induction h generalizing x here with
  | nil c =>
    obtain rfl : x = [] := by simpa using hx
    exact ⟨[], rfl, .refl _⟩
  | @cons there gap t after k ts d hgap hlexeme hts ih =>
    obtain ⟨y, hy, -⟩ := hts.reaches
    obtain rfl : after = y ++ d.rest := hy
    obtain rfl : x = gap ++ (t ++ y) := by
      apply List.append_cancel_right
      rw [← hx]
      simp
    have hspace := Cursor.Scans.of_spacing here hgap (t ++ (y ++ rest))
    have hleading : y ++ rest <+: y ++ d.rest := (List.prefix_append_right_inj y).2 hrest
    have hfirst := (hlexeme.of_prefix hleading).scans (here.past gap)
    obtain ⟨us, hkinds, hus⟩ := ih rfl hrest ((here.past gap).past t)
    rw [Location.past_append, Location.past_append, List.append_assoc, List.append_assoc]
    exact ⟨_, by simp [hkinds], hspace.trans (hfirst.trans hus)⟩

/-- Tokens are scanned again from their text without the white space around it, unless white space
belongs to the last of them. -/
theorem scans_stripped (h : Lexes c ts d) (hx : c.rest = x ++ d.rest)
    (hstart : ∀ p, c.rest.head? = some p → p.isBlank = false)
    (hline : ∀ t ∈ ts, t.kind ≠ .newline)
    (hblank : ∀ t, ts.getLast? = some t → t.kind.endsInBlank = false) (here : Location) :
    ∃ us, us.map (·.kind) = ts.map (·.kind) ∧
      Cursor.Scans ⟨here, x.stripped⟩ us [] ⟨here.past x.stripped, []⟩ := by
  rcases List.eq_nil_or_concat ts with rfl | ⟨ts, t, rfl⟩
  · cases h
    obtain rfl : x = [] := by simpa using hx
    exact ⟨[], rfl, .refl _⟩
  rw [List.concat_eq_append] at h hline hblank ⊢
  obtain ⟨e, hts, ht⟩ := h.split
  obtain ⟨y, hy, -⟩ := hts.reaches
  cases ht with
  | @cons there gap t rest k _ d hgap hlexeme hnil =>
    cases hnil
    have hlast := hlexeme.dropTrailing (hline _ (List.mem_append_right _ List.mem_cons_self))
      (hblank _ List.getLast?_concat)
    obtain ⟨p, u, hu, -⟩ := hlast.exists_head
    obtain rfl : x = y ++ (gap ++ t) := by
      apply List.append_cancel_right
      rw [← hx, hy]
      simp
    have hstripped : Text.stripped (y ++ (gap ++ t)) =
        y ++ (gap ++ t.dropTrailing CodePoint.isBlank) := by
      rw [Text.stripped_of_head? fun q hq => hstart q (by rw [hx, List.head?_append, hq]; rfl),
        ← List.append_assoc, Text.dropTrailing_append_right _ (by simp [hu]), List.append_assoc]
    have hleading : gap ++ t.dropTrailing CodePoint.isBlank <+: gap ++ (t ++ rest) :=
      (List.prefix_append_right_inj gap).2
        ((Text.dropTrailing_prefix t).trans (List.prefix_append t rest))
    obtain ⟨us, hkinds, hus⟩ := hts.scans hy hleading here
    have hspace := Cursor.Scans.of_spacing (here.past y) hgap (t.dropTrailing CodePoint.isBlank)
    have hword := hlast.scans ((here.past y).past gap)
    rw [List.append_nil] at hword
    rw [hstripped, Location.past_append, Location.past_append]
    exact ⟨_, by simp [hkinds], hus.trans (hspace.trans hword)⟩

/-- Tokens of one line are scanned again from their lexemes with spaces between them. -/
theorem scans_spaced (h : Lexes c ts d) (hline : ∀ t ∈ ts, t.kind ≠ .newline) (here : Location) :
    ∃ us stop, us.map (·.kind) = ts.map (·.kind) ∧
      Cursor.Scans ⟨here, Text.join " " (ts.map (·.lexeme))⟩ us [] ⟨stop, []⟩ := by
  induction h generalizing here with
  | nil c => exact ⟨[], here, rfl, .refl _⟩
  | @cons there gap t rest k ts d hgap hlexeme hts ih =>
    obtain ⟨-, hothers⟩ := List.forall_mem_cons.1 hline
    cases ts with
    | nil =>
      have hword := (hlexeme.of_prefix List.nil_prefix).scans here
      rw [List.append_nil] at hword
      exact ⟨[⟨k, t, ⟨here, here.past t⟩⟩], _, rfl, hword⟩
    | cons t' ts =>
      have hinner := hlexeme.not_endsTemplate hts (hothers _ List.mem_cons_self)
      have hword := (hlexeme.before_space hinner
        (Text.join " " ((t' :: ts).map (·.lexeme)))).scans here
      obtain ⟨us, stop, hkinds, hus⟩ := ih hothers ((here.past t).next (.scalar ' '))
      refine ⟨⟨k, t, ⟨here, here.past t⟩⟩ :: us, stop, congrArg (k :: ·) hkinds, ?_⟩
      simpa [Text.join, Text.ofString, Text.ofChars] using
        hword.trans ((Cursor.Scans.of_space _ _).trans hus)

end Lexes

end WireScript
