import WireScript.Source.Position

/-!
# Reading positions

A cursor is a location in a source text together with the text that is still to be read there.
Everything that reads source text moves a cursor forward, and `Reaches` says that one cursor comes
from another by reading: the text in between and what is left make up the text there was.
-/

namespace WireScript

/-- A location and the text after it. -/
structure Cursor where
  here : Location
  rest : Text
  deriving DecidableEq, Inhabited

namespace Cursor

/-- The cursor at the beginning of a text. -/
def ofText (t : Text) : Cursor := ⟨.first, t⟩

/-- The next code point, if there is one. -/
def peek (c : Cursor) : Option CodePoint := c.rest.head?

/-- The cursor after the next code point; at the end there is none, and it stays. -/
def next (c : Cursor) : Cursor :=
  match c.rest with
  | [] => c
  | p :: rest => ⟨c.here.next p, rest⟩

/-- The code points ahead that satisfy a predicate, up to the first that does not. -/
def read (p : CodePoint → Bool) (c : Cursor) : Text :=
  c.rest.takeWhile p

/-- The cursor after the code points that `read` gives. -/
def skip (p : CodePoint → Bool) (c : Cursor) : Cursor :=
  ⟨c.here.past (c.read p), c.rest.dropWhile p⟩

/-- The text between a cursor and a later one. -/
def textTo (c d : Cursor) : Text :=
  c.rest.take (d.here.offset - c.here.offset)

/-- The stretch of source between a cursor and a later one. -/
def spanTo (c d : Cursor) : Span := ⟨c.here, d.here⟩

/-- One cursor is reached from another by reading some text. -/
def Reaches (c d : Cursor) : Prop :=
  ∃ t, c.rest = t ++ d.rest ∧ d.here = c.here.past t

namespace Reaches

theorem refl (c : Cursor) : c.Reaches c := ⟨[], rfl, rfl⟩

theorem trans {c d e : Cursor} (hcd : c.Reaches d) (hde : d.Reaches e) : c.Reaches e := by
  obtain ⟨t, hrest, hhere⟩ := hcd
  obtain ⟨u, hrest', hhere'⟩ := hde
  exact ⟨t ++ u, by rw [hrest, hrest', List.append_assoc], by
    rw [hhere', hhere, Location.past_append]⟩

theorem length_le {c d : Cursor} (h : c.Reaches d) : d.rest.length ≤ c.rest.length := by
  obtain ⟨t, hrest, -⟩ := h
  rw [hrest, List.length_append]
  omega

/-- What was read is the text between the cursors. -/
theorem textTo_append {c d : Cursor} (h : c.Reaches d) : c.rest = c.textTo d ++ d.rest := by
  obtain ⟨t, hrest, hhere⟩ := h
  have : d.here.offset - c.here.offset = t.length := by
    rw [hhere, Location.offset_past]
    omega
  rw [textTo, this, hrest, List.take_left']
  rfl

end Reaches

theorem reaches_cons (here : Location) (p : CodePoint) (rest : Text) :
    Reaches ⟨here, p :: rest⟩ ⟨here.next p, rest⟩ :=
  ⟨[p], rfl, rfl⟩

theorem reaches_next (c : Cursor) : c.Reaches c.next := by
  obtain ⟨here, rest⟩ := c
  cases rest with
  | nil => exact .refl _
  | cons p rest => exact reaches_cons here p rest

theorem reaches_skip (p : CodePoint → Bool) (c : Cursor) : c.Reaches (c.skip p) :=
  ⟨c.read p, (List.takeWhile_append_dropWhile).symm, rfl⟩

/-- Reading on past a first code point that satisfies the predicate. -/
theorem reaches_skip_cons (here : Location) {p : CodePoint} (rest : Text) {q : CodePoint → Bool}
    (h : q p = true) : Reaches ⟨here.next p, rest⟩ (skip q ⟨here, p :: rest⟩) := by
  refine ⟨rest.takeWhile q, ?_, ?_⟩
  · simp [skip, h]
  · simp [skip, read, h]

/-- Reading takes all of a stretch of code points that qualify, if none follows it. -/
theorem read_skip_append {here : Location} {t rest : Text} (test : CodePoint → Bool)
    (ht : ∀ p ∈ t, test p = true) (hrest : ∀ p, rest.head? = some p → test p = false) :
    read test ⟨here, t ++ rest⟩ = t ∧ skip test ⟨here, t ++ rest⟩ = ⟨here.past t, rest⟩ := by
  have hread : (t ++ rest).takeWhile test = t := by
    rw [List.takeWhile_append_of_pos ht]
    cases rest with
    | nil => simp
    | cons p rest => simp [hrest p rfl]
  have hskip : (t ++ rest).dropWhile test = rest := by
    rw [List.dropWhile_append_of_pos ht]
    cases rest with
    | nil => simp
    | cons p rest => simp [hrest p rfl]
  simp [skip, read, hread, hskip]

/-- The text up to a later position is what stands in front of it. -/
theorem textTo_past (here : Location) (t rest : Text) :
    textTo ⟨here, t ++ rest⟩ ⟨here.past t, rest⟩ = t := by
  have hreaches : Reaches ⟨here, t ++ rest⟩ ⟨here.past t, rest⟩ := ⟨t, rfl, rfl⟩
  exact (List.append_cancel_right hreaches.textTo_append).symm

end Cursor

end WireScript
