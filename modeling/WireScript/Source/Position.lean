import WireScript.Text.Basic

/-!
# Positions in a source text

A location gives the line and the column, both counted from one, and the offset counted from
zero; all three count code points.  There are two ways to find one: `Location.past` steps over the
text read so far, and `locate` counts line feeds in front of an offset.

All locations in a source are in one file, so its name stands once beside the text of the source and
not in each location; it is put in front of a location where that is shown.
-/

namespace WireScript

/-- A place in a source text. -/
structure Location where
  line : Nat
  column : Nat
  offset : Nat
  deriving DecidableEq, Repr, Inhabited

/-- A stretch of a source text: where it starts, and where the text after it starts. -/
structure Span where
  start : Location
  stop : Location
  deriving DecidableEq, Repr, Inhabited

namespace Location

/-- The beginning of a text. -/
def first : Location := ⟨1, 1, 0⟩

/-- The location after one code point. -/
def next (here : Location) (p : CodePoint) : Location :=
  if p.is '\n' then ⟨here.line + 1, 1, here.offset + 1⟩
  else ⟨here.line, here.column + 1, here.offset + 1⟩

/-- The location after a text. -/
def past (here : Location) (t : Text) : Location :=
  t.foldl next here

/-- Line and column. -/
def brief (here : Location) : Text :=
  Text.ofNat here.line ++ ":" ++ Text.ofNat here.column

/-- Line and column, behind the name of the file if there is one and it is not empty. -/
def render (file : Option Text) (here : Location) : Text :=
  match file with
  | some (p :: name) => p :: name ++ ":" ++ here.brief
  | _ => here.brief

@[simp] theorem past_nil (here : Location) : here.past [] = here := rfl

@[simp] theorem past_cons (here : Location) (p : CodePoint) (t : Text) :
    here.past (p :: t) = (here.next p).past t := rfl

theorem past_append (here : Location) (t u : Text) :
    here.past (t ++ u) = (here.past t).past u :=
  List.foldl_append

theorem offset_past (here : Location) (t : Text) :
    (here.past t).offset = here.offset + t.length := by
  induction t generalizing here with
  | nil => rfl
  | cons p t ih =>
    rw [past_cons, ih, List.length_cons]
    unfold next
    split <;> simp only [] <;> omega

end Location

namespace Span

/-- The empty stretch at a location. -/
def empty (here : Location) : Span := ⟨here, here⟩

/-- A stretch as the location of its start and the line and column of its end. -/
def render (file : Option Text) (span : Span) : Text :=
  span.start.render file ++ "-" ++ span.stop.brief

end Span

/-- The location of an offset, which is moved into the text if it lies outside. -/
def locate (source : Text) (offset : Int) : Location :=
  let before := source.take offset.toNat
  { line := before.countP (·.is '\n') + 1
    column := (before.reverse.takeWhile fun p => !p.is '\n').length + 1
    offset := before.length }

end WireScript
