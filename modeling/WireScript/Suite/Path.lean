import WireScript.Text.Basic

/-!
# Paths

A path is a list of names below a root or below the current directory.  Empty names and single dots
are dropped when a path is read; double dots are kept, since what they lead to depends on the files.
-/

namespace WireScript

/-- A path. -/
structure Path where
  /-- How many slashes the path starts with.  Two are a root of their own, more than two are one. -/
  slashes : Nat
  names : List Text
  deriving DecidableEq, Inhabited

namespace Path

/-- The name of the current directory. -/
def dot : Text := [.scalar '.']

/-- Reads a path. -/
def ofText (t : Text) : Path :=
  let leading := (t.takeWhile (·.is '/')).length
  ⟨if leading = 2 then 2 else min leading 1,
    (t.pieces '/').filter fun name => !name.isEmpty && name != dot⟩

/-- Whether a path starts at a root. -/
def isAbsolute (p : Path) : Bool := p.slashes != 0

/-- The path of an entry of a directory; an absolute entry is a path of its own. -/
def join (base entry : Path) : Path :=
  if entry.isAbsolute then entry else ⟨base.slashes, base.names ++ entry.names⟩

/-- The directory that a path lies in. -/
def parent (p : Path) : Path := ⟨p.slashes, p.names.dropLast⟩

/-- A path as text; the path without any name is the current directory or a root. -/
def render (p : Path) : Text :=
  match p.slashes, p.names with
  | 0, [] => dot
  | n, names => Text.copies n '/' ++ Text.join "/" names

end Path

end WireScript
