import WireScript.Suite.Path
import WireScript.Text.Utf8

/-!
# Files

What is found at a path: a file with its bytes, a directory, or nothing.  Files come from a lookup
function, which `ofList` makes from the files that were written below the current directory.

A path is followed name by name, and each name is looked up in a directory that has to be there.  So
the double dots behind a missing directory lead nowhere.  Names are told apart by their bytes.
-/

namespace WireScript

/-- What is found at a path. -/
inductive FileEntry where
  | file (bytes : List UInt8)
  | directory
  /-- Nothing has this path. -/
  | missing
  /-- The path leads through a file as if it were a directory. -/
  | notDirectory
  /-- The path, or a name on it, is longer than any file's. -/
  | nameTooLong
  /-- The path holds a null character. -/
  | nullInName
  /-- The path holds a code point without a form on the wire. -/
  | unencodable
  deriving DecidableEq, Inhabited

/-- A view of the files that a program can read. -/
abbrev Files := Path → FileEntry

/-- How many bytes a path is too long with. -/
def pathLimit : Nat := 4096

/-- How many bytes a name has at most. -/
def nameLimit : Nat := 255

/-- What is found at a path that is no path of a file, whatever files there are. -/
def Path.impossible? (p : Path) : Option FileEntry :=
  match Utf8.encode p.render with
  | none => some .unencodable
  | some bytes =>
    if bytes.contains 0 then some .nullInName
    else if pathLimit ≤ bytes.length then some .nameTooLong
    else none

/-- A place in a tree of files: names below a root, or below a directory that lies a number of
levels above the current one. -/
structure Spot where
  absolute : Bool
  levels : Nat := 0
  names : List (List UInt8) := []
  deriving DecidableEq

namespace Spot

/-- Where a path starts. -/
def start (p : Path) : Spot := { absolute := p.isAbsolute }

/-- The spot of an entry of a directory. -/
def child (s : Spot) (name : List UInt8) : Spot := { s with names := s.names ++ [name] }

/-- The directory above.  Above a root there is the root. -/
def parent (s : Spot) : Spot :=
  if s.names.isEmpty then { s with levels := if s.absolute then 0 else s.levels + 1 }
  else { s with names := s.names.dropLast }

end Spot

/-- What was written so far, the latest first.  The current directory, all above it and the roots
are there from the start. -/
abbrev FileTree := List (Spot × FileEntry)

namespace FileTree

/-- The name of the directory above. -/
def up : List UInt8 := [0x2E, 0x2E]

/-- The names of a path as bytes; a name without a form on the wire has none. -/
def namesOf (p : Path) : List (List UInt8) :=
  p.names.map fun name => (Utf8.encode name).getD []

/-- What is at a spot. -/
def entryAt (tree : FileTree) (s : Spot) : FileEntry :=
  match tree.lookup s with
  | some entry => entry
  | none => if s.names.isEmpty then .directory else .missing

/-- What a name leads to from a directory. -/
def go (s : Spot) (name : List UInt8) : Spot :=
  if name = up then s.parent else s.child name

/-- Follows names from a spot. -/
def follow (tree : FileTree) (s : Spot) : List (List UInt8) → FileEntry
  | [] => tree.entryAt s
  | name :: rest =>
    match tree.entryAt s with
    | .directory =>
      if nameLimit < name.length then .nameTooLong
      else follow tree (go s name) rest
    | .file _ => .notDirectory
    | entry => entry

/-- Makes the directories on the way along names, and says where the way ends. -/
def makeDirectories (tree : FileTree) (s : Spot) : List (List UInt8) → FileTree × Spot
  | [] => (tree, s)
  | name :: rest =>
    let next := go s name
    let tree := if tree.entryAt next = .missing then (next, .directory) :: tree else tree
    makeDirectories tree next rest

/-- Writes a file, with all directories that it needs. -/
def write (tree : FileTree) (p : Path) (bytes : List UInt8) : FileTree :=
  match (namesOf p).getLast? with
  | none => tree
  | some name =>
    let (tree, s) := tree.makeDirectories (.start p) (namesOf p.parent)
    (s.child name, .file bytes) :: tree

/-- What is found at a path. -/
def find (tree : FileTree) (p : Path) : FileEntry :=
  match p.impossible? with
  | some entry => entry
  | none => tree.follow (.start p) (namesOf p)

end FileTree

namespace Files

/-- The files that are there after some were written in order. -/
def ofList (files : List (Path × List UInt8)) : Files :=
  FileTree.find (files.foldl (fun tree (p, bytes) => tree.write p bytes) [])

end Files

end WireScript
