import WireScript.Yaml.Node
import WireScript.Yaml.Spelling

/-!
# Documents

A document stands for a value.  A plain scalar stands for what it is spelled like, a sequence for a
list, and a mapping for a mapping with scalars as keys.

The key of two less-than signs is no entry: the entries of its value, a mapping or a list of them,
come in front of the mapping's own, so that the own ones count.  Of a list, the mapping in front
counts.  As a key, the equals sign stands for itself.

A document can have several faults.  Nodes near the root are looked at before nodes further inside,
and of those at one depth the first in the text comes first.
-/

namespace WireScript.Yaml

/-- What a node comes to. -/
inductive Draft where
  | leaf (value : Except Fault Data)
  | list (items : List Draft)
  | mapping (entries : List (Draft × Draft))
  /-- A mapping with a key for the entries of others that has something else for a value. -/
  | noMapping
  deriving Inhabited

namespace Draft

/-- The entries of what should be a mapping. -/
def entries? : Draft → Option (List (Draft × Draft))
  | mapping entries => some entries
  | leaf _ | list _ | noMapping => none

/-- The entries that a value brings into the mapping that has it. -/
def brought? : Draft → Option (List (Draft × Draft))
  | list items => do return (← items.mapM entries?).reverse.flatten
  | d => d.entries?

end Draft

namespace Node

/-- Whether a key stands for the entries of its value. -/
def isMerge : Node → Bool
  | scalar true t => t == Text.ofString "<<"
  | _ => false

/-- Whether a key is the equals sign. -/
def isEquals : Node → Bool
  | scalar true t => t == Text.ofString "="
  | _ => false

mutual

/-- What a node comes to. -/
def draft : Node → Draft
  | scalar true t => .leaf (plainValue t)
  | scalar false t => .leaf (.ok (.text t))
  | sequence items => .list (draftItems items)
  | mapping entries =>
    match draftEntries entries with
    | some (brought, own) => .mapping (brought ++ own)
    | none => .noMapping

/-- What the items of a sequence come to. -/
def draftItems : List Node → List Draft
  | [] => []
  | item :: rest => draft item :: draftItems rest

/-- What the entries of a mapping come to: those that others bring, and its own. -/
def draftEntries : List (Node × Node) → Option (List (Draft × Draft) × List (Draft × Draft))
  | [] => some ([], [])
  | (key, value) :: rest => do
    let value := draft value
    let (brought, own) ← draftEntries rest
    if key.isMerge then return ((← value.brought?) ++ brought, own)
    else
      let key := if key.isEquals then .leaf (.ok (.text "=")) else draft key
      return (brought, (key, value) :: own)

end

end Node

/-- Faults by depth: those of a node itself, of its parts, of their parts, and so on. -/
abbrev Layers := List (List Fault)

/-- The faults of nodes side by side. -/
def Layers.beside : Layers → Layers → Layers
  | [], b => b
  | a, [] => a
  | x :: a, y :: b => (x ++ y) :: beside a b

namespace Draft

/-- The faults of a key that is a list or a mapping. -/
def keyFaults : Draft → Layers
  | leaf _ => []
  | list _ | mapping _ | noMapping => [[.malformed]]

mutual

/-- The faults of a node. -/
def faults : Draft → Layers
  | leaf (.ok _) => []
  | leaf (.error fault) => [[fault]]
  | list items => [] :: faultsOfItems items
  | mapping entries => [] :: faultsOfEntries entries
  | noMapping => [[], [.malformed]]

/-- The faults of the items of a list. -/
def faultsOfItems : List Draft → Layers
  | [] => []
  | item :: rest => (faults item).beside (faultsOfItems rest)

/-- The faults of the entries of a mapping. -/
def faultsOfEntries : List (Draft × Draft) → Layers
  | [] => []
  | (key, value) :: rest =>
    ((faults key).beside key.keyFaults).beside ((faults value).beside (faultsOfEntries rest))

end

mutual

/-- The value of a node without faults. -/
def value : Draft → Data
  | leaf (.ok data) => data
  | leaf (.error _) | noMapping => .null
  | list items => .list (valueOfItems items)
  | mapping entries => .mapping (valueOfEntries [] entries)

/-- The values of the items of a list. -/
def valueOfItems : List Draft → List Data
  | [] => []
  | item :: rest => value item :: valueOfItems rest

/-- The entries of a mapping, added to those before. -/
def valueOfEntries (before : List (Data × Data)) : List (Draft × Draft) → List (Data × Data)
  | [] => before
  | (key, item) :: rest => valueOfEntries (Data.insert (value key) (value item) before) rest

end

/-- The value of a node, or its first fault. -/
def toData (d : Draft) : Except Fault Data :=
  match d.faults.flatten with
  | fault :: _ => .error fault
  | [] => .ok d.value

end Draft

/-- Reads a YAML document. -/
def read (bytes : List UInt8) : Except Fault Data := do
  let root ← Node.ofTokens (.ofPlace (← Place.start bytes))
  root.draft.toData

end WireScript.Yaml
