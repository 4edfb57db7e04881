import WireScript.Yaml.Token

/-!
# Nodes of YAML

The tokens of a document nest: a node is a scalar, a sequence or a mapping, in block or in flow
style.  A node that is not there is an empty scalar.  A sequence that is the value of a key need not
be indented.

Tokens are looked at one by one, so a fault behind them shows only when they do not suffice.
-/

namespace WireScript.Yaml

/-- A node of a document. -/
inductive Node where
  | scalar (plain : Bool) (text : Text)
  | sequence (items : List Node)
  | mapping (entries : List (Node × Node))
  deriving Inhabited

/-- A node that is not there. -/
def Node.absent : Node := .scalar true []

/-- A node and the tokens after it, if tokens make up a node. -/
abbrev NodeReading := Except Fault (Node × List Token)

/-- Whether the next token is one of the given ones. -/
def nextIs (tokens : List Token) (ts : List Token) : Bool :=
  match tokens with
  | t :: _ => ts.contains t
  | [] => false

/-- What shows where the tokens are not the expected ones: a fault behind them if there are none. -/
def unexpected {α : Type} (behind : Fault) (tokens : List Token) : Except Fault α :=
  .error (if tokens.isEmpty then behind else .malformed)

/-- The tokens of a further entry of a flow collection, which follows a comma. -/
def afterComma (behind : Fault) (first : Bool) (tokens : List Token) :
    Except Fault (List Token) :=
  if first then .ok tokens
  else match tokens with
    | .flowEntry :: rest => .ok rest
    | _ => unexpected behind tokens

mutual

/-- Reads a node.  In block style, collections may be indented blocks; as the value of a key, a
sequence may also stand at the column of the key. -/
def node (behind : Fault) (block atKey : Bool) : Nat → List Token → NodeReading
  | 0, _ => .error .malformed
  | fuel + 1, tokens =>
    match tokens with
    | .scalar plain t :: rest => .ok (.scalar plain t, rest)
    | .flowSequence :: rest => flowItems behind true [] fuel rest
    | .flowMapping :: rest => flowEntries behind true [] fuel rest
    | .blockSequence :: rest =>
      if block then blockItems behind [] fuel rest else .error .malformed
    | .blockMapping :: rest =>
      if block then blockEntries behind [] fuel rest else .error .malformed
    | .blockEntry :: _ => if atKey then flushItems behind [] fuel tokens else .error .malformed
    | _ => unexpected behind tokens

/-- Reads a node unless one of the given tokens comes next. -/
def nodeUnless (behind : Fault) (block atKey : Bool) (ends : List Token) :
    Nat → List Token → NodeReading
  | 0, _ => .error .malformed
  | fuel + 1, tokens =>
    if nextIs tokens ends then .ok (.absent, tokens) else node behind block atKey fuel tokens

/-- Reads the value of a key, if there is one. -/
def valueUnless (behind : Fault) (block : Bool) (ends : List Token) :
    Nat → List Token → NodeReading
  | 0, _ => .error .malformed
  | fuel + 1, tokens =>
    match tokens with
    | .value :: rest => nodeUnless behind block block ends fuel rest
    | [] => .error behind
    | _ => .ok (.absent, tokens)

/-- Reads the key that a token announced, and its value. -/
def entry (behind : Fault) (block : Bool) (ends : List Token) :
    Nat → List Token → Except Fault ((Node × Node) × List Token)
  | 0, _ => .error .malformed
  | fuel + 1, tokens => do
    let valueEnds := if block then .value :: ends else ends
    let (key, rest) ← nodeUnless behind block block (.value :: ends) fuel tokens
    let (value, rest) ← valueUnless behind block valueEnds fuel rest
    return ((key, value), rest)

/-- The items of a block sequence.  Here and below, those read are given with the latest first. -/
def blockItems (behind : Fault) (items : List Node) : Nat → List Token → NodeReading
  | 0, _ => .error .malformed
  | fuel + 1, tokens =>
    match tokens with
    | .blockEntry :: rest => do
      let (item, rest) ← nodeUnless behind true false [.blockEntry, .blockEnd] fuel rest
      blockItems behind (item :: items) fuel rest
    | .blockEnd :: rest => .ok (.sequence items.reverse, rest)
    | _ => unexpected behind tokens

/-- The items of a sequence at the column of its key. -/
def flushItems (behind : Fault) (items : List Node) : Nat → List Token → NodeReading
  | 0, _ => .error .malformed
  | fuel + 1, tokens =>
    match tokens with
    | .blockEntry :: rest => do
      let (item, rest) ←
        nodeUnless behind true false [.blockEntry, .key, .value, .blockEnd] fuel rest
      flushItems behind (item :: items) fuel rest
    | [] => .error behind
    | _ => .ok (.sequence items.reverse, tokens)

/-- The entries of a block mapping. -/
def blockEntries (behind : Fault) (entries : List (Node × Node)) :
    Nat → List Token → NodeReading
  | 0, _ => .error .malformed
  | fuel + 1, tokens =>
    match tokens with
    | .key :: rest => do
      let (pair, rest) ← entry behind true [.key, .blockEnd] fuel rest
      blockEntries behind (pair :: entries) fuel rest
    | .blockEnd :: rest => .ok (.mapping entries.reverse, rest)
    | _ => unexpected behind tokens

/-- The items of a flow sequence.  An item may be a mapping with one entry. -/
def flowItems (behind : Fault) (first : Bool) (items : List Node) :
    Nat → List Token → NodeReading
  | 0, _ => .error .malformed
  | fuel + 1, tokens =>
    match tokens with
    | .flowSequenceEnd :: rest => .ok (.sequence items.reverse, rest)
    | _ => do
      match ← afterComma behind first tokens with
      | .flowSequenceEnd :: rest => return (.sequence items.reverse, rest)
      | .key :: rest =>
        let (pair, rest) ← entry behind false [.flowEntry, .flowSequenceEnd] fuel rest
        flowItems behind false (.mapping [pair] :: items) fuel rest
      | tokens =>
        let (item, rest) ← node behind false false fuel tokens
        flowItems behind false (item :: items) fuel rest

/-- The entries of a flow mapping.  A node without a value is a key all the same. -/
def flowEntries (behind : Fault) (first : Bool) (entries : List (Node × Node)) :
    Nat → List Token → NodeReading
  | 0, _ => .error .malformed
  | fuel + 1, tokens =>
    match tokens with
    | .flowMappingEnd :: rest => .ok (.mapping entries.reverse, rest)
    | _ => do
      match ← afterComma behind first tokens with
      | .flowMappingEnd :: rest => return (.mapping entries.reverse, rest)
      | .key :: rest =>
        let (pair, rest) ← entry behind false [.flowEntry, .flowMappingEnd] fuel rest
        flowEntries behind false (pair :: entries) fuel rest
      | tokens =>
        let (key, rest) ← node behind false false fuel tokens
        flowEntries behind false ((key, .absent) :: entries) fuel rest

end

/-- The node of the one document of a list of tokens; without any document it is absent. -/
def Node.ofTokens (s : TokenStream) : Except Fault Node := do
  let fuel := 4 * s.tokens.length + 4
  let behind := s.fault.getD .malformed
  let isEnd (t : Token) : Bool := t == .documentEnd
  let (root, rest) ← match s.tokens with
    | [] => pure (.absent, [])
    | .documentStart :: rest =>
      if rest.isEmpty || nextIs rest [.documentStart, .documentEnd] then pure (.absent, rest)
      else node behind true false fuel rest
    | tokens => node behind true false fuel tokens
  if !(rest.dropWhile isEnd).isEmpty then throw .malformed
  match s.fault with
  | some fault => throw fault
  | none => return root

end WireScript.Yaml
