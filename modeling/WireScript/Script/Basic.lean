import WireScript.Text.Basic

/-!
# Scripts

A script is a list of statements over expressions.  Every node carries a note: the parser notes the
stretch of source a node was read from, and `map` changes or forgets the notes, so that two trees
can be compared without regard to where they stand.

The operators are few.  A comparison that is not an equality or strict order is the negation of one
that is, a negative number is a difference, and a template is a chain of concatenations.
-/

namespace WireScript

/-- The operators on two integers. -/
inductive IntOp where
  | add
  | sub
  | mul
  /-- The quotient, truncated toward zero. -/
  | div
  /-- The remainder that goes with the truncated quotient. -/
  | rem
  | eq
  | lt
  | gt
  deriving DecidableEq, Inhabited

/-- An expression with a note of type `α` at every node. -/
inductive Expr (α : Type) where
  | integer (note : α) (n : Int)
  | string (note : α) (t : Text)
  /-- A reference to a binding, or to the clock. -/
  | name (note : α) (name : Text)
  /-- The text that the expression is matched against. -/
  | dot (note : α)
  | binary (note : α) (op : IntOp) (left right : Expr α)
  /-- Both conditions hold; the right one is looked at only if the left one holds. -/
  | and (note : α) (left right : Expr α)
  /-- One of two conditions holds; the right one is looked at only if the left one does not. -/
  | or (note : α) (left right : Expr α)
  | not (note : α) (operand : Expr α)
  /-- Two texts joined, or one text split between two patterns. -/
  | concat (note : α) (left right : Expr α)
  /-- Binds a name to a value and has that value. -/
  | assign (note : α) (targetNote : α) (target : Text) (value : Expr α)
  deriving DecidableEq, Inhabited

namespace Expr

variable {α β : Type}

/-- The note at the top of an expression. -/
def note : Expr α → α
  | integer a _ | string a _ | name a _ | dot a | binary a _ _ _ | and a _ _ | or a _ _
  | not a _ | concat a _ _ | assign a _ _ _ => a

/-- The same expression with other notes. -/
def map (f : α → β) : Expr α → Expr β
  | integer a n => .integer (f a) n
  | string a t => .string (f a) t
  | name a x => .name (f a) x
  | dot a => .dot (f a)
  | binary a op l r => .binary (f a) op (l.map f) (r.map f)
  | and a l r => .and (f a) (l.map f) (r.map f)
  | or a l r => .or (f a) (l.map f) (r.map f)
  | not a e => .not (f a) (e.map f)
  | concat a l r => .concat (f a) (l.map f) (r.map f)
  | assign a b x e => .assign (f a) (f b) x (e.map f)

/-- The names that an expression assigns to. -/
def targets : Expr α → List Text
  | integer .. | string .. | name .. | dot .. => []
  | binary _ _ l r | and _ l r | or _ l r | concat _ l r => l.targets ++ r.targets
  | not _ e => e.targets
  | assign _ _ x e => x :: e.targets

@[simp] theorem note_map (f : α → β) (e : Expr α) : (e.map f).note = f e.note := by
  cases e <;> rfl

@[simp] theorem targets_map (f : α → β) (e : Expr α) : (e.map f).targets = e.targets := by
  induction e <;> simp_all [map, targets]

end Expr

/-- A statement with a note of type `α` at every node. -/
inductive Stmt (α : Type) where
  /-- Writes the text of a value to the peer. -/
  | send (note : α) (value : Expr α)
  /-- Reads a line from the peer and matches it; `source` is the pattern as it was written. -/
  | receive (note : α) (pattern : Expr α) (source : Text)
  /-- Fails unless the condition holds; `source` is the condition as it was written. -/
  | assert (note : α) (condition : Expr α) (source : Text)
  /-- Evaluates an expression for its effect. -/
  | expr (note : α) (value : Expr α)
  deriving DecidableEq, Inhabited

namespace Stmt

variable {α β : Type}

/-- The note at the top of a statement. -/
def note : Stmt α → α
  | send a _ | receive a _ _ | assert a _ _ | expr a _ => a

/-- The expression of a statement. -/
def operand : Stmt α → Expr α
  | send _ e | receive _ e _ | assert _ e _ | expr _ e => e

/-- The same statement with other notes. -/
def map (f : α → β) : Stmt α → Stmt β
  | send a e => .send (f a) (e.map f)
  | receive a e t => .receive (f a) (e.map f) t
  | assert a e t => .assert (f a) (e.map f) t
  | expr a e => .expr (f a) (e.map f)

end Stmt

/-- A script: statements that run in order. -/
structure Script (α : Type) where
  note : α
  statements : List (Stmt α)
  deriving DecidableEq, Inhabited

/-- The same script with other notes. -/
def Script.map {α β : Type} (f : α → β) (s : Script α) : Script β :=
  ⟨f s.note, s.statements.map (Stmt.map f)⟩

end WireScript
