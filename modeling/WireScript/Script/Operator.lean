import WireScript.Script.Basic
import WireScript.Token.Basic

/-!
# Written operators

The operators between two operands as they are written, how tightly they bind, and which
expressions they stand for.
-/

namespace WireScript

/-- An operator between two operands, as it is written. -/
inductive Operator where
  | or
  | and
  | equal
  | notEqual
  | less
  | greater
  | atMost
  | atLeast
  | plus
  | minus
  | times
  | dividedBy
  | remainder
  deriving DecidableEq, Inhabited

/-- The operator that a token stands for between two operands. -/
def Mark.operator? : Mark → Option Operator
  | or => some .or
  | and => some .and
  | equal => some .equal
  | notEqual => some .notEqual
  | less => some .less
  | greater => some .greater
  | atMost => some .atMost
  | atLeast => some .atLeast
  | plus => some .plus
  | minus => some .minus
  | star => some .times
  | slash => some .dividedBy
  | percent => some .remainder
  | _ => none

/-- The operator that a token stands for between two operands. -/
def Token.operator? (t : Token) : Option Operator :=
  match t.kind with
  | .mark m => m.operator?
  | _ => none

namespace Operator

/-- How tightly an operator binds; the higher, the tighter. -/
def precedence : Operator → Nat
  | or => 1
  | and => 2
  | equal | notEqual | less | greater | atMost | atLeast => 3
  | plus | minus => 4
  | times | dividedBy | remainder => 5

/-- Whether an operator compares.  Comparisons do not form chains. -/
def isComparison (op : Operator) : Bool :=
  op.precedence == 3

/-- The expression that an operator makes of two operands, with one note for all of its nodes. -/
def apply {α : Type} (op : Operator) (note : α) (left right : Expr α) : Expr α :=
  match op with
  | or => .or note left right
  | and => .and note left right
  | equal => .binary note .eq left right
  | notEqual => .not note (.binary note .eq left right)
  | less => .binary note .lt left right
  | greater => .binary note .gt left right
  | atMost => .not note (.binary note .gt left right)
  | atLeast => .not note (.binary note .lt left right)
  | plus => .binary note .add left right
  | minus => .binary note .sub left right
  | times => .binary note .mul left right
  | dividedBy => .binary note .div left right
  | remainder => .binary note .rem left right

end Operator

end WireScript
