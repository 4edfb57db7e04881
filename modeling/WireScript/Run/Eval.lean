import WireScript.Run.Memory
import WireScript.Script.Basic

/-!
# Evaluation

An expression is evaluated with or without a text to match.  Most nodes compute a value from the
values of their parts.  A dot has the text as its value, and a concatenation of parts that need it
splits the text between them:

* a part that has a value on its own must stand at its end of the text, and the other part is
  matched against the rest;
* if neither part has one, every split is tried, and exactly one must succeed.

The effects of trying are kept, and the split that was found is evaluated once more, so that what
it binds is what the names are bound to afterwards.
-/

namespace WireScript

/-- What ends a run, and where. -/
inductive Halt (α : Type) where
  | failed (error : RuntimeError) (note : α)
  /-- A text with a stray surrogate was about to become a value or to be sent. -/
  | unencodable
  deriving DecidableEq

/-- What an expression has instead of a value. -/
inductive Stop (α : Type) where
  | noMatch (failure : MatchFailure)
  | halt (halt : Halt α)
  deriving DecidableEq

/-- Computations on the memory of a run.  What they did before they stopped stays done. -/
abbrev Eval (α : Type) := EStateM (Stop α) Memory

namespace Eval

variable {α β : Type}

/-- Stops because there is no value. -/
def noMatch (failure : MatchFailure) : Eval α β :=
  throw (.noMatch failure)

/-- Ends the run. -/
def fail (error : RuntimeError) (note : α) : Eval α β :=
  throw (.halt (.failed error note))

/-- Keeps an event for the trace. -/
def record (event : Event) : Eval α Unit :=
  modify fun m => { m with log := event :: m.log }

/-- The value of a text. -/
def text (t : Text) : Eval α Value :=
  match Value.ofText? t with
  | some v => pure v
  | none => throw (.halt .unencodable)

/-- The time. -/
def now (clock : Clock) : Eval α Value := do
  let m ← get
  set { m with clockReads := m.clockReads + 1 }
  return .ofInt (clock m.clockReads)

/-- The value that a name is bound to. -/
def lookup (note : α) (name : Text) : Eval α Value := do
  match (← get).bindings.get? name with
  | some v => return v
  | none => fail (.unbound name) note

/-- Binds a name. -/
def assign (name : Text) (value : Value) : Eval α Unit := do
  modify fun m => { m with bindings := m.bindings.set name value }
  record (.assigned name value)

/-- The outcome of a computation that may have no value. -/
def attempt (x : Eval α β) : Eval α (Except MatchFailure β) := fun m =>
  match x m with
  | .ok v m => .ok (.ok v) m
  | .error (.noMatch failure) m => .ok (.error failure) m
  | .error (.halt h) m => .error (.halt h) m

/-- The text to match, which a concatenation cannot do without. -/
def contextText (context : Option Text) : Eval α Text :=
  match context with
  | some t => pure t
  | none => noMatch .needsText

end Eval

/-- The value of an operator on two integers; division by zero has none. -/
def IntOp.apply? (op : IntOp) (m n : Int) : Option Value :=
  match op with
  | add => some (.ofInt (m + n))
  | sub => some (.ofInt (m - n))
  | mul => some (.ofInt (m * n))
  | div => if n = 0 then none else some (.ofInt (quotient m n))
  | rem => if n = 0 then none else some (.ofInt (m - n * quotient m n))
  | eq => some (.bool (m == n))
  | lt => some (.bool (m < n))
  | gt => some (.bool (n < m))

/-- The name that stands for the time. -/
def nowName : Text := [.scalar 'n', .scalar 'o', .scalar 'w']

/-- A part of an expression as its surroundings see it: a value for a text to match, or for
none. -/
abbrev Matcher (α : Type) := Option Text → Eval α Value

namespace Matcher

variable {α : Type}

/-- Whether a text can be split at a place between two parts. -/
def fits (left right : Matcher α) (text : Text) (cut : Nat) : Eval α Bool := do
  match ← (left (some (text.take cut))).attempt with
  | .error _ => return false
  | .ok _ =>
    match ← (right (some (text.drop cut))).attempt with
    | .error _ => return false
    | .ok _ => return true

/-- The one place among those given, and the one found before if there is any, where a text can be
split between two parts. -/
def findSplit (left right : Matcher α) (text : Text) (found : Option Nat) :
    List Nat → Eval α Nat
  | [] =>
    match found with
    | some cut => pure cut
    | none => .noMatch (.noSplit text)
  | cut :: cuts => do
    if ← fits left right text cut then
      match found with
      | some first =>
        .record (.ambiguousSplit text first cut)
        .noMatch (.ambiguous text)
      | none => findSplit left right text (some cut) cuts
    else findSplit left right text found cuts

/-- Two parts joined, or matched against the text between them. -/
def concat (left right : Matcher α) : Matcher α := fun context => do
  let l ← (left none).attempt
  let r ← (right none).attempt
  match l, r with
  | .ok l, .ok r => .text (l.toText ++ r.toText)
  | .ok l, .error _ =>
    let text ← Eval.contextText context
    let opening := l.toText
    if opening.isPrefixOf text then
      let r ← right (some (text.drop opening.length))
      .text (opening ++ r.toText)
    else .noMatch (.notAtStart text opening)
  | .error _, .ok r =>
    let text ← Eval.contextText context
    let ending := r.toText
    if ending.isSuffixOf text then
      let l ← left (some (text.take (text.length - ending.length)))
      .text (l.toText ++ ending)
    else .noMatch (.notAtEnd text ending)
  | .error _, .error _ =>
    let text ← Eval.contextText context
    let cut ← findSplit left right text none (List.range (text.length + 1))
    let l ← left (some (text.take cut))
    let r ← right (some (text.drop cut))
    .text (l.toText ++ r.toText)

end Matcher

/-- Evaluates an expression, matching it against a text if one is given. -/
def Expr.eval {α : Type} (clock : Clock) : Expr α → Matcher α
  | .integer _ n, _ => return .ofInt n
  | .string _ t, _ => .text t
  | .name a x, _ => if x = nowName then .now clock else .lookup a x
  | .dot _, context =>
    match context with
    | some t => .text t
    | none => .noMatch .noContext
  | .binary a op l r, context => do
    let m ← l.eval clock context
    let n ← r.eval clock context
    match op.apply? m.toInt n.toInt with
    | some v => return v
    | none => .fail .divisionByZero a
  | .and _ l r, context => do
    if (← l.eval clock context).toBool then
      return .bool (← r.eval clock context).toBool
    else return .bool false
  | .or _ l r, context => do
    if (← l.eval clock context).toBool then return .bool true
    else return .bool (← r.eval clock context).toBool
  | .not _ e, context => do
    return .bool !(← e.eval clock context).toBool
  | .concat _ l r, context => Matcher.concat (l.eval clock) (r.eval clock) context
  | .assign _ _ x e, context => do
    let v ← e.eval clock context
    .assign x v
    return v

end WireScript
