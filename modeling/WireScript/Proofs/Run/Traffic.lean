import WireScript.Proofs.Run.Halt
import WireScript.Proofs.Run.Step

/-!
# The traffic of a run

Where the bytes of a run go.  Everything that a run writes is the text of a send that completed, and
everything that it takes from the peer is a line that a receive asked for, or what the receive that
ended the run had taken by then.

* `Exchange` is what one statement takes and gives, and `Stmt.Exchanges` says what that is for a
  statement that completes.  `Stmt.TakesFailing` says what a statement that fails has taken.
* `Account` goes along the statements that complete, one exchange for each of them, and
  `Account.incoming_eq` and `Account.written_eq` add them up.
* `traffic_accounted` is the account of a whole run.
-/

namespace WireScript

variable {α : Type} {clock : Clock}

/-- The bytes that pass between a statement and the peer. -/
structure Exchange where
  taken : List UInt8
  given : List UInt8

namespace Stmt

/-! ## One statement -/

/-- What a statement exchanges when it completes: a send gives the text of its value, a receive
takes a line, and other statements neither give nor take anything. -/
inductive Exchanges (clock : Clock) (m : Memory) : Stmt α → Exchange → Prop where
  | send {note : α} {e : Expr α} {v : Value} {m' : Memory} {bytes : List UInt8}
      (hv : e.eval clock none m = .ok v m') (hbytes : Utf8.encode v.toText = some bytes) :
      Exchanges clock m (.send note e) ⟨[], bytes⟩
  | receive {note : α} {p : Expr α} {source : Text} {line : List UInt8}
      (hline : Channel.IsLine line) : Exchanges clock m (.receive note p source) ⟨line, []⟩
  | assert {note : α} {e : Expr α} {source : Text} :
      Exchanges clock m (.assert note e source) ⟨[], []⟩
  | expr {note : α} {e : Expr α} : Exchanges clock m (.expr note e) ⟨[], []⟩

/-- What a statement that fails has taken from a channel: nothing, unless it is a receive. -/
inductive TakesFailing (c : Channel) : Stmt α → Halt α → List UInt8 → Prop where
  /-- The connection was closed before the line ended, and all that was left is taken. -/
  | closed {note : α} {p : Expr α} {source : Text}
      (hnone : ¬ Channel.lineMark <:+: c.incoming) :
      TakesFailing c (.receive note p source)
        (.failed (.readFailed (.closed c.incoming.length)) note) c.incoming
  /-- A byte of the line could not be read, and the bytes before it are taken. -/
  | unreadable {note : α} {p : Expr α} {source : Text} {count : Nat} {reason : Text}
      (hcount : count ≤ c.incoming.length)
      (hnone : ¬ Channel.lineMark <:+: c.incoming.take count) (hspared : c.Spares count)
      (hstrikes : Fault.strikes c.readFault (c.reads + count) = some reason) :
      TakesFailing c (.receive note p source) (.failed (.readFailed (.failed reason)) note)
        (c.incoming.take count)
  /-- The line was read, and something else went wrong. -/
  | judged {note : α} {p : Expr α} {source : Text} {halt : Halt α} {line : List UInt8}
      (hline : Channel.IsLine line)
      (hhalt : ∀ error note', halt ≠ .failed (.readFailed error) note') :
      TakesFailing c (.receive note p source) halt line
  /-- No other statement takes anything. -/
  | lone {s : Stmt α} {e : Expr α} {halt : Halt α} (hs : s.lone? = some e) :
      TakesFailing c s halt []

variable {s : Stmt α} {w w' : World} {halt : Halt α}

/-- What a statement exchanges when it completes is what the channel before it and the channel after
it differ by. -/
theorem exists_exchange (h : s.execute clock w = .ok () w') :
    ∃ x, s.Exchanges clock w.memory x ∧ w.channel.incoming = x.taken ++ w'.channel.incoming ∧
      w'.channel.written = w.channel.written ++ x.given := by
  cases completes_of_execute h with
  | send hv hbytes => exact ⟨_, .send hv hbytes, rfl, rfl⟩
  | receive hread =>
    cases hread with
    | line hnext hline =>
      refine ⟨_, .receive hline, (List.prefix_iff_eq_append.1 hnext).symm, ?_⟩
      exact (List.append_nil _).symm
  | assert => exact ⟨_, .assert, rfl, (List.append_nil _).symm⟩
  | expr => exact ⟨_, .expr, rfl, (List.append_nil _).symm⟩

/-- A statement that fails gives nothing. -/
theorem exists_taken (h : s.execute clock w = .error halt w') :
    ∃ taken, s.TakesFailing w.channel halt taken ∧
      w.channel.incoming = taken ++ w'.channel.incoming ∧
      w'.channel.written = w.channel.written := by
  cases fails_of_execute h with
  | operand hs => exact ⟨[], .lone hs, rfl, rfl⟩
  | valueless hs => exact ⟨[], .lone hs, rfl, rfl⟩
  | unsendable => exact ⟨[], .lone rfl, rfl, rfl⟩
  | unwritten => exact ⟨[], .lone rfl, rfl, rfl⟩
  | untrue => exact ⟨[], .lone rfl, rfl, rfl⟩
  | unread hread =>
    cases hread with
    | closed hnone =>
      refine ⟨_, .closed hnone, ?_, rfl⟩
      rw [Channel.past, List.drop_eq_nil_of_le (Nat.le_succ _), List.append_nil]
    | failed hcount hnone hspared hstrikes =>
      exact ⟨_, .unreadable hcount hnone hspared hstrikes, (List.take_append_drop _ _).symm, rfl⟩
  | pattern hread heval =>
    cases hread with
    | line hnext hline =>
      refine ⟨_, .judged hline ?_, (List.prefix_iff_eq_append.1 hnext).symm, rfl⟩
      rintro error note' rfl
      exact Expr.haltsOnly_eval clock _ _ _ _ _ _ heval
  | unmatched hread _ herror =>
    cases hread with
    | line hnext hline =>
      refine ⟨_, .judged hline ?_, (List.prefix_iff_eq_append.1 hnext).symm, rfl⟩
      rintro error note' heq
      obtain ⟨content, herror⟩ := herror
      split at herror <;> · subst herror; cases heq
  | mismatch hread =>
    cases hread with
    | line hnext hline =>
      refine ⟨_, .judged hline ?_, (List.prefix_iff_eq_append.1 hnext).symm, rfl⟩
      rintro error note' heq
      cases heq

end Stmt

/-! ## Runs -/

/-- Statements that complete one after the other, with what each of them exchanges. -/
inductive Account (clock : Clock) : List (Stmt α) → World → List Exchange → World → Prop where
  | nil (w : World) : Account clock [] w [] w
  | cons {s : Stmt α} {ss : List (Stmt α)} {x : Exchange} {xs : List Exchange} {w w₁ w' : World}
      (hs : s.execute clock w = .ok () w₁) (hx : s.Exchanges clock w.memory x)
      (htaken : w.channel.incoming = x.taken ++ w₁.channel.incoming)
      (hgiven : w₁.channel.written = w.channel.written ++ x.given)
      (hss : Account clock ss w₁ xs w') : Account clock (s :: ss) w (x :: xs) w'

variable {ss : List (Stmt α)} {xs : List Exchange} {w w' : World}

theorem Runs.exists_account (h : Runs clock ss w w') : ∃ xs, Account clock ss w xs w' := by
  induction h with
  | nil w => exact ⟨[], .nil w⟩
  | cons hs _ ih =>
    obtain ⟨x, hx, htaken, hgiven⟩ := Stmt.exists_exchange hs
    obtain ⟨xs, hxs⟩ := ih
    exact ⟨x :: xs, .cons hs hx htaken hgiven hxs⟩

theorem Account.incoming_eq (h : Account clock ss w xs w') :
    w.channel.incoming = xs.flatMap (·.taken) ++ w'.channel.incoming := by
  induction h with
  | nil w => rfl
  | cons _ _ htaken _ _ ih => rw [htaken, ih, List.flatMap_cons, List.append_assoc]

theorem Account.written_eq (h : Account clock ss w xs w') :
    w'.channel.written = w.channel.written ++ xs.flatMap (·.given) := by
  induction h with
  | nil w => exact (List.append_nil _).symm
  | cons _ _ _ hgiven _ ih => rw [ih, hgiven, List.flatMap_cons, List.append_assoc]

/-- All traffic of a run is accounted for.  The statements that complete are those in front, and
what the run writes is what they give, in order.  What the peer sent is what they take, in order,
and then what the statement that fails has taken, and then what is left.  Whatever stands behind the
statement that fails has no effect: with other statements in its place the run ends the same way and
in the same world. -/
theorem traffic_accounted (clock : Clock) (script : Script α) (w : World) :
    ∃ done after xs w₁ last,
      script.statements = done ++ after ∧
      (script.execute clock w).1.completed = done.length ∧
      Account clock done w xs w₁ ∧
      (script.execute clock w).2.channel.written = w.channel.written ++ xs.flatMap (·.given) ∧
      w.channel.incoming =
        xs.flatMap (·.taken) ++ last ++ (script.execute clock w).2.channel.incoming ∧
      ((after = [] ∧ last = [] ∧ script.execute clock w = (⟨done.length, none⟩, w₁)) ∨
        ∃ s rest halt w', after = s :: rest ∧ s.execute clock w₁ = .error halt w' ∧
          s.TakesFailing w₁.channel halt last ∧
          ∀ others, (⟨script.note, done ++ s :: others⟩ : Script α).execute clock w =
            (⟨done.length, some halt⟩, w')) := by
  obtain ⟨note, ss⟩ := script
  rcases runs_or_fails clock ss w with
    ⟨w', hrun⟩ | ⟨done, s, rest, w₁, halt, w', rfl, hdone, hs⟩
  · obtain ⟨xs, hxs⟩ := hrun.exists_account
    have hend := hrun.execute note
    refine ⟨ss, [], xs, w', [], (List.append_nil _).symm, ?_, hxs, ?_, ?_, Or.inl ⟨rfl, rfl, hend⟩⟩
    · rw [hend]
    · rw [hend]
      exact hxs.written_eq
    · rw [hend, List.append_nil]
      exact hxs.incoming_eq
  · obtain ⟨xs, hxs⟩ := hdone.exists_account
    obtain ⟨last, htakes, htaken, hgiven⟩ := Stmt.exists_taken hs
    have hend := hdone.execute_of_error hs note
    refine ⟨done, s :: rest, xs, w₁, last, rfl, ?_, hxs, ?_, ?_,
      Or.inr ⟨s, rest, halt, w', rfl, hs, htakes, hend⟩⟩
    · rw [hend]
    · rw [hend, hgiven]
      exact hxs.written_eq
    · rw [hend, List.append_assoc, ← htaken]
      exact hxs.incoming_eq

end WireScript
