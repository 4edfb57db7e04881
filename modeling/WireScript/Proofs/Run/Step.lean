import WireScript.Proofs.Run.Line
import WireScript.Proofs.Run.Send

/-!
# What a statement can do

Everything that one statement can do to the world, said once.  `Stmt.Completes` lists the ways in
which a statement completes and `Stmt.Fails` the ways in which it ends the run, each with the world
it leaves and with what it takes to get there.  `completes_of_execute` and `fails_of_execute` say
that nothing else happens, so that a fact about every statement is proved by going through the
lists.

`Runs` does the same for a run: statements complete one after the other.  `runs_or_fails` says that
either all statements of a script do, or those in front of the first that fails, and
`Runs.execute_of_error` that the rest is never looked at.
-/

namespace WireScript

variable {α : Type} {clock : Clock}

/-! ## Operands and sends -/

namespace Exec

variable {note : α} {e : Expr α} {v : Value} {w w' : World} {halt : Halt α} {t : Text}

theorem operandValue_eq_ok (h : operandValue clock note e w = .ok v w') :
    ∃ m, e.eval clock none w.memory = .ok v m ∧ w' = { w with memory := m } := by
  obtain ⟨r, w₁, hr, h⟩ := bind_eq_ok_iff.1 h
  obtain ⟨m, hattempt, rfl⟩ := evaluate_eq_ok_iff.1 hr
  cases r with
  | ok u =>
    cases h
    exact ⟨m, Eval.attempt_eq_ok hattempt, rfl⟩
  | error f => cases h

/-- An operand without a text to match ends the run itself, or lacks a value. -/
theorem operandValue_eq_error (h : operandValue clock note e w = .error halt w') :
    (∃ m, e.eval clock none w.memory = .error (.halt halt) m ∧ w' = { w with memory := m }) ∨
      ∃ f m, e.eval clock none w.memory = .error (.noMatch f) m ∧
        halt = .failed .noReceivedText note ∧
        w' = { w with memory := { m with log := .noValue f :: m.log } } := by
  rcases bind_eq_error_iff.1 h with h | ⟨r, w₁, hr, h⟩
  · exact Or.inl (evaluate_eq_error_iff.1 h)
  · obtain ⟨m, hattempt, rfl⟩ := evaluate_eq_ok_iff.1 hr
    rcases Eval.attempt_eq_ok_iff.1 hattempt with ⟨u, rfl, _⟩ | ⟨f, rfl, hf⟩
    · cases h
    · cases h
      exact Or.inr ⟨f, m, hf, rfl, rfl⟩

theorem send_of_not_encodable (h : Utf8.encode t = none) :
    send note t w = .error .unencodable w := by
  unfold send
  simp only [h]
  rfl

theorem send_eq_ok (h : send note t w = .ok () w') :
    ∃ bytes, Utf8.encode t = some bytes ∧
      Fault.strikes w.channel.writeFault w.channel.writes = none ∧
      w' =
        { memory := { w.memory with log := .sent t :: w.memory.log }
          channel :=
            { w.channel with
              written := w.channel.written ++ bytes, writes := w.channel.writes + 1 } } := by
  cases hbytes : Utf8.encode t with
  | none =>
    rw [send_of_not_encodable hbytes] at h
    cases h
  | some bytes =>
    rw [send_of_encode hbytes] at h
    cases hstrikes : Fault.strikes w.channel.writeFault w.channel.writes with
    | some reason =>
      rw [Channel.write_of_strikes hstrikes] at h
      cases h
    | none =>
      rw [Channel.write_of_not_strikes hstrikes] at h
      cases h
      exact ⟨bytes, rfl, rfl, rfl⟩

/-- A send that fails has no bytes to write, or cannot write them, and leaves the world alone. -/
theorem send_eq_error (h : send note t w = .error halt w') :
    w' = w ∧
      ((Utf8.encode t = none ∧ halt = .unencodable) ∨
        ∃ reason, Fault.strikes w.channel.writeFault w.channel.writes = some reason ∧
          halt = .failed (.writeFailed reason) note) := by
  cases hbytes : Utf8.encode t with
  | none =>
    rw [send_of_not_encodable hbytes] at h
    cases h
    exact ⟨rfl, Or.inl ⟨rfl, rfl⟩⟩
  | some bytes =>
    rw [send_of_encode hbytes] at h
    cases hstrikes : Fault.strikes w.channel.writeFault w.channel.writes with
    | some reason =>
      rw [Channel.write_of_strikes hstrikes] at h
      cases h
      exact ⟨rfl, Or.inr ⟨reason, rfl, rfl⟩⟩
    | none =>
      rw [Channel.write_of_not_strikes hstrikes] at h
      cases h

end Exec

/-! ## Statements -/

namespace Stmt

open Exec

/-- The operand of a statement that has no text to match. -/
def lone? : Stmt α → Option (Expr α)
  | send _ e | assert _ e _ | expr _ e => some e
  | receive .. => none

theorem operand_of_lone? {s : Stmt α} {e : Expr α} (h : s.lone? = some e) : s.operand = e := by
  cases s with
  | receive => cases h
  | send | assert | expr => exact Option.some.inj h

/-- The ways in which a statement completes, and the world after it. -/
inductive Completes (clock : Clock) (w : World) : Stmt α → World → Prop where
  /-- The bytes of a value are written. -/
  | send {note : α} {e : Expr α} {v : Value} {m : Memory} {bytes : List UInt8}
      (hv : e.eval clock none w.memory = .ok v m) (hbytes : Utf8.encode v.toText = some bytes) :
      Completes clock w (.send note e)
        { memory := { m with log := .sent v.toText :: m.log }
          channel :=
            { w.channel with
              written := w.channel.written ++ bytes, writes := w.channel.writes + 1 } }
  /-- A line is read, and it is the value of the pattern. -/
  | receive {note : α} {p : Expr α} {source : Text} {line : List UInt8} {c : Channel} {v : Value}
      {m : Memory} (hread : w.channel.ReadsLine (.ok line) c)
      (hv : p.eval clock (some (Utf8.decode line)) (heard w (Utf8.decode line) c).memory = .ok v m)
      (htext : v.toText = Utf8.decode line) :
      Completes clock w (.receive note p source) { memory := m, channel := c }
  | assert {note : α} {e : Expr α} {source : Text} {v : Value} {m : Memory}
      (hv : e.eval clock none w.memory = .ok v m) (htrue : v.toBool = true) :
      Completes clock w (.assert note e source) { w with memory := m }
  | expr {note : α} {e : Expr α} {v : Value} {m : Memory}
      (hv : e.eval clock none w.memory = .ok v m) :
      Completes clock w (.expr note e) { w with memory := m }

/-- The ways in which a statement ends the run, and the world after it. -/
inductive Fails (clock : Clock) (w : World) : Stmt α → Halt α → World → Prop where
  /-- An operand without a text to match ends the run. -/
  | operand {s : Stmt α} {e : Expr α} {halt : Halt α} {m : Memory} (hs : s.lone? = some e)
      (h : e.eval clock none w.memory = .error (.halt halt) m) :
      Fails clock w s halt { w with memory := m }
  /-- An operand without a text to match has no value. -/
  | valueless {s : Stmt α} {e : Expr α} {f : MatchFailure} {m : Memory} (hs : s.lone? = some e)
      (h : e.eval clock none w.memory = .error (.noMatch f) m) :
      Fails clock w s (.failed .noReceivedText s.note)
        { w with memory := { m with log := .noValue f :: m.log } }
  /-- The value to send has no bytes. -/
  | unsendable {note : α} {e : Expr α} {v : Value} {m : Memory}
      (hv : e.eval clock none w.memory = .ok v m) (hbytes : Utf8.encode v.toText = none) :
      Fails clock w (.send note e) .unencodable { w with memory := m }
  /-- The bytes of the value cannot be written. -/
  | unwritten {note : α} {e : Expr α} {v : Value} {m : Memory} {reason : Text}
      (hv : e.eval clock none w.memory = .ok v m)
      (hstrikes : Fault.strikes w.channel.writeFault w.channel.writes = some reason) :
      Fails clock w (.send note e) (.failed (.writeFailed reason) note) { w with memory := m }
  /-- No line can be read. -/
  | unread {note : α} {p : Expr α} {source : Text} {error : ReadError} {c : Channel}
      (hread : w.channel.ReadsLine (.error error) c) :
      Fails clock w (.receive note p source) (.failed (.readFailed error) note)
        { w with channel := c }
  /-- The pattern ends the run while the line is matched. -/
  | pattern {note : α} {p : Expr α} {source : Text} {line : List UInt8} {c : Channel}
      {halt : Halt α} {m : Memory} (hread : w.channel.ReadsLine (.ok line) c)
      (h : p.eval clock (some (Utf8.decode line)) (heard w (Utf8.decode line) c).memory =
        .error (.halt halt) m) :
      Fails clock w (.receive note p source) halt { memory := m, channel := c }
  /-- The line does not match, or does in more than one way. -/
  | unmatched {note : α} {p : Expr α} {source : Text} {line : List UInt8} {c : Channel}
      {f : MatchFailure} {m : Memory} {error : RuntimeError}
      (hread : w.channel.ReadsLine (.ok line) c)
      (h : p.eval clock (some (Utf8.decode line)) (heard w (Utf8.decode line) c).memory =
        .error (.noMatch f) m)
      (herror : ∃ content, error =
        if f.isAmbiguous then .ambiguousMatch content source else .noMatch content source) :
      Fails clock w (.receive note p source) (.failed error note) { memory := m, channel := c }
  /-- The line is not the value of the pattern. -/
  | mismatch {note : α} {p : Expr α} {source : Text} {line : List UInt8} {c : Channel} {v : Value}
      {m : Memory} (hread : w.channel.ReadsLine (.ok line) c)
      (hv : p.eval clock (some (Utf8.decode line)) (heard w (Utf8.decode line) c).memory = .ok v m)
      (htext : v.toText ≠ Utf8.decode line) :
      Fails clock w (.receive note p source) (.failed (.mismatch (Utf8.decode line) v.toText) note)
        { memory := m, channel := c }
  /-- A condition does not hold. -/
  | untrue {note : α} {e : Expr α} {source : Text} {v : Value} {m : Memory}
      (hv : e.eval clock none w.memory = .ok v m) (hfalse : v.toBool = false) :
      Fails clock w (.assert note e source) (.failed (.assertionFailed source) note)
        { w with memory := m }

variable {s : Stmt α} {w w' : World} {halt : Halt α}

/-- What an operand does that ends the run. -/
theorem fails_of_operandValue {e : Expr α} (hs : s.lone? = some e)
    (h : operandValue clock s.note e w = .error halt w') : s.Fails clock w halt w' := by
  rcases operandValue_eq_error h with ⟨m, heval, rfl⟩ | ⟨f, m, heval, rfl, rfl⟩
  · exact .operand hs heval
  · exact .valueless hs heval

/-- A statement that completes does so in one of the ways listed. -/
theorem completes_of_execute (h : s.execute clock w = .ok () w') : s.Completes clock w w' := by
  cases s with
  | send note e =>
    obtain ⟨v, w₁, hoperand, h⟩ := bind_eq_ok_iff.1 h
    obtain ⟨m, hv, rfl⟩ := operandValue_eq_ok hoperand
    obtain ⟨bytes, hbytes, _, rfl⟩ := send_eq_ok h
    exact .send hv hbytes
  | receive note p source =>
    rcases hline : w.channel.readLine with ⟨r, c⟩
    cases r with
    | error error =>
      rw [execute_receive_eq_judge, bind_of_error (receive_of_error hline note)] at h
      cases h
    | ok line =>
      obtain ⟨v, m, hv, htext, rfl⟩ := (execute_receive_eq_ok_iff hline).1 h
      exact .receive (Channel.readsLine_iff.2 hline) hv htext
  | assert note e source =>
    obtain ⟨v, w₁, hoperand, h⟩ := bind_eq_ok_iff.1 h
    obtain ⟨m, hv, rfl⟩ := operandValue_eq_ok hoperand
    split at h
    · next htrue =>
      cases h
      exact .assert hv htrue
    · cases h
  | expr note e =>
    obtain ⟨v, w₁, hoperand, h⟩ := bind_eq_ok_iff.1 h
    obtain ⟨m, hv, rfl⟩ := operandValue_eq_ok hoperand
    cases h
    exact .expr hv

/-- A statement that ends the run does so in one of the ways listed. -/
theorem fails_of_execute (h : s.execute clock w = .error halt w') : s.Fails clock w halt w' := by
  cases s with
  | send note e =>
    rcases bind_eq_error_iff.1 h with h | ⟨v, w₁, hoperand, h⟩
    · exact fails_of_operandValue rfl h
    · obtain ⟨m, hv, rfl⟩ := operandValue_eq_ok hoperand
      obtain ⟨rfl, ⟨hbytes, rfl⟩ | ⟨reason, hstrikes, rfl⟩⟩ := send_eq_error h
      · exact .unsendable hv hbytes
      · exact .unwritten hv hstrikes
  | receive note p source =>
    rcases hline : w.channel.readLine with ⟨r, c⟩
    have hread := Channel.readsLine_iff.2 hline
    rw [execute_receive_eq_judge] at h
    cases r with
    | error error =>
      rw [bind_of_error (receive_of_error hline note)] at h
      cases h
      exact .unread hread
    | ok line =>
      rw [bind_of_ok (receive_of_line hline note)] at h
      rcases bind_eq_error_iff.1 h with h | ⟨r, w₁, hmatch, h⟩
      · obtain ⟨m, hhalt, rfl⟩ := evaluate_eq_error_iff.1 h
        exact .pattern hread hhalt
      · obtain ⟨m, hattempt, rfl⟩ := evaluate_eq_ok_iff.1 hmatch
        rcases Eval.attempt_eq_ok_iff.1 hattempt with ⟨v, rfl, hv⟩ | ⟨f, rfl, hf⟩
        · by_cases htext : v.toText = Utf8.decode line
          · rw [judge_of_toText htext] at h
            cases h
          · rw [judge, if_neg htext] at h
            cases h
            exact .mismatch hread hv htext
        · by_cases hambiguous : f.isAmbiguous
          · rw [judge, if_pos hambiguous] at h
            cases h
            exact .unmatched hread hf ⟨_, (if_pos hambiguous).symm⟩
          · rw [judge, if_neg hambiguous] at h
            cases h
            exact .unmatched hread hf ⟨_, (if_neg hambiguous).symm⟩
  | assert note e source =>
    rcases bind_eq_error_iff.1 h with h | ⟨v, w₁, hoperand, h⟩
    · exact fails_of_operandValue rfl h
    · obtain ⟨m, hv, rfl⟩ := operandValue_eq_ok hoperand
      split at h
      · cases h
      · next hfalse =>
        cases h
        exact .untrue hv (Bool.eq_false_iff.2 hfalse)
  | expr note e =>
    rcases bind_eq_error_iff.1 h with h | ⟨v, w₁, hv, h⟩
    · exact fails_of_operandValue rfl h
    · cases h

end Stmt

/-! ## Runs -/

variable {ss done : List (Stmt α)} {w w₁ w' : World}

/-- Statements complete one after the other. -/
inductive Runs (clock : Clock) : List (Stmt α) → World → World → Prop where
  | nil (w : World) : Runs clock [] w w
  | cons {s : Stmt α} {ss : List (Stmt α)} {w w₁ w' : World} (hs : s.execute clock w = .ok () w₁)
      (hss : Runs clock ss w₁ w') : Runs clock (s :: ss) w w'

/-- A run passes over statements that complete. -/
theorem Runs.executeFrom_append (h : Runs clock done w w₁) (completed : Nat)
    (ss : List (Stmt α)) :
    executeFrom clock completed (done ++ ss) w =
      executeFrom clock (completed + done.length) ss w₁ := by
  induction h generalizing completed with
  | nil w => rfl
  | cons hs _ ih =>
    rw [List.cons_append, executeFrom, hs]
    dsimp only
    rw [ih, List.length_cons, Nat.add_right_comm, Nat.add_assoc]

/-- A script whose statements all complete ends well. -/
theorem Runs.execute (h : Runs clock ss w w') (note : α) :
    (⟨note, ss⟩ : Script α).execute clock w = (⟨ss.length, none⟩, w') := by
  have hall := h.executeFrom_append 0 []
  rwa [List.append_nil, Nat.zero_add] at hall

/-- The first statement that fails ends the run, and what stands behind it is never looked at. -/
theorem Runs.execute_of_error {s : Stmt α} {halt : Halt α} (h : Runs clock done w w₁)
    (hs : s.execute clock w₁ = .error halt w') (note : α) (rest : List (Stmt α)) :
    (⟨note, done ++ s :: rest⟩ : Script α).execute clock w = (⟨done.length, some halt⟩, w') := by
  rw [Script.execute, h.executeFrom_append, executeFrom, hs, Nat.zero_add]

/-- Statements complete, all of them or up to the first that fails. -/
theorem runs_or_fails (clock : Clock) (ss : List (Stmt α)) (w : World) :
    (∃ w', Runs clock ss w w') ∨
      ∃ done s rest w₁ halt w', ss = done ++ s :: rest ∧ Runs clock done w w₁ ∧
        s.execute clock w₁ = .error halt w' := by
  induction ss generalizing w with
  | nil => exact Or.inl ⟨w, .nil w⟩
  | cons s ss ih =>
    cases hs : s.execute clock w with
    | ok u w₁ =>
      rcases ih w₁ with ⟨w', hss⟩ | ⟨done, s', rest, w₂, halt, w', rfl, hdone, hs'⟩
      · exact Or.inl ⟨w', .cons hs hss⟩
      · exact Or.inr ⟨s :: done, s', rest, w₂, halt, w', rfl, .cons hs hdone, hs'⟩
    | error halt w' => exact Or.inr ⟨[], s, ss, w, halt, w', rfl, .nil w, hs⟩

end WireScript
