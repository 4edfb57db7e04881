import WireScript.Proofs.Run.Receive

/-!
# Sending

What a send does: it evaluates its operand without a text to match, and writes the bytes of the
value.  All of the bytes are written or none, and then the run ends.  Where the operand is a
concatenation of parts with values of their own, the bytes of one stand in front of the bytes of the
other (`Expr.exists_eval_concat`).
-/

namespace WireScript

namespace Channel

variable {c : Channel} {bytes : List UInt8}

theorem write_of_strikes {reason : Text} (h : Fault.strikes c.writeFault c.writes = some reason) :
    c.write bytes = .error reason := by
  simp only [write, h]

theorem write_of_not_strikes (h : Fault.strikes c.writeFault c.writes = none) :
    c.write bytes = .ok { c with written := c.written ++ bytes, writes := c.writes + 1 } := by
  simp only [write, h]

end Channel

namespace Exec

variable {α : Type} {clock : Clock} {note : α} {e : Expr α} {v : Value} {w : World} {m : Memory}
  {bytes : List UInt8}

theorem operandValue_of_ok (h : e.eval clock none w.memory = .ok v m) :
    operandValue clock note e w = .ok v { w with memory := m } := by
  have hattempt : evaluate (e.eval clock none) w = .ok (.ok v) { w with memory := m } :=
    evaluate_of_attempt (Eval.attempt_of_ok h)
  unfold operandValue
  rw [bind_of_ok hattempt]
  rfl

/-- Sending a text with bytes comes down to a write of the bytes. -/
theorem send_of_encode {t : Text} (h : Utf8.encode t = some bytes) :
    send note t w =
      match w.channel.write bytes with
      | .error reason => .error (.failed (.writeFailed reason) note) w
      | .ok channel =>
        .ok ()
          { memory := { w.memory with log := .sent t :: w.memory.log }, channel := channel } := by
  unfold send
  simp only [h]
  rw [bind_of_ok (show (get : Exec α World) w = .ok w w from rfl)]
  cases w.channel.write bytes with
  | error reason => rfl
  | ok channel => rfl

end Exec

/-- Two texts joined have the bytes of both, though the text of the join may be another one. -/
theorem Expr.exists_eval_concat {α : Type} {clock : Clock} {l r : Expr α} {v w : Value}
    {m : Memory} {bytes bytes' : List UInt8} (hl : l.eval clock none m = .ok v m)
    (hr : r.eval clock none m = .ok w m) (hv : Utf8.encode v.toText = some bytes)
    (hw : Utf8.encode w.toText = some bytes') :
    ∃ u, (∀ note, (Expr.concat note l r).eval clock none m = .ok u m) ∧
      Utf8.encode u.toText = some (bytes ++ bytes') := by
  have hboth : Utf8.encode (v.toText ++ w.toText) = some (bytes ++ bytes') := by
    rw [Utf8.encode_append, hv, hw]
    rfl
  have hcanonical : (v.toText ++ w.toText).canonical = some (Utf8.decode (bytes ++ bytes')) := by
    rw [Text.canonical, hboth]
    rfl
  refine ⟨.text (Utf8.decode (bytes ++ bytes')), fun note => ?_, Utf8.encode_decode _⟩
  rw [eval, Matcher.concat_of_attempts (Eval.attempt_of_ok hl) (Eval.attempt_of_ok hr)]
  exact Eval.text_of_canonical hcanonical m

namespace Stmt

open Exec

variable {α : Type} {clock : Clock} {note : α} {e : Expr α} {v : Value} {w : World} {m : Memory}

theorem execute_send_of_eval (h : e.eval clock none w.memory = .ok v m) :
    (Stmt.send note e).execute clock w = Exec.send note v.toText { w with memory := m } := by
  show (operandValue clock note e >>= fun v => Exec.send note v.toText) w = _
  rw [bind_of_ok (operandValue_of_ok h)]

end Stmt

end WireScript
