import WireScript.Proofs.Run.Outcome
import WireScript.Proofs.Text.Decoding
import WireScript.Run.Execute

/-!
# Receiving

What a receive does, step by step: it reads a line, matches the pattern against the line's text in
the memory at hand, and fails unless the value is the line again.
-/

namespace WireScript

variable {α β : Type}

namespace Channel

theorem readLineFrom_line (front taken : List UInt8) (h : ∀ b ∈ front, b ≠ 0x0A) (reads : Nat) :
    (readLineFrom none taken reads (front ++ [0x0D, 0x0A])).1 =
      .ok (taken.reverse ++ (front ++ [0x0D, 0x0A])) := by
  induction front generalizing taken reads with
  | nil => simp [readLineFrom, Fault.strikes]
  | cons b front ih =>
    obtain ⟨hb, hfront⟩ := List.forall_mem_cons.1 h
    rw [List.cons_append, readLineFrom]
    simp only [Fault.strikes, hb, false_and, if_false]
    rw [ih (b :: taken) hfront]
    simp

/-- A line without another line feed in it is read as it is. -/
theorem exists_readLine {front : List UInt8} (h : ∀ b ∈ front, b ≠ 0x0A) :
    ∃ channel, readLine { incoming := front ++ [0x0D, 0x0A] } =
      (.ok (front ++ [0x0D, 0x0A]), channel) := by
  have hline := readLineFrom_line front [] h 0
  refine ⟨(readLine { incoming := front ++ [0x0D, 0x0A] }).2, ?_⟩
  exact Prod.ext hline rfl

end Channel

namespace Exec

/-- The world after a line was read from the channel that is left. -/
def heard (w : World) (line : Text) (channel : Channel) : World :=
  { memory := { w.memory with log := .received line :: w.memory.log }, channel := channel }

theorem receive_of_line {w : World} {bytes : List UInt8} {channel : Channel}
    (h : w.channel.readLine = (.ok bytes, channel)) (note : α) :
    receive note w = .ok (Utf8.decode bytes) (heard w (Utf8.decode bytes) channel) := by
  unfold receive
  rw [bind_of_ok (show (get : Exec α World) w = .ok w w from rfl), h]
  rfl

theorem receive_of_error {w : World} {e : ReadError} {channel : Channel}
    (h : w.channel.readLine = (.error e, channel)) (note : α) :
    receive note w = .error (.failed (.readFailed e) note) { w with channel := channel } := by
  unfold receive
  rw [bind_of_ok (show (get : Exec α World) w = .ok w w from rfl), h]
  rfl

/-- A line that was received is the text of some bytes. -/
theorem isDecoded_of_receive {w w' : World} {note : α} {line : Text}
    (h : receive note w = .ok line w') : line.IsDecoded := by
  rcases hline : w.channel.readLine with ⟨read, channel⟩
  cases read with
  | ok bytes =>
    rw [receive_of_line hline] at h
    cases h
    exact Text.isDecoded_decode bytes
  | error e =>
    rw [receive_of_error hline] at h
    cases h

/-- Receiving fails only when reading does. -/
theorem receive_eq_error {w w' : World} {note note' : α} {error : RuntimeError}
    (h : receive note w = .error (.failed error note') w') : ∃ e, error = .readFailed e := by
  rcases hline : w.channel.readLine with ⟨read, channel⟩
  cases read with
  | ok bytes =>
    rw [receive_of_line hline] at h
    cases h
  | error e =>
    rw [receive_of_error hline] at h
    cases h
    exact ⟨e, rfl⟩

theorem evaluate_of_attempt {x : Eval α β} {w : World} {r : Except MatchFailure β} {m : Memory}
    (h : x.attempt w.memory = .ok r m) : evaluate x w = .ok r { w with memory := m } := by
  simp only [evaluate, h]

theorem evaluate_eq_ok_iff {x : Eval α β} {w w' : World} {r : Except MatchFailure β} :
    evaluate x w = .ok r w' ↔
      ∃ m, x.attempt w.memory = .ok r m ∧ w' = { w with memory := m } := by
  cases h : x.attempt w.memory with
  | ok r₁ m₁ =>
    rw [evaluate_of_attempt h]
    constructor
    · intro heq
      cases heq
      exact ⟨m₁, rfl, rfl⟩
    · rintro ⟨m, heq, rfl⟩
      cases heq
      rfl
  | error e m₁ =>
    cases e with
    | noMatch f => exact absurd h (by simp)
    | halt e =>
      simp only [evaluate, h]
      constructor
      · intro heq
        cases heq
      · rintro ⟨m, heq, _⟩
        cases heq

theorem evaluate_eq_error_iff {x : Eval α β} {w w' : World} {e : Halt α} :
    evaluate x w = .error e w' ↔
      ∃ m, x w.memory = .error (.halt e) m ∧ w' = { w with memory := m } := by
  cases h : x w.memory with
  | ok v m₁ =>
    rw [evaluate_of_attempt (Eval.attempt_of_ok h)]
    constructor
    · intro heq
      cases heq
    · rintro ⟨m, heq, _⟩
      cases heq
  | error stop m₁ =>
    cases stop with
    | noMatch f =>
      rw [evaluate_of_attempt (Eval.attempt_of_noMatch h)]
      constructor
      · intro heq
        cases heq
      · rintro ⟨m, heq, _⟩
        cases heq
    | halt e₁ =>
      simp only [evaluate, Eval.attempt, h]
      constructor
      · intro heq
        cases heq
        exact ⟨m₁, rfl, rfl⟩
      · rintro ⟨m, heq, rfl⟩
        cases heq
        rfl

/-- What a receive makes of the outcome of its match. -/
def judge (note : α) (source line : Text) : Except MatchFailure Value → Exec α Unit
  | .error failure =>
    if failure.isAmbiguous then fail (.ambiguousMatch (line.take (line.length - 2)) source) note
    else fail (.noMatch (line.take (line.length - 2)) source) note
  | .ok v => if v.toText = line then pure () else fail (.mismatch line v.toText) note

/-- A receive ends well when the value is the line. -/
theorem judge_of_toText {note : α} {source line : Text} {v : Value} (h : v.toText = line)
    (w : World) : judge note source line (.ok v) w = .ok () w := by
  have hjudge : judge note source line (.ok v) = pure () := if_pos h
  rw [hjudge]
  rfl

/-- A match that is ambiguous is judged so, and no other outcome is. -/
theorem judge_eq_ambiguousMatch_iff {note : α} {source line : Text}
    {r : Except MatchFailure Value} {w w' : World} :
    judge note source line r w =
        .error (.failed (.ambiguousMatch (line.take (line.length - 2)) source) note) w' ↔
      w' = w ∧ ∃ f, r = .error f ∧ f.isAmbiguous = true := by
  cases r with
  | ok v =>
    have hne : judge note source line (.ok v) w ≠
        .error (.failed (.ambiguousMatch (line.take (line.length - 2)) source) note) w' := by
      intro h
      by_cases hv : v.toText = line
      · rw [judge, if_pos hv] at h
        cases h
      · rw [judge, if_neg hv] at h
        cases h
    simp [hne]
  | error f =>
    by_cases hf : f.isAmbiguous
    · rw [judge, if_pos hf]
      constructor
      · intro h
        cases h
        exact ⟨rfl, f, rfl, hf⟩
      · rintro ⟨rfl, _⟩
        rfl
    · rw [judge, if_neg hf]
      constructor
      · intro h
        cases h
      · rintro ⟨_, f', heq, hf'⟩
        cases heq
        exact absurd hf' hf

end Exec

namespace Stmt

open Exec

variable {clock : Clock} {note : α} {p : Expr α} {source : Text} {w : World}

theorem execute_receive_eq_judge :
    (Stmt.receive note p source).execute clock =
      Exec.receive note >>= fun line =>
        evaluate (p.eval clock (some line)) >>= judge note source line := by
  unfold execute
  congr 1

/-- When a line was read, the outcome of the match decides. -/
theorem execute_receive_of_attempt {bytes : List UInt8} {channel : Channel}
    {r : Except MatchFailure Value} {m : Memory}
    (hline : w.channel.readLine = (.ok bytes, channel))
    (hmatch : (p.eval clock (some (Utf8.decode bytes))).attempt
      (heard w (Utf8.decode bytes) channel).memory = .ok r m) :
    (Stmt.receive note p source).execute clock w =
      judge note source (Utf8.decode bytes) r { memory := m, channel := channel } := by
  rw [execute_receive_eq_judge, bind_of_ok (receive_of_line hline note),
    bind_of_ok (evaluate_of_attempt hmatch)]
  rfl

/-- A receive ends well exactly if the match of its line has a value, and this is the line. -/
theorem execute_receive_eq_ok_iff {bytes : List UInt8} {channel : Channel} {w' : World}
    (hline : w.channel.readLine = (.ok bytes, channel)) :
    (Stmt.receive note p source).execute clock w = .ok () w' ↔
      ∃ v m, (p.eval clock (some (Utf8.decode bytes)))
          (heard w (Utf8.decode bytes) channel).memory = .ok v m ∧
        v.toText = Utf8.decode bytes ∧ w' = { memory := m, channel := channel } := by
  constructor
  · intro h
    rw [execute_receive_eq_judge, bind_of_ok (receive_of_line hline note)] at h
    obtain ⟨r, w₁, hmatch, hjudge⟩ := bind_eq_ok_iff.1 h
    obtain ⟨m, hattempt, hw₁⟩ := evaluate_eq_ok_iff.1 hmatch
    cases r with
    | ok v =>
      by_cases hv : v.toText = Utf8.decode bytes
      · rw [judge_of_toText hv, hw₁] at hjudge
        cases hjudge
        exact ⟨v, m, Eval.attempt_eq_ok hattempt, hv, rfl⟩
      · rw [judge, if_neg hv] at hjudge
        cases hjudge
    | error f =>
      by_cases hf : f.isAmbiguous
      · rw [judge, if_pos hf] at hjudge
        cases hjudge
      · rw [judge, if_neg hf] at hjudge
        cases hjudge
  · intro h
    obtain ⟨v, m, hv, htext, hw'⟩ := h
    rw [execute_receive_of_attempt hline (Eval.attempt_of_ok hv), judge_of_toText htext, hw']

/-- A receive that ends well has matched its line. -/
theorem succeeds_of_execute_receive {bytes : List UInt8} {channel : Channel} {w' : World}
    (hline : w.channel.readLine = (.ok bytes, channel))
    (h : (Stmt.receive note p source).execute clock w = .ok () w') :
    Eval.Succeeds (p.eval clock (some (Utf8.decode bytes)))
      (heard w (Utf8.decode bytes) channel).memory := by
  obtain ⟨v, m, hv, _⟩ := (execute_receive_eq_ok_iff hline).1 h
  exact ⟨v, m, hv⟩

end Stmt

end WireScript
