import WireScript.Proofs.Run.Step

/-!
# Nothing is read ahead

A run looks at the bytes that it takes from the peer and at no others.  Unless it ends because the
connection was closed, it does the same with other bytes behind those that it took, and leaves these
unread (`Script.execute_reads_no_further`).

* `expecting` puts other bytes in the place of those still to come, and `Taking` says that bytes are
  taken from one world to the next in a way that does not depend on what stands behind them.
* Most computations do not look at the incoming bytes at all (`IsDeaf`).  Reading a line does, and
  takes the bytes that it has looked at (`Channel.ReadsLine.expecting`).
* `IsFrugal` is what both have in common, and what statements and runs inherit from them.
-/

namespace WireScript

/-! ## Bytes still to come -/

namespace Channel

/-- The same channel with other bytes still to come. -/
def expecting (c : Channel) (bytes : List UInt8) : Channel :=
  { c with incoming := bytes }

theorem write_expecting (c : Channel) (bytes u : List UInt8) :
    (c.expecting u).write bytes = (c.write bytes).map (·.expecting u) := by
  simp only [write, expecting]
  split <;> rfl

theorem incoming_of_write {c d : Channel} {bytes : List UInt8} (h : c.write bytes = .ok d) :
    d.incoming = c.incoming := by
  unfold write at h
  split at h <;> cases h
  rfl

/-- Which line is read, and that a byte cannot be read, is settled by the bytes that are taken.
Only the end of the connection depends on there being no more of them. -/
theorem ReadsLine.expecting {c d : Channel} {r : Except ReadError (List UInt8)}
    (h : c.ReadsLine r d) (hr : ∀ count, r ≠ .error (.closed count)) :
    ∃ taken, c.incoming = taken ++ d.incoming ∧
      ∀ u, (c.expecting (taken ++ u)).ReadsLine r (d.expecting u) := by
  cases h with
  | @line line hnext hline hspared =>
    refine ⟨line, (List.prefix_iff_eq_append.1 hnext).symm, fun u => ?_⟩
    have htaken : (c.expecting (line ++ u)).past line.length =
        (c.past line.length).expecting u := by
      simp [past, Channel.expecting]
    exact htaken ▸ ReadsLine.line (List.prefix_append line u) hline hspared
  | closed => exact absurd rfl (hr _)
  | @failed count reason hcount hnone hspared hstrikes =>
    have hlength : (c.incoming.take count).length = count := by
      rw [List.length_take]
      omega
    refine ⟨c.incoming.take count, (List.take_append_drop count c.incoming).symm, fun u => ?_⟩
    generalize c.incoming.take count = taken at hnone hlength
    subst hlength
    have htaken : (c.expecting (taken ++ u)).past taken.length =
        (c.past taken.length).expecting u := by
      simp [past, Channel.expecting]
    refine htaken ▸ ReadsLine.failed ?_ ?_ hspared hstrikes
    · simp [Channel.expecting]
    · simpa [Channel.expecting] using hnone

end Channel

namespace World

/-- The same world with other bytes still to come. -/
def expecting (w : World) (bytes : List UInt8) : World :=
  { w with channel := w.channel.expecting bytes }

theorem expecting_incoming (w : World) : w.expecting w.channel.incoming = w := rfl

end World

/-- From one world to another bytes are taken, and whatever stands behind them, a relation holds
between the two worlds. -/
def Taking (step : World → World → Prop) (w w' : World) : Prop :=
  ∃ taken, w.channel.incoming = taken ++ w'.channel.incoming ∧
    ∀ u, step (w.expecting (taken ++ u)) (w'.expecting u)

namespace Taking

variable {P Q S : World → World → Prop} {w w₁ w' : World}

/-- Nothing is taken. -/
theorem of_unread (hunread : w'.channel.incoming = w.channel.incoming)
    (h : ∀ u, P (w.expecting u) (w'.expecting u)) : Taking P w w' :=
  ⟨[], hunread.symm, h⟩

theorem trans (h : Taking P w w₁) (h' : Taking Q w₁ w')
    (hstep : ∀ {w w₁ w'}, P w w₁ → Q w₁ w' → S w w') : Taking S w w' := by
  obtain ⟨taken, hincoming, hP⟩ := h
  obtain ⟨taken', hincoming', hQ⟩ := h'
  refine ⟨taken ++ taken', by rw [hincoming, hincoming', List.append_assoc], fun u => ?_⟩
  rw [List.append_assoc]
  exact hstep (hP _) (hQ u)

theorem mono (h : Taking P w w') (hstep : ∀ {w w'}, P w w' → S w w') : Taking S w w' := by
  obtain ⟨taken, hincoming, hP⟩ := h
  exact ⟨taken, hincoming, fun u => hstep (hP u)⟩

end Taking

/-- Whether a run ended because the connection was closed in front of the end of a line. -/
def Halt.isClosed {α : Type} : Halt α → Bool
  | .failed (.readFailed (.closed _)) _ => true
  | _ => false

/-! ## Computations -/

namespace Exec

variable {α β γ : Type}

/-- A computation takes no bytes and does not look at those to come. -/
def IsDeaf (x : Exec α β) : Prop :=
  ∀ w : World,
    (∃ (v : β) (w' : World), w'.channel.incoming = w.channel.incoming ∧
      ∀ u, x (w.expecting u) = .ok v (w'.expecting u)) ∨
    ∃ (halt : Halt α) (w' : World), w'.channel.incoming = w.channel.incoming ∧
      ∀ u, x (w.expecting u) = .error halt (w'.expecting u)

/-- A computation takes the bytes that it looks at, unless it finds the connection closed. -/
structure IsFrugal (x : Exec α β) : Prop where
  ok : ∀ {w v w'}, x w = .ok v w' → Taking (fun w w' => x w = .ok v w') w w'
  error : ∀ {w halt w'}, x w = .error halt w' → halt.isClosed = false →
    Taking (fun w w' => x w = .error halt w') w w'

theorem IsDeaf.isFrugal {x : Exec α β} (hx : IsDeaf x) : IsFrugal x := by
  constructor
  · intro w v w' h
    rcases hx w with ⟨v₁, w₁, hunread, hw₁⟩ | ⟨halt, w₁, hunread, hw₁⟩
    · have hnow := hw₁ w.channel.incoming
      rw [World.expecting_incoming, h, ← hunread] at hnow
      cases hnow
      exact .of_unread hunread hw₁
    · have hnow := hw₁ w.channel.incoming
      rw [World.expecting_incoming, h] at hnow
      cases hnow
  · intro w halt w' h _
    rcases hx w with ⟨v₁, w₁, hunread, hw₁⟩ | ⟨halt, w₁, hunread, hw₁⟩
    · have hnow := hw₁ w.channel.incoming
      rw [World.expecting_incoming, h] at hnow
      cases hnow
    · have hnow := hw₁ w.channel.incoming
      rw [World.expecting_incoming, h, ← hunread] at hnow
      cases hnow
      exact .of_unread hunread hw₁

theorem isDeaf_pure (v : β) : IsDeaf (pure v : Exec α β) :=
  fun w => Or.inl ⟨v, w, rfl, fun _ => rfl⟩

theorem isDeaf_throw (halt : Halt α) : IsDeaf (throw halt : Exec α β) :=
  fun w => Or.inr ⟨halt, w, rfl, fun _ => rfl⟩

theorem isDeaf_record (event : Event) : IsDeaf (record event : Exec α Unit) :=
  fun w => Or.inl ⟨(), { w with memory := { w.memory with log := event :: w.memory.log } }, rfl,
    fun _ => rfl⟩

/-- Evaluation works on the memory alone. -/
theorem isDeaf_evaluate (x : Eval α β) : IsDeaf (evaluate x) := by
  intro w
  cases h : x.attempt w.memory with
  | ok r m =>
    refine Or.inl ⟨r, { w with memory := m }, rfl, fun u => ?_⟩
    exact evaluate_of_attempt h
  | error e m =>
    cases e with
    | noMatch f => exact absurd h (by simp)
    | halt halt =>
      refine Or.inr ⟨halt, { w with memory := m }, rfl, fun u => ?_⟩
      simp only [evaluate, World.expecting, h]

/-- Sending depends on what was written before, and not on what comes in. -/
theorem isDeaf_send (note : α) (t : Text) : IsDeaf (send note t) := by
  intro w
  cases hbytes : Utf8.encode t with
  | none => exact Or.inr ⟨.unencodable, w, rfl, fun u => send_of_not_encodable hbytes⟩
  | some bytes =>
    cases hwrite : w.channel.write bytes with
    | error reason =>
      refine Or.inr ⟨.failed (.writeFailed reason) note, w, rfl, fun u => ?_⟩
      simp only [send_of_encode hbytes, World.expecting, Channel.write_expecting, hwrite,
        Except.map]
    | ok d =>
      refine Or.inl ⟨(), { memory := { w.memory with log := .sent t :: w.memory.log }
                           channel := d }, Channel.incoming_of_write hwrite, fun u => ?_⟩
      simp only [send_of_encode hbytes, World.expecting, Channel.write_expecting, hwrite,
        Except.map]

theorem IsFrugal.bind {x : Exec α β} {f : β → Exec α γ} (hx : IsFrugal x)
    (hf : ∀ v, IsFrugal (f v)) : IsFrugal (x >>= f) := by
  constructor
  · intro w v w' h
    obtain ⟨u, w₁, hu, hv⟩ := bind_eq_ok_iff.1 h
    exact (hx.ok hu).trans ((hf u).ok hv) fun hu hv => (bind_of_ok hu).trans hv
  · intro w halt w' h hopen
    rcases bind_eq_error_iff.1 h with h | ⟨u, w₁, hu, hhalt⟩
    · exact (hx.error h hopen).mono bind_of_error
    · exact (hx.ok hu).trans ((hf u).error hhalt hopen) fun hu hhalt => (bind_of_ok hu).trans hhalt

/-- Receiving takes a line, or what it has looked at when a byte cannot be read. -/
theorem isFrugal_receive (note : α) : IsFrugal (receive note) := by
  constructor
  · intro w t w' h
    rcases hline : w.channel.readLine with ⟨r, d⟩
    cases r with
    | ok line =>
      rw [receive_of_line hline] at h
      cases h
      obtain ⟨taken, hincoming, hreads⟩ := (Channel.readsLine_iff.2 hline).expecting (by simp)
      exact ⟨taken, hincoming, fun u => receive_of_line (Channel.readsLine_iff.1 (hreads u)) note⟩
    | error e =>
      rw [receive_of_error hline] at h
      cases h
  · intro w halt w' h hopen
    rcases hline : w.channel.readLine with ⟨r, d⟩
    cases r with
    | ok line =>
      rw [receive_of_line hline] at h
      cases h
    | error e =>
      rw [receive_of_error hline] at h
      cases h
      have hread (count : Nat) :
          (.error e : Except ReadError (List UInt8)) ≠ .error (.closed count) := by
        rintro ⟨⟩
        cases hopen
      obtain ⟨taken, hincoming, hreads⟩ := (Channel.readsLine_iff.2 hline).expecting hread
      exact ⟨taken, hincoming, fun u => receive_of_error (Channel.readsLine_iff.1 (hreads u)) note⟩

theorem isFrugal_operandValue (clock : Clock) (note : α) (e : Expr α) :
    IsFrugal (operandValue clock note e) := by
  refine (isDeaf_evaluate _).isFrugal.bind fun r => ?_
  cases r with
  | ok v => exact (isDeaf_pure v).isFrugal
  | error f => exact (isDeaf_record _).isFrugal.bind fun _ => (isDeaf_throw _).isFrugal

theorem isFrugal_judge (note : α) (source line : Text) (r : Except MatchFailure Value) :
    IsFrugal (judge note source line r) := by
  unfold judge
  split
  · split <;> exact (isDeaf_throw _).isFrugal
  · split
    · exact (isDeaf_pure ()).isFrugal
    · exact (isDeaf_throw _).isFrugal

end Exec

/-! ## Statements and runs -/

open Exec

variable {α : Type} {clock : Clock}

theorem Stmt.isFrugal_execute (clock : Clock) (s : Stmt α) : IsFrugal (s.execute clock) := by
  cases s with
  | send note e =>
    exact (isFrugal_operandValue clock note e).bind fun v => (isDeaf_send note _).isFrugal
  | receive note p source =>
    rw [execute_receive_eq_judge]
    refine (isFrugal_receive note).bind fun line => ?_
    exact (isDeaf_evaluate _).isFrugal.bind fun r => isFrugal_judge note source line r
  | assert note e source =>
    refine (isFrugal_operandValue clock note e).bind fun v => ?_
    split
    · exact (isDeaf_pure ()).isFrugal
    · exact (isDeaf_throw _).isFrugal
  | expr note e =>
    exact (isFrugal_operandValue clock note e).bind fun v => (isDeaf_pure ()).isFrugal

/-- Statements that run one after the other take the bytes that they look at, unless one of them
finds the connection closed. -/
theorem taking_executeFrom {completed : Nat} {ss : List (Stmt α)} {w w' : World}
    {ending : Ending α} (h : executeFrom clock completed ss w = (ending, w'))
    (hopen : ∀ halt ∈ ending.halt, halt.isClosed = false) :
    Taking (fun w w' => executeFrom clock completed ss w = (ending, w')) w w' := by
  induction ss generalizing completed w with
  | nil =>
    cases h
    exact .of_unread rfl fun u => rfl
  | cons s ss ih =>
    rw [executeFrom] at h
    cases hs : s.execute clock w with
    | ok v w₁ =>
      rw [hs] at h
      refine ((s.isFrugal_execute clock).ok hs).trans (ih h) fun hs hss => ?_
      rw [executeFrom, hs]
      exact hss
    | error halt w₁ =>
      rw [hs] at h
      cases h
      refine ((s.isFrugal_execute clock).error hs (hopen halt rfl)).mono fun hs => ?_
      rw [executeFrom, hs]

/-- A run never reads ahead.  It consumes a first part of the bytes to come, and unless it ends
because the connection was closed in front of the end of a line, what it does depends on that part
alone: with any others behind it the run ends the same way, and in the same world but for those
others, which are still to come. -/
theorem Script.execute_reads_no_further {script : Script α} {w w' : World} {ending : Ending α}
    (h : script.execute clock w = (ending, w'))
    (hopen : ∀ halt ∈ ending.halt, halt.isClosed = false) :
    ∃ consumed, w.channel.incoming = consumed ++ w'.channel.incoming ∧
      ∀ others, script.execute clock (w.expecting (consumed ++ others)) =
        (ending, w'.expecting others) :=
  taking_executeFrom h hopen

/-- Receives a number, sends it back, and compares it with seven. -/
def echoScript : Script Unit :=
  ⟨(), [.receive () (.concat () (.assign () () "x" (.dot ())) (.string () "\r\n")) ":{x = .}",
    .send () (.concat () (.name () "x") (.string () "\r\n")),
    .assert () (.binary () .eq (.name () "x") (.integer () 7)) "x == 7"]⟩

/-- The comparison fails whether a further line has begun or the connection was closed. -/
theorem execute_reads_no_further_echo :
    let w : World := { channel := { incoming := [0x35, 0x0D, 0x0A, 0x37, 0x0D] } }
    let r := echoScript.execute (fun _ => 0) w
    r.1 = ⟨2, some (.failed (.assertionFailed "x == 7") ())⟩ ∧
      echoScript.execute (fun _ => 0) (w.expecting [0x35, 0x0D, 0x0A]) =
        (r.1, r.2.expecting []) := by
  intro w r
  have hending : r.1 = ⟨2, some (.failed (.assertionFailed "x == 7") ())⟩ := by
    decide +kernel
  have hopen : ∀ halt ∈ r.1.halt, halt.isClosed = false := by
    rw [hending]
    rintro halt ⟨⟩
    rfl
  have hleft : r.2.channel.incoming = [0x37, 0x0D] := by decide +kernel
  obtain ⟨consumed, hconsumed, hothers⟩ :=
    echoScript.execute_reads_no_further (show echoScript.execute _ w = (r.1, r.2) from rfl) hopen
  have hfront : [0x35, 0x0D, 0x0A] ++ [0x37, 0x0D] = consumed ++ [0x37, 0x0D] := by
    rwa [hleft] at hconsumed
  obtain rfl := List.append_cancel_right hfront
  exact ⟨hending, hothers []⟩

end WireScript
