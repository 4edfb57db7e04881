import WireScript.Proofs.Run.Line
import WireScript.Proofs.Run.Send
import WireScript.Proofs.Run.Sound

/-!
# Receiving what is sent

An expression that leaves nothing open stands for one text, whether it is sent or expected.

* `IsSteady` is the syntax: no dot, no assignment, and no name that is the time.  The outcome of
  such an expression depends on the bindings alone, and neither on the text it is matched against
  nor on what else is in memory, and evaluating it changes nothing (`IsSteady.eval`).
* `receive_iff_sent`: a receive accepts the line that a send of the same expression writes, and no
  other line.  The send writes the bytes of a text and the receive compares the texts of bytes,
  which comes to the same because the text of a value is in canonical form.
-/

namespace WireScript

variable {α : Type} {clock : Clock}

/-! ## Steady expressions -/

namespace Matcher

open Eval

/-- A part whose outcome depends on the bindings alone, and which leaves memory as it is.  It does
not lack a value: it has one or ends the run. -/
def IsSteady (part : Matcher α) : Prop :=
  ∀ b : Bindings, (∃ v, ∀ context m, m.bindings = b → part context m = .ok v m) ∨
    ∃ halt, ∀ context m, m.bindings = b → part context m = .error (.halt halt) m

theorem isSteady_pure (v : Value) : IsSteady fun _ => (pure v : Eval α Value) :=
  fun _ => Or.inl ⟨v, fun _ _ _ => rfl⟩

theorem isSteady_fail (error : RuntimeError) (note : α) :
    IsSteady fun _ => (fail error note : Eval α Value) :=
  fun _ => Or.inr ⟨.failed error note, fun _ _ _ => rfl⟩

theorem isSteady_text (t : Text) : IsSteady fun _ => (Eval.text t : Eval α Value) := by
  intro b
  cases h : t.canonical with
  | some u => exact Or.inl ⟨.text u, fun _ m _ => text_of_canonical h m⟩
  | none => exact Or.inr ⟨.unencodable, fun _ m _ => text_of_not_canonical h m⟩

theorem isSteady_lookup (note : α) (x : Text) : IsSteady fun _ => lookup note x := by
  intro b
  cases h : b.get? x with
  | some v =>
    refine Or.inl ⟨v, fun _ m hm => lookup_of_get? ?_ note⟩
    rw [hm, h]
  | none =>
    refine Or.inr ⟨.failed (.unbound x) note, fun _ m hm => lookup_of_get?_none ?_ note⟩
    rw [hm, h]

theorem IsSteady.bind {part : Matcher α} {rest : Value → Matcher α} (h : part.IsSteady)
    (hrest : ∀ v, (rest v).IsSteady) :
    IsSteady fun context => part context >>= fun v => rest v context := by
  intro b
  rcases h b with ⟨v, hv⟩ | ⟨halt, hhalt⟩
  · rcases hrest v b with ⟨w, hw⟩ | ⟨halt, hhalt⟩
    · exact Or.inl ⟨w, fun context m hm => (bind_of_ok (hv context m hm)).trans (hw context m hm)⟩
    · exact Or.inr
        ⟨halt, fun context m hm => (bind_of_ok (hv context m hm)).trans (hhalt context m hm)⟩
  · exact Or.inr ⟨halt, fun context m hm => bind_of_error (hhalt context m hm)⟩

/-- Two steady parts are joined and never matched, since both have values on their own. -/
theorem isSteady_concat {left right : Matcher α} (hl : left.IsSteady) (hr : right.IsSteady) :
    (concat left right).IsSteady := by
  intro b
  rcases hl b with ⟨v, hv⟩ | ⟨halt, hhalt⟩
  · rcases hr b with ⟨w, hw⟩ | ⟨halt, hhalt⟩
    · have hjoined (context : Option Text) (m : Memory) (hm : m.bindings = b) :
          concat left right context m = Eval.text (v.toText ++ w.toText) m :=
        concat_of_attempts (attempt_of_ok (hv none m hm)) (attempt_of_ok (hw none m hm))
      have htext : IsSteady fun _ => (Eval.text (v.toText ++ w.toText) : Eval α Value) :=
        isSteady_text _
      rcases htext b with ⟨u, hu⟩ | ⟨halt, hhalt⟩
      · exact Or.inl ⟨u, fun context m hm => (hjoined context m hm).trans (hu context m hm)⟩
      · exact Or.inr
          ⟨halt, fun context m hm => (hjoined context m hm).trans (hhalt context m hm)⟩
    · exact Or.inr ⟨halt, fun context m hm =>
        concat_of_halt (attempt_of_ok (hv none m hm)) (hhalt none m hm)⟩
  · refine Or.inr ⟨halt, fun context m hm => ?_⟩
    have hattempt : (left none).attempt m = .error (.halt halt) m := by
      simp only [attempt, hhalt none m hm]
    rw [concat_eq_join]
    exact bind_of_error hattempt

end Matcher

namespace Expr

open Matcher

/-- The expressions without dots, assignments and the time. -/
inductive IsSteady : Expr α → Prop where
  | integer (a : α) (n : Int) : IsSteady (.integer a n)
  | string (a : α) (t : Text) : IsSteady (.string a t)
  | name (a : α) {x : Text} (hx : x ≠ nowName) : IsSteady (.name a x)
  | binary (a : α) (op : IntOp) {l r : Expr α} (hl : IsSteady l) (hr : IsSteady r) :
      IsSteady (.binary a op l r)
  | and (a : α) {l r : Expr α} (hl : IsSteady l) (hr : IsSteady r) : IsSteady (.and a l r)
  | or (a : α) {l r : Expr α} (hl : IsSteady l) (hr : IsSteady r) : IsSteady (.or a l r)
  | not (a : α) {e : Expr α} (he : IsSteady e) : IsSteady (.not a e)
  | concat (a : α) {l r : Expr α} (hl : IsSteady l) (hr : IsSteady r) : IsSteady (.concat a l r)

/-- The outcome of a steady expression depends on the bindings alone. -/
theorem IsSteady.eval {e : Expr α} (h : e.IsSteady) (clock : Clock) :
    Matcher.IsSteady (e.eval clock) := by
  induction h with
  | integer a n => exact isSteady_pure _
  | string a t => exact isSteady_text t
  | @name a x hx =>
    have heval : (Expr.name a x).eval clock = fun _ => Eval.lookup a x := by
      funext context
      rw [Expr.eval, if_neg hx]
    exact heval ▸ isSteady_lookup a x
  | binary a op _ _ ihl ihr =>
    refine ihl.bind fun v => ihr.bind fun w => ?_
    cases h : op.apply? v.toInt w.toInt with
    | some u => exact isSteady_pure u
    | none => exact isSteady_fail _ a
  | and a _ _ ihl ihr =>
    refine ihl.bind fun v => ?_
    cases v.toBool with
    | true => exact ihr.bind fun w => isSteady_pure _
    | false => exact isSteady_pure _
  | or a _ _ ihl ihr =>
    refine ihl.bind fun v => ?_
    cases v.toBool with
    | true => exact isSteady_pure _
    | false => exact ihr.bind fun w => isSteady_pure _
  | not a _ ih => exact ih.bind fun v => isSteady_pure _
  | concat a _ _ ihl ihr => exact isSteady_concat ihl ihr

/-- A steady expression has its value against every text and in every memory with the same
bindings. -/
theorem IsSteady.eval_of_eval {e : Expr α} (h : e.IsSteady) {context context' : Option Text}
    {m m₁ m' : Memory} {v : Value} (hv : e.eval clock context m = .ok v m₁)
    (hm : m'.bindings = m.bindings) : e.eval clock context' m' = .ok v m' ∧ m₁ = m := by
  rcases h.eval clock m.bindings with ⟨w, hw⟩ | ⟨halt, hhalt⟩
  · rw [hw context m rfl] at hv
    cases hv
    exact ⟨hw context' m' hm, rfl⟩
  · rw [hhalt context m rfl] at hv
    cases hv

end Expr

/-! ## Sending and receiving -/

namespace Stmt

open Exec

variable {e : Expr α}

/-- A receive accepts the line that a send writes, and no other one.  Take a steady expression that
has a value in well-formed bindings.  A send of it writes the bytes of the value.  A receive of it
that is given a line ends well if the line is these bytes, and fails as a mismatch if it is not, and
takes exactly the line either way. -/
theorem receive_iff_sent (he : e.IsSteady) {w : World} (hwf : w.memory.bindings.WellFormed)
    {v : Value} {m : Memory} (hv : e.eval clock none w.memory = .ok v m)
    (hwrites : Fault.strikes w.channel.writeFault w.channel.writes = none) {c : Channel}
    {line rest : List UInt8} (hline : Channel.IsLine line) (hincoming : c.incoming = line ++ rest)
    (hspared : c.Spares line.length) (note note' : α) (source : Text) :
    ∃ bytes, Utf8.encode v.toText = some bytes ∧
      (∃ w', (Stmt.send note e).execute clock w = .ok () w' ∧
        w'.channel.written = w.channel.written ++ bytes) ∧
      (line = bytes →
        ∃ w', (Stmt.receive note' e source).execute clock { w with channel := c } = .ok () w' ∧
          w'.channel.incoming = rest) ∧
      (line ≠ bytes →
        ∃ error w', (Stmt.receive note' e source).execute clock { w with channel := c } =
            .error (.failed error note') w' ∧
          error.code = ("E406" : Text) ∧ w'.channel.incoming = rest) := by
  obtain ⟨_, hvwf⟩ := (e.sound_eval clock False.elim False.elim).of_ok hwf hv
  obtain ⟨bytes, hbytes⟩ := hvwf.isDecoded
  have hencode : Utf8.encode v.toText = some bytes := hbytes ▸ Utf8.encode_decode bytes
  have hread : c.readLine = (.ok line, c.past line.length) :=
    Channel.readsLine_iff.1 (.line ⟨rest, hincoming.symm⟩ hline hspared)
  have hrest : (c.past line.length).incoming = rest := by
    rw [Channel.past, hincoming, List.drop_left]
  let heardLine := heard { w with channel := c } (Utf8.decode line) (c.past line.length)
  have hbindings : heardLine.memory.bindings = w.memory.bindings := rfl
  have hmatch : e.eval clock (some (Utf8.decode line)) heardLine.memory =
      .ok v heardLine.memory := (he.eval_of_eval hv hbindings).1
  have hreceive : (Stmt.receive note' e source).execute clock { w with channel := c } =
      judge note' source (Utf8.decode line) (.ok v) heardLine :=
    execute_receive_of_attempt hread (Eval.attempt_of_ok hmatch)
  refine ⟨bytes, hencode, ?_, ?_, ?_⟩
  · rw [execute_send_of_eval hv, send_of_encode hencode, Channel.write_of_not_strikes hwrites]
    exact ⟨_, rfl, rfl⟩
  · intro heq
    rw [judge_of_toText (heq ▸ hbytes)] at hreceive
    exact ⟨_, hreceive, hrest⟩
  · intro hne
    have htext : v.toText ≠ Utf8.decode line := by
      intro heq
      rw [heq, Utf8.encode_decode] at hencode
      exact hne (Option.some.inj hencode)
    rw [judge, if_neg htext] at hreceive
    exact ⟨_, _, hreceive, rfl, hrest⟩

/-- A byte in a name and a byte in a literal that are a character together. -/
def brokenCharacter : Expr Unit :=
  .concat () (.name () "x") (.concat () (.string () [Utf8.escaped 0xA9]) (.string () "\r\n"))

/-- A memory in which the name is bound to the first byte. -/
def firstByteBound : World :=
  { memory := { bindings := [("x", .text [Utf8.escaped 0xC3])] } }

/-- The character is received as it was sent, and another line is not. -/
theorem receive_iff_sent_broken_character :
    ∃ w₁ w₂ error w₃,
      (Stmt.send () brokenCharacter).execute (fun _ => 0) firstByteBound = .ok () w₁ ∧
      w₁.channel.written = [0xC3, 0xA9, 0x0D, 0x0A] ∧
      (Stmt.receive () brokenCharacter []).execute (fun _ => 0)
          { firstByteBound with channel := { incoming := [0xC3, 0xA9, 0x0D, 0x0A, 0x62] } } =
        .ok () w₂ ∧
      w₂.channel.incoming = [0x62] ∧
      (Stmt.receive () brokenCharacter []).execute (fun _ => 0)
          { firstByteBound with channel := { incoming := [0xC3, 0x0D, 0x0A, 0x62] } } =
        .error (.failed error ()) w₃ ∧
      error.code = ("E406" : Text) ∧ w₃.channel.incoming = [0x62] := by
  have hsteady : brokenCharacter.IsSteady :=
    .concat () (.name () (by decide)) (.concat () (.string () _) (.string () _))
  have hwf : firstByteBound.memory.bindings.WellFormed := by decide +kernel
  obtain ⟨m, hvalue⟩ : ∃ m, brokenCharacter.eval (fun _ => 0) none firstByteBound.memory =
      .ok (.text "é\r\n") m := by
    have hends : (match brokenCharacter.eval (fun _ => 0) none firstByteBound.memory with
        | .ok v _ => decide (v = .text "é\r\n")
        | .error _ _ => false) = true := by decide +kernel
    split at hends
    · next v m hv => exact ⟨m, of_decide_eq_true hends ▸ hv⟩
    · cases hends
  have hbytes : Utf8.encode ("é\r\n" : Text) = some [0xC3, 0xA9, 0x0D, 0x0A] := by decide +kernel
  have hsame : Channel.IsLine [0xC3, 0xA9, 0x0D, 0x0A] := by decide
  have hother : Channel.IsLine [0xC3, 0x0D, 0x0A] := by decide
  have hsplit :
      ([0xC3, 0xA9, 0x0D, 0x0A, 0x62] : List UInt8) = [0xC3, 0xA9, 0x0D, 0x0A] ++ [0x62] :=
    rfl
  have hsplit' : ([0xC3, 0x0D, 0x0A, 0x62] : List UInt8) = [0xC3, 0x0D, 0x0A] ++ [0x62] := rfl
  obtain ⟨bytes, hencode, ⟨w₁, hsend, hwritten⟩, hsame, _⟩ :=
    receive_iff_sent hsteady hwf hvalue rfl hsame (c := { incoming := _ }) hsplit
      (fun _ _ => rfl) () () []
  obtain ⟨_, hencode', _, _, hother⟩ :=
    receive_iff_sent hsteady hwf hvalue rfl hother (c := { incoming := _ }) hsplit'
      (fun _ _ => rfl) () () []
  cases hencode.symm.trans hbytes
  cases hencode'.symm.trans hbytes
  obtain ⟨w₂, hreceive, hrest⟩ := hsame rfl
  obtain ⟨error, w₃, hfails, hcode, hrest'⟩ := hother (by decide)
  exact ⟨w₁, w₂, error, w₃, hsend, hwritten, hreceive, hrest, hfails, hcode, hrest'⟩

end Stmt

end WireScript
