import WireScript.Proofs.Run.Notes
import WireScript.Proofs.Run.Step
import WireScript.Proofs.Template.Source
import WireScript.Proofs.Value

/-!
# Templates on the wire

A template that is sent puts its own bytes on the wire: the bytes of its segments as they stand in
the source, those of the values between them, and the end of a line.  Every join on the way puts the
text in canonical form, so that the texts in between may be other ones, but the bytes stay
(`exists_eval_rest`).  `line_writes_own_bytes` is about the whole way, from the bytes of a source to
those that are written.
-/

namespace WireScript.Template

open Grammar

/-- A name that can be spelled and has a well-formed value, and a segment that can stand behind
it. -/
structure Embedded.IsSendable (b : Bindings) (q : Embedded) : Prop extends q.IsWritten where
  ne_now : Text.ofChars q.name ≠ nowName
  bound : ∃ v, b.get? (Text.ofChars q.name) = some v ∧ v.WellFormed

/-- The bytes that a template stands for: its segments, the values of its names between them, and
the end of a line. -/
def wire (b : Bindings) (first : List UInt8) : List Embedded → Option (List UInt8)
  | [] => some (first ++ [0x0D, 0x0A])
  | q :: parts => do
    let v ← b.get? (Text.ofChars q.name)
    let bytes ← Utf8.encode v.toText
    let rest ← wire b q.segment parts
    return first ++ (bytes ++ rest)

variable {clock : Clock} {first stop : List UInt8} {parts : List Embedded} {m : Memory} {w : World}

/-- A segment puts its bytes in front of those of what follows it. -/
theorem exists_eval_withSegment {e : Tree} {v : Value} {bytes : List UInt8}
    (hv : e.eval clock none m = .ok v m) (hbytes : Utf8.encode v.toText = some bytes)
    (segment : List UInt8) :
    ∃ u, (withSegment (Utf8.decode segment) e).eval clock none m = .ok u m ∧
      Utf8.encode u.toText = some (segment ++ bytes) := by
  have hsegment := Utf8.encode_decode segment
  unfold withSegment
  split
  · next hempty =>
    rw [List.isEmpty_iff.1 hempty] at hsegment
    obtain rfl : [] = segment := Option.some.inj hsegment
    exact ⟨v, hv, hbytes⟩
  · have hstring : (Expr.string () (Utf8.decode segment)).eval clock none m =
        .ok (.text (Utf8.decode segment)) m :=
      Eval.text_of_canonical (Text.isDecoded_decode segment).canonical m
    obtain ⟨u, hu, hubytes⟩ := Expr.exists_eval_concat hstring hv hsegment hbytes
    exact ⟨u, hu (), hubytes⟩

/-- What follows a segment has a value, and puts its bytes behind those of the segment. -/
theorem exists_eval_rest (clock : Clock) (hparts : ∀ q ∈ parts, q.IsSendable m.bindings) :
    ∃ v bytes, (restTree parts).eval clock none m = .ok v m ∧
      Utf8.encode v.toText = some bytes ∧
      ∀ first, wire m.bindings first parts = some (first ++ bytes) := by
  induction parts with
  | nil =>
    have hend : (Expr.string () lineEnd).eval clock none m = .ok (.text lineEnd) m :=
      Eval.text_of_canonical canonical_lineEnd m
    exact ⟨.text lineEnd, [0x0D, 0x0A], hend, by decide, fun _ => rfl⟩
  | cons q parts ih =>
    obtain ⟨hq, hrest⟩ := List.forall_mem_cons.1 hparts
    obtain ⟨v, hv, hwf⟩ := hq.bound
    obtain ⟨r, rest, hr, hrbytes, hwire⟩ := ih hrest
    have hname : (Expr.name () (Text.ofChars q.name)).eval clock none m = .ok v m := by
      rw [Expr.eval, if_neg hq.ne_now]
      exact Eval.lookup_of_get? hv ()
    obtain ⟨bytes, hbytes⟩ := Option.isSome_iff_exists.1 (Value.WellFormed.isEncodable hwf)
    obtain ⟨u, hu, hubytes⟩ := exists_eval_withSegment hr hrbytes q.segment
    obtain ⟨c, hc, hcbytes⟩ := Expr.exists_eval_concat hname hu hbytes hubytes
    refine ⟨c, bytes ++ (q.segment ++ rest), hc (), hcbytes, fun first => ?_⟩
    simp [wire, hv, hbytes, hwire]

/-- A sent template puts exactly its own bytes on the wire.  Take a line that sends a template: its
segments hold any bytes but the end of a line and an opening brace, the last one does not end with a
carriage return, and its names are bound to well-formed values and are not the time.  The line
compiles, and running it writes the segments as they stand in the line, with the values between them
and the end of a line behind them, unless writing itself fails; then it writes nothing. -/
theorem line_writes_own_bytes (hfirst : IsVerbatim first)
    (hparts : ∀ q ∈ parts, q.IsSendable w.memory.bindings)
    (hlast : (lastSegment first parts).getLast? ≠ some 0x0D) (hstop : IsStop stop)
    (file : Option Text) (clock : Clock) :
    ∃ script bytes w',
      Source.compile ⟨Utf8.decode (line first parts ++ stop), file⟩ = .script script ∧
      wire w.memory.bindings first parts = some bytes ∧
      match Fault.strikes w.channel.writeFault w.channel.writes with
      | none =>
        script.execute clock w = (⟨1, none⟩, w') ∧
          w'.channel.written = w.channel.written ++ bytes
      | some reason =>
        w'.channel.written = w.channel.written ∧ ∃ span,
          script.execute clock w = (⟨0, some (.failed (.writeFailed reason) span)⟩, w') := by
  obtain ⟨script, hcompile, hscript⟩ :=
    compile_line hfirst (fun q hq => (hparts q hq).toIsWritten) hlast hstop file
  obtain ⟨v, bytes, hv, hbytes, hwire⟩ := exists_eval_rest clock hparts
  obtain ⟨u, hu, hubytes⟩ := exists_eval_withSegment hv hbytes first
  have hsend : (Stmt.send () (tree first parts)).execute clock w = Exec.send () u.toText w :=
    Stmt.execute_send_of_eval hu
  rw [Exec.send_of_encode hubytes] at hsend
  have hmap := script.execute_map clock (fun _ => ()) w
  rw [hscript] at hmap
  rcases hexecute : script.execute clock w with ⟨ending, w'⟩
  rw [hexecute] at hmap
  refine ⟨script, first ++ bytes, w', hcompile, hwire first, ?_⟩
  cases hstrikes : Fault.strikes w.channel.writeFault w.channel.writes with
  | none =>
    rw [Channel.write_of_not_strikes hstrikes] at hsend
    have hrun := (Runs.cons hsend (.nil _)).execute ()
    obtain ⟨hending, rfl⟩ := Prod.mk.inj (hrun.symm.trans hmap)
    obtain rfl := Ending.eq_of_map_none hending.symm
    exact ⟨hexecute, rfl⟩
  | some reason =>
    rw [Channel.write_of_strikes hstrikes] at hsend
    have hrun := (Runs.nil w).execute_of_error hsend () []
    obtain ⟨hending, rfl⟩ := Prod.mk.inj (hrun.symm.trans hmap)
    obtain ⟨span, _, rfl⟩ := Ending.exists_of_map_failed hending.symm
    exact ⟨rfl, span, hexecute⟩

/-- A name between two broken bytes. -/
def betweenBroken : List Embedded :=
  [⟨['x'], [0xFF]⟩]

/-- The value of the name is the second half of a character, and the first half stands in front. -/
def halfCharacter : World :=
  { memory := { bindings := [("x", .text [Utf8.escaped 0xA9])] } }

/-- Halves of a character that meet only on the wire are written as they are. -/
theorem line_writes_two_halves :
    ∃ script w',
      Source.compile ⟨Utf8.decode (line [0xC3] betweenBroken ++ [0x0A]), none⟩ = .script script ∧
      script.execute (fun _ => 0) halfCharacter = (⟨1, none⟩, w') ∧
      w'.channel.written = [0xC3, 0xA9, 0xFF, 0x0D, 0x0A] := by
  have hsendable : ∀ q ∈ betweenBroken, q.IsSendable halfCharacter.memory.bindings :=
    List.forall_mem_singleton.2
      { name := by decide
        segment := by decide
        ne_now := by decide
        bound := ⟨.text [Utf8.escaped 0xA9], rfl, by decide +kernel⟩ }
  have hfirst : IsVerbatim [0xC3] := by decide
  obtain ⟨script, bytes, w', hcompile, hwire, hrun, hwritten⟩ :=
    line_writes_own_bytes hfirst hsendable (by decide) (Or.inr rfl) none (fun _ => 0)
  have hbytes : wire halfCharacter.memory.bindings [0xC3] betweenBroken =
      some [0xC3, 0xA9, 0xFF, 0x0D, 0x0A] := by decide
  rw [hbytes] at hwire
  cases hwire
  exact ⟨script, w', hcompile, hrun, hwritten⟩

end WireScript.Template
