import WireScript.Proofs.Pattern.Verdict
import WireScript.Proofs.Run.Send
import WireScript.Proofs.Template.Basic
import WireScript.Proofs.Text.Canonical

/-!
# Sending back what was captured

A template that captures all that it leaves open can be turned around: with every capture replaced
by the name it captures, it is a template to send, and what it sends after a receive is the line
that was received, byte for byte.

* `IsOpen` is what stands in such a template, and `recalled` replaces a capture by its name.
* `literals_of_attempt`: a match that does not end the run has been through all segments, so that
  each of them can be sent.
* `exists_eval_recall`: where the names are bound as a reading says, the template of the names has a
  value with the bytes of the text that was read.  The texts themselves may differ, since every join
  is put in canonical form, on the way in at other places than on the way out.
* `send_after_receive` puts a receive and the send after it together.
-/

namespace WireScript.Template

open Eval Memory WireScript.Expr

variable {α : Type} {clock : Clock} {b : Bindings} {t : Text} {ts : List Text} {m m' : Memory}
  {stop : Location} {parts : List (Expr Span)}

/-- What stands in a template that captures all that it leaves open: a segment, a name, or a dot
that is captured under a name.  No name is the time. -/
inductive IsOpen : Expr α → Prop where
  | segment (a : α) (s : Text) : IsOpen (.string a s)
  | name (a : α) {x : Text} (hx : x ≠ nowName) : IsOpen (.name a x)
  | capture (a a' c : α) {x : Text} (hx : x ≠ nowName) : IsOpen (.assign a a' x (.dot c))

theorem IsOpen.isPart {q : Expr α} (h : IsOpen q) : IsPart q := by
  cases h with
  | segment a s => exact .segment a s
  | name a hx => exact .name a hx
  | capture a a' c _ => exact .capture a a' c _

/-- The name in place of a capture, and everything else as it is. -/
def recalled : Expr α → Expr α
  | .assign a _ x (.dot _) => .name a x
  | q => q

/-! ## Receiving -/

/-- A match that does not end the run has tried every segment. -/
theorem literals_of_attempt (hparts : ∀ q ∈ parts, IsOpen q) {context : Option Text}
    {r : Except MatchFailure Value}
    (h : ((pattern stop parts).eval clock context).attempt m = .ok r m') :
    ∀ q ∈ parts, ∀ s ∈ q.literals, s.isEncodable := by
  induction parts generalizing context m m' r with
  | nil => simp
  | cons q parts ih =>
    obtain ⟨hq, hrest⟩ := List.forall_mem_cons.1 hparts
    have htried : ∃ l m₁, (q.eval clock none).attempt m = .ok l m₁ ∧
        ∃ r m₂, ((pattern stop parts).eval clock none).attempt m₁ = .ok r m₂ := by
      rcases attempt_eq_ok_iff.1 h with ⟨v, _, hv⟩ | ⟨f, _, hf⟩
      · obtain ⟨l, m₁, hl, r, m₂, hr, _⟩ := Matcher.concat_eq_ok_iff.1 hv
        exact ⟨l, m₁, hl, r, m₂, hr⟩
      · obtain ⟨l, m₁, hl, r, m₂, hr, _⟩ := Matcher.concat_eq_noMatch_iff.1 hf
        exact ⟨l, m₁, hl, r, m₂, hr⟩
    obtain ⟨l, m₁, hl, r', m₂, hr⟩ := htried
    refine List.forall_mem_cons.2 ⟨?_, ih hrest hr⟩
    cases hq with
    | segment a s =>
      have hs : s.isEncodable := by
        cases hcanonical : s.canonical with
        | some u => exact Text.isEncodable_iff.2 ⟨u, hcanonical⟩
        | none =>
          have hhalt : (Eval.text s : Eval Span Value) m = .error (.halt .unencodable) m :=
            text_of_not_canonical hcanonical m
          have hstop : ((Expr.string a s).eval clock none).attempt m =
              .error (.halt .unencodable) m := by
            show (Eval.text s).attempt m = _
            simp only [attempt, hhalt]
          rw [hl] at hstop
          cases hstop
      simpa [literals] using hs
    | name => simp [literals]
    | capture => simp [literals]

/-- A receive that ends well leaves its names bound as some reading of the line says. -/
theorem exists_isReading_of_receive (hparts : ∀ q ∈ parts, IsOpen q)
    (hnodup : (parts.flatMap targets).Nodup)
    (hfresh : ∀ x ∈ parts.flatMap reads, x ∉ parts.flatMap targets) {w w' : World}
    (hwf : ∀ entry ∈ w.memory.bindings, entry.2.WellFormed)
    (hbound : ∀ x ∈ parts.flatMap reads, (w.memory.bindings.get? x).isSome)
    {bytes : List UInt8} {channel : Channel} (hline : w.channel.readLine = (.ok bytes, channel))
    {note : Span} {source : Text}
    (h : (Stmt.receive note (pattern stop parts) source).execute clock w = .ok () w') :
    ∃ ts, (pattern stop parts).IsReading w.memory.bindings (Utf8.decode bytes) ts ∧
      Binds ((pattern stop parts).captures w.memory.bindings ts) w'.memory ∧
      Agrees w.memory.bindings (parts.flatMap reads) w'.memory := by
  obtain ⟨v, m, hv, htext, rfl⟩ := (Stmt.execute_receive_eq_ok_iff hline).1 h
  have hliterals := literals_of_attempt hparts (attempt_of_ok hv)
  have hpattern : (pattern stop parts).IsPattern :=
    isPattern_pattern fun q hq => (hparts q hq).isPart
  have hlegible : (pattern stop parts).Legible w.memory.bindings := by
    apply legible_of_bound hpattern
    · intro s hs
      rw [literals_pattern, List.mem_append, List.mem_flatMap, List.mem_singleton] at hs
      rcases hs with ⟨q, hq, hs⟩ | rfl
      · exact hliterals q hq s hs
      · exact Text.isEncodable_ofChars ['\r', '\n']
    · intro hmem
      rw [reads_pattern, List.mem_flatMap] at hmem
      obtain ⟨q, hq, hnow⟩ := hmem
      cases hparts q hq with
      | segment => cases hnow
      | name a hx => exact hx (List.mem_singleton.1 hnow).symm
      | capture => cases hnow
    · rwa [targets_pattern]
    · rwa [targets_pattern, reads_pattern]
    · exact hwf
    · rwa [reads_pattern]
  have hagrees : Agrees w.memory.bindings (pattern stop parts).reads
      (Exec.heard w (Utf8.decode bytes) channel).memory := fun x _ => rfl
  have hoff : SameOff (pattern stop parts).targets
      (Exec.heard w (Utf8.decode bytes) channel).memory m := (sameOff_eval _ _).of_ok hv
  have hkept : Agrees w.memory.bindings (parts.flatMap reads) m := by
    have hreads : (pattern stop parts).reads = parts.flatMap reads := reads_pattern
    rw [← hreads]
    exact hagrees.of_sameOff hoff hlegible.fresh
  by_cases hdots : (pattern stop parts).dots = 0
  · obtain ⟨u, m₁, hu, hvalue, _, hbinds⟩ :=
      exists_eval_of_dots_eq_zero hlegible hdots hagrees (some (Utf8.decode bytes))
    rw [hv] at hu
    cases hu
    exact ⟨[], (isReading_of_dots_eq_zero hdots).2 ⟨rfl, v, hvalue, htext⟩, hbinds, hkept⟩
  · have hdecided : Decided clock w.memory.bindings (pattern stop parts) := hlegible.decided hdots
    obtain ⟨r, m₁, hmatch, hsettles⟩ := hdecided _ _ (Text.isDecoded_decode bytes) hagrees
    rw [attempt_of_ok hv] at hmatch
    cases hmatch
    rcases hsettles.ok_or_error with ⟨ts, hts, _, hbinds⟩ | ⟨_, f, hf⟩
    · have hread := isReading_of_mem_candidates hpattern (hts ▸ List.mem_singleton_self ts)
      exact ⟨ts, hread, hbinds, hkept⟩
    · cases hf

/-! ## Sending back -/

/-- Where the bindings say what a reading of a part says, the part that is sent back has a value
with the text that was read. -/
theorem exists_eval_recall_part {q : Expr Span} (hq : IsOpen q) (hread : q.IsReading b t ts)
    (hbinds : Binds (q.captures b ts) m) (hagrees : Agrees b q.reads m) :
    ∃ v, (recalled q).eval clock none m = .ok v m ∧ v.toText = t := by
  cases hq with
  | segment a s =>
    obtain ⟨_, v, hv, htext⟩ := (isReading_of_dots_eq_zero rfl).1 hread
    obtain ⟨u, hu, huv⟩ := Option.map_eq_some_iff.1 hv
    subst huv
    exact ⟨.text u, text_of_canonical hu m, htext⟩
  | @name a x hx =>
    obtain ⟨_, v, hv, htext⟩ := (isReading_of_dots_eq_zero rfl).1 hread
    have hget : m.bindings.get? x = some v := (hagrees x (List.mem_singleton_self x)).trans hv
    refine ⟨v, ?_, htext⟩
    simp only [recalled, eval, if_neg hx]
    exact lookup_of_get? hget a
  | @capture a a' c x hx =>
    have hts : ts = [t] := isReading_dot.1 (isReading_assign.1 hread)
    subst hts
    have hget : m.bindings.get? x = some (.text t) := hbinds (x, .text t) List.mem_cons_self
    refine ⟨.text t, ?_, rfl⟩
    simp only [recalled, eval, if_neg hx]
    exact lookup_of_get? hget a

/-- The sides of a reading of a concatenation, whose joined texts have the bytes of the whole. -/
theorem exists_sides {a : Span} {l r : Expr Span} (h : IsReading b (.concat a l r) t ts) :
    ∃ t₁ t₂ ts₁ ts₂, Utf8.encode t = Utf8.encode (t₁ ++ t₂) ∧
      l.IsReading b t₁ ts₁ ∧ r.IsReading b t₂ ts₂ ∧
      captures b (.concat a l r) ts = l.captures b ts₁ ++ r.captures b ts₂ := by
  obtain ⟨v, w, hv, hw, hl, hr⟩ := h.sides
  obtain ⟨_, u, hu, htext⟩ := h
  refine ⟨v.toText, w.toText, _, _, ?_, hl, hr, rfl⟩
  simp only [value?, hv, hw, Option.bind_eq_bind, Option.bind_some] at hu
  subst htext
  by_cases hdots : l.dots + r.dots = 0
  · rw [if_pos hdots] at hu
    obtain ⟨c, hc, hcu⟩ := Option.map_eq_some_iff.1 hu
    subst hcu
    exact Text.encode_of_canonical hc
  · rw [if_neg hdots] at hu
    cases hu
    rfl

/-- The template of the names has a value with the bytes of the text that was read. -/
theorem exists_eval_recall (clock : Clock) (stop' : Location) (hparts : ∀ q ∈ parts, IsOpen q)
    (hread : (pattern stop parts).IsReading b t ts) {bytes : List UInt8}
    (hbytes : Utf8.encode t = some bytes) (hbinds : Binds ((pattern stop parts).captures b ts) m)
    (hagrees : Agrees b (parts.flatMap reads) m) :
    ∃ v, (pattern stop' (parts.map recalled)).eval clock none m = .ok v m ∧
      Utf8.encode v.toText = some bytes := by
  induction parts generalizing t ts bytes with
  | nil =>
    obtain ⟨_, v, hv, htext⟩ := (isReading_of_dots_eq_zero rfl).1 hread
    have hend : Value.ofText? lineEnd = some v := hv
    obtain ⟨u, hu, huv⟩ := Option.map_eq_some_iff.1 hend
    subst huv
    subst htext
    exact ⟨.text u, text_of_canonical hu m, hbytes⟩
  | cons q parts ih =>
    obtain ⟨hq, hrest⟩ := List.forall_mem_cons.1 hparts
    obtain ⟨t₁, t₂, ts₁, ts₂, ht, hread₁, hread₂, hcaptures⟩ := exists_sides hread
    have hsplit : Binds (q.captures b ts₁ ++ (pattern stop parts).captures b ts₂) m :=
      hcaptures ▸ hbinds
    obtain ⟨hbinds₁, hbinds₂⟩ := binds_append.1 hsplit
    have hagrees₁ : Agrees b q.reads m := hagrees.mono fun x hx => List.mem_append_left _ hx
    have hagrees₂ : Agrees b (parts.flatMap reads) m :=
      hagrees.mono fun x hx => List.mem_append_right _ hx
    rw [ht, Utf8.encode_append] at hbytes
    obtain ⟨bytes₁, hbytes₁, hbytes⟩ := Option.bind_eq_some_iff.1 hbytes
    obtain ⟨bytes₂, hbytes₂, hbytes⟩ := Option.map_eq_some_iff.1 hbytes
    obtain ⟨v, hv, hvtext⟩ := exists_eval_recall_part hq hread₁ hbinds₁ hagrees₁
    obtain ⟨w, hw, hwbytes⟩ := ih hrest hread₂ hbytes₂ hbinds₂ hagrees₂
    rw [← hvtext] at hbytes₁
    obtain ⟨u, hu, hubytes⟩ := Expr.exists_eval_concat hv hw hbytes₁ hwbytes
    exact ⟨u, hu _, hubytes.trans (congrArg some hbytes)⟩

/-- What was captured can be sent back.  Take a template that captures all that it leaves open, each
text under a name of its own that the template does not read, and bindings that give every name it
reads a well-formed value.  If a receive with the template ends well, then a send of the template
with the names in place of their captures writes exactly the bytes of the received line, unless
writing itself fails. -/
theorem send_after_receive (hparts : ∀ q ∈ parts, IsOpen q)
    (hnodup : (parts.flatMap targets).Nodup)
    (hfresh : ∀ x ∈ parts.flatMap reads, x ∉ parts.flatMap targets) {w w' : World}
    (hwf : ∀ entry ∈ w.memory.bindings, entry.2.WellFormed)
    (hbound : ∀ x ∈ parts.flatMap reads, (w.memory.bindings.get? x).isSome)
    {bytes : List UInt8} {channel : Channel} (hline : w.channel.readLine = (.ok bytes, channel))
    {note : Span} {source : Text}
    (hreceive : (Stmt.receive note (pattern stop parts) source).execute clock w = .ok () w')
    (note' : Span) (stop' : Location) :
    ∃ w'', match Fault.strikes w'.channel.writeFault w'.channel.writes with
      | some reason =>
        (Stmt.send note' (pattern stop' (parts.map recalled))).execute clock w' =
          .error (.failed (.writeFailed reason) note') w''
      | none =>
        (Stmt.send note' (pattern stop' (parts.map recalled))).execute clock w' = .ok () w'' ∧
          w''.channel.written = w'.channel.written ++ bytes := by
  obtain ⟨ts, hread, hbinds, hagrees⟩ :=
    exists_isReading_of_receive hparts hnodup hfresh hwf hbound hline hreceive
  obtain ⟨v, hv, hbytes⟩ := exists_eval_recall clock stop' hparts hread
    (Utf8.encode_decode bytes) hbinds hagrees
  rw [Stmt.execute_send_of_eval hv, Exec.send_of_encode hbytes]
  cases hstrikes : Fault.strikes w'.channel.writeFault w'.channel.writes with
  | some reason =>
    refine ⟨w', ?_⟩
    simp only [Channel.write_of_strikes hstrikes]
  | none =>
    simp only [Channel.write_of_not_strikes hstrikes]
    exact ⟨_, rfl, rfl⟩

/-- A bound name, and two captures around a character. -/
def nameAndCaptures : List (Expr Span) :=
  [.name default "n", .string default " ", .assign default default "x" (.dot default),
    .string default "é", .assign default default "y" (.dot default)]

/-- The bytes of a line, two of which are no UTF-8. -/
def brokenLine : List UInt8 :=
  [0x37, 0x20, 0xC3, 0xC3, 0xA9, 0xA9, 0x0D, 0x0A]

/-- The line is about to be received. -/
def beforeBrokenLine : World :=
  { memory := { bindings := [("n", .integer 7)] }, channel := { incoming := brokenLine } }

/-- Bytes that are no UTF-8 go back as they came. -/
theorem send_after_receive_broken_line :
    ∃ w' w'',
      (Stmt.receive default (pattern default nameAndCaptures) []).execute (fun _ => 0)
        beforeBrokenLine = .ok () w' ∧
      (Stmt.send default (pattern default (nameAndCaptures.map recalled))).execute (fun _ => 0) w' =
        .ok () w'' ∧
      w''.channel.written = w'.channel.written ++ brokenLine := by
  have hparts : ∀ q ∈ nameAndCaptures, IsOpen q := by
    simp only [nameAndCaptures, List.forall_mem_cons]
    exact ⟨.name _ (by decide), .segment _ _, .capture _ _ _ (by decide), .segment _ _,
      .capture _ _ _ (by decide), fun q hq => absurd hq List.not_mem_nil⟩
  have hline : beforeBrokenLine.channel.readLine = (.ok brokenLine, _) := rfl
  have hends : (match (Stmt.receive default (pattern default nameAndCaptures) []).execute
      (fun _ => 0) beforeBrokenLine with
      | .ok _ _ => true
      | .error _ _ => false) = true := by decide +kernel
  cases hreceive : (Stmt.receive default (pattern default nameAndCaptures) []).execute
      (fun _ => 0) beforeBrokenLine with
  | error e w' =>
    rw [hreceive] at hends
    cases hends
  | ok u w' =>
    obtain ⟨_, _, _, _, hw'⟩ := (Stmt.execute_receive_eq_ok_iff hline).1 hreceive
    have hstrikes : Fault.strikes w'.channel.writeFault w'.channel.writes = none := by
      rw [hw']
      rfl
    obtain ⟨w'', hsend⟩ := send_after_receive hparts (by decide) (by decide) (by decide)
      (by decide) hline hreceive default default
    rw [hstrikes] at hsend
    exact ⟨w', w'', rfl, hsend⟩

end WireScript.Template
