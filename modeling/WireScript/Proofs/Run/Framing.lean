import WireScript.Proofs.Run.Line

/-!
# Successive readings

Readings that follow each other cut what the peer sends into lines, and no byte is lost between two
of them.

* `readLine_cases` is one reading without a read error: it takes a line, or everything that is left
  if no line is complete.
* `Frames` says what a number of readings lead to: lines, and from the first reading on that finds
  none complete nothing but the end of the connection.  `frames_readLines` is the induction.
* `framing_exact` puts together what this comes to for the stream as a whole, for each of the
  readings, and for a stream that is made of lines.
-/

namespace WireScript.Channel

variable {c : Channel} {n : Nat} {line : List UInt8} {lines : List (List UInt8)}

/-- The outcomes of a number of readings one after the other, and the channel after them. -/
def readLines : Nat → Channel → List (Except ReadError (List UInt8)) × Channel
  | 0, c => ([], c)
  | n + 1, c =>
    let (first, d) := c.readLine
    let (others, e) := readLines n d
    (first :: others, e)

/-- No reading failed for another reason than the end of the connection. -/
def Undisturbed (outcomes : List (Except ReadError (List UInt8))) : Prop :=
  ∀ reason, .error (.failed reason) ∉ outcomes

/-! ## One reading -/

/-- A reading takes a line, or all that is left if there is none. -/
theorem readLine_cases (h : ∀ reason, c.readLine.1 ≠ .error (.failed reason)) :
    (∃ line, IsLine line ∧ c.incoming = line ++ c.readLine.2.incoming ∧
        c.readLine.1 = .ok line) ∨
      ¬ lineMark <:+: c.incoming ∧ c.readLine.2.incoming = [] ∧
        c.readLine.1 = .error (.closed c.incoming.length) := by
  have hread := readsLine_readLine c
  generalize c.readLine.1 = r at hread h ⊢
  generalize c.readLine.2 = d at hread h ⊢
  cases hread with
  | @line line hnext hline hspared =>
    obtain ⟨rest, hrest⟩ := hnext
    refine Or.inl ⟨line, hline, ?_, rfl⟩
    rw [past, ← hrest, List.drop_left]
  | closed hnone hspared =>
    exact Or.inr ⟨hnone, List.drop_eq_nil_of_le (Nat.le_succ _), rfl⟩
  | failed => exact absurd rfl (h _)

/-- A line that stands in front is what a reading takes. -/
theorem readLine_of_line {rest : List UInt8} (hline : IsLine line)
    (hincoming : c.incoming = line ++ rest)
    (h : ∀ reason, c.readLine.1 ≠ .error (.failed reason)) :
    c.readLine.1 = .ok line ∧ c.readLine.2.incoming = rest := by
  have hprefix : line <+: c.incoming := ⟨rest, hincoming.symm⟩
  rcases readLine_cases h with ⟨line', hline', hincoming', hread⟩ | ⟨hnone, -⟩
  · obtain rfl := hline.eq_of_prefix hline' hprefix ⟨_, hincoming'.symm⟩
    exact ⟨hread, List.append_cancel_left (hincoming'.symm.trans hincoming)⟩
  · exact absurd (hline.ends.isInfix.trans hprefix.isInfix) hnone

/-! ## A number of readings -/

theorem readLines_succ (n : Nat) (c : Channel) :
    readLines (n + 1) c =
      (c.readLine.1 :: (c.readLine.2.readLines n).1, (c.readLine.2.readLines n).2) := rfl

theorem undisturbed_cons {r : Except ReadError (List UInt8)}
    {rs : List (Except ReadError (List UInt8))} :
    Undisturbed (r :: rs) ↔ (∀ reason, r ≠ .error (.failed reason)) ∧ Undisturbed rs := by
  simp [Undisturbed, forall_and, eq_comm]

/-- What readings of a stream lead to, and what they leave of it: one line after the other, and when
none is complete any more the rest, once.  From then on there is nothing to read. -/
inductive Frames : List UInt8 → List (Except ReadError (List UInt8)) → List UInt8 → Prop where
  | done (stream : List UInt8) : Frames stream [] stream
  | line {line stream left : List UInt8} {outcomes : List (Except ReadError (List UInt8))}
      (hline : IsLine line) (h : Frames stream outcomes left) :
      Frames (line ++ stream) (.ok line :: outcomes) left
  | closed {stream : List UInt8} (hnone : ¬ lineMark <:+: stream) (more : Nat) :
      Frames stream (.error (.closed stream.length) :: List.replicate more (.error (.closed 0))) []

/-- At the end of a stream every reading finds nothing. -/
theorem readLines_of_empty (h : Undisturbed (c.readLines n).1) (hc : c.incoming = []) :
    c.readLines n = (List.replicate n (.error (.closed 0)), (c.readLines n).2) ∧
      (c.readLines n).2.incoming = [] := by
  induction n generalizing c with
  | zero => exact ⟨rfl, hc⟩
  | succ n ih =>
    rw [readLines_succ] at h ⊢
    obtain ⟨hfirst, hothers⟩ := undisturbed_cons.1 h
    rcases readLine_cases hfirst with ⟨line, hline, hincoming, -⟩ | ⟨-, hleft, hread⟩
    · obtain ⟨rfl, -⟩ := List.append_eq_nil_iff.1 (hincoming.symm.trans hc)
      exact absurd hline.ends (by decide)
    · obtain ⟨hsame, hempty⟩ := ih hothers hleft
      rw [hc] at hread
      exact ⟨by rw [hread, hsame, List.replicate_succ]; rfl, hempty⟩

theorem frames_readLines (h : Undisturbed (c.readLines n).1) :
    Frames c.incoming (c.readLines n).1 (c.readLines n).2.incoming := by
  induction n generalizing c with
  | zero => exact .done _
  | succ n ih =>
    rw [readLines_succ] at h ⊢
    obtain ⟨hfirst, hothers⟩ := undisturbed_cons.1 h
    rcases readLine_cases hfirst with ⟨line, hline, hincoming, hread⟩ | ⟨hnone, hleft, hread⟩
    · rw [hincoming, hread]
      exact .line hline (ih hothers)
    · obtain ⟨hsame, hempty⟩ := readLines_of_empty hothers hleft
      rw [hread, hsame, hempty]
      exact .closed hnone n

/-! ## What readings lead to -/

variable {stream left : List UInt8} {outcomes : List (Except ReadError (List UInt8))}

/-- The lines that were returned make up the stream together with what is left, or with what was
taken when no line was complete any more. -/
theorem Frames.exists_lines (h : Frames stream outcomes left) :
    ∃ (lines : List (List UInt8)) (rest : List UInt8),
      (∀ line ∈ lines, IsLine line) ∧ stream = lines.flatten ++ rest ∧
      (outcomes = lines.map .ok ∧ left = rest ∨
        ¬ lineMark <:+: rest ∧ left = [] ∧
          ∃ more, outcomes = lines.map .ok ++
            .error (.closed rest.length) :: List.replicate more (.error (.closed 0))) := by
  induction h with
  | done stream => exact ⟨[], stream, List.forall_mem_nil _, rfl, Or.inl ⟨rfl, rfl⟩⟩
  | @line line stream left outcomes hline h ih =>
    obtain ⟨lines, rest, hlines, rfl, hends⟩ := ih
    refine ⟨line :: lines, rest, List.forall_mem_cons.2 ⟨hline, hlines⟩, by simp, ?_⟩
    rcases hends with ⟨rfl, rfl⟩ | ⟨hnone, rfl, more, rfl⟩
    · exact Or.inl ⟨rfl, rfl⟩
    · exact Or.inr ⟨hnone, rfl, more, rfl⟩
  | @closed stream hnone more =>
    exact ⟨[], stream, List.forall_mem_nil _, rfl, Or.inr ⟨hnone, rfl, more, rfl⟩⟩

/-- Each of the readings is a reading of the channel that those before it left. -/
theorem getElem?_readLines {k : Nat} (hk : k < n) (c : Channel) :
    (c.readLines n).1[k]? = some (c.readLines k).2.readLine.1 ∧
      (c.readLines (k + 1)).2 = (c.readLines k).2.readLine.2 := by
  induction k generalizing n c with
  | zero =>
    obtain ⟨n, rfl⟩ : ∃ m, n = m + 1 := ⟨n - 1, by omega⟩
    exact ⟨rfl, rfl⟩
  | succ k ih =>
    obtain ⟨n, rfl⟩ : ∃ m, n = m + 1 := ⟨n - 1, by omega⟩
    exact ih (Nat.lt_of_succ_lt_succ hk) c.readLine.2

/-- Lines that stand in front are returned in their order, as many as are asked for, and behind the
last of them there is nothing to read. -/
theorem readLines_of_lines (h : Undisturbed (c.readLines n).1)
    (hlines : ∀ line ∈ lines, IsLine line) (hincoming : c.incoming = lines.flatten) :
    (c.readLines n).1 =
        (lines.take n).map .ok ++ List.replicate (n - lines.length) (.error (.closed 0)) ∧
      (c.readLines n).2.incoming = (lines.drop n).flatten := by
  induction lines generalizing n c with
  | nil =>
    obtain ⟨hsame, hempty⟩ := readLines_of_empty h hincoming
    rw [List.take_nil, List.drop_nil]
    exact ⟨congrArg Prod.fst hsame, hempty⟩
  | cons line lines ih =>
    cases n with
    | zero => exact ⟨by simp [readLines], hincoming⟩
    | succ n =>
      rw [readLines_succ] at h ⊢
      obtain ⟨hfirst, hothers⟩ := undisturbed_cons.1 h
      obtain ⟨hline, hlines⟩ := List.forall_mem_cons.1 hlines
      obtain ⟨hread, hrest⟩ := readLine_of_line hline hincoming hfirst
      obtain ⟨hreturned, hleft⟩ := ih hothers hlines hrest
      rw [hread, hreturned]
      exact ⟨by simp, hleft⟩

/-- Line framing is exact.  Readings that no read error disturbs return lines, and these with the
bytes that are left, or with those that were taken when no line was complete, are the stream.  A
reading fails exactly if there is no mark of a line in what is left, and then it takes all of it and
says how many bytes that were.  A stream made of lines is read as these lines in their order, and
behind them there is nothing to read. -/
theorem framing_exact (h : Undisturbed (c.readLines n).1) :
    (∃ (lines : List (List UInt8)) (rest : List UInt8),
        (∀ line ∈ lines, IsLine line) ∧ c.incoming = lines.flatten ++ rest ∧
        ((c.readLines n).1 = lines.map .ok ∧ (c.readLines n).2.incoming = rest ∨
          ¬ lineMark <:+: rest ∧ (c.readLines n).2.incoming = [] ∧
            ∃ more, (c.readLines n).1 = lines.map .ok ++
              .error (.closed rest.length) :: List.replicate more (.error (.closed 0)))) ∧
      (∀ k < n, let unread := (c.readLines k).2.incoming
        ((∃ e, (c.readLines n).1[k]? = some (.error e)) ↔ ¬ lineMark <:+: unread) ∧
          ∀ e, (c.readLines n).1[k]? = some (.error e) →
            (c.readLines (k + 1)).2.incoming = [] ∧
              e.message = "connection closed after " ++ Text.ofNat unread.length ++
                " byte(s) of an unterminated line") ∧
      ∀ lines : List (List UInt8), (∀ line ∈ lines, IsLine line) → c.incoming = lines.flatten →
        (c.readLines n).1 =
            (lines.take n).map .ok ++ List.replicate (n - lines.length) (.error (.closed 0)) ∧
          (c.readLines n).2.incoming = (lines.drop n).flatten := by
  refine ⟨(frames_readLines h).exists_lines, fun k hk => ?_, fun lines => readLines_of_lines h⟩
  obtain ⟨hread, hafter⟩ := getElem?_readLines hk c
  have hspared (reason : Text) : (c.readLines k).2.readLine.1 ≠ .error (.failed reason) :=
    fun hfailed => h reason (List.mem_of_getElem? (hread.trans (congrArg some hfailed)))
  rw [hread, hafter]
  dsimp only
  rcases readLine_cases hspared with ⟨line, hline, hincoming, hok⟩ | ⟨hnone, hleft, herror⟩
  · have hmark : lineMark <:+: (c.readLines k).2.incoming := by
      rw [hincoming]
      exact hline.ends.isInfix.trans (List.prefix_append _ _).isInfix
    simp [hok, hmark]
  · rw [herror]
    refine ⟨by simp [hnone], ?_⟩
    rintro e ⟨⟩
    exact ⟨hleft, rfl⟩

/-- A line with two carriage returns at its end, an empty one, and three bytes that are none. -/
theorem framing_exact_torn :
    let c : Channel := { incoming := [0x61, 0x0D, 0x0D, 0x0A, 0x0D, 0x0A, 0x0A, 0x62, 0x0D] }
    Undisturbed (c.readLines 4).1 ∧
      (c.readLines 4).1 =
        [.ok [0x61, 0x0D, 0x0D, 0x0A], .ok [0x0D, 0x0A], .error (.closed 3), .error (.closed 0)] ∧
      (∃ (lines : List (List UInt8)) (rest : List UInt8),
        (∀ line ∈ lines, IsLine line) ∧ c.incoming = lines.flatten ++ rest ∧
        ((c.readLines 4).1 = lines.map .ok ∧ (c.readLines 4).2.incoming = rest ∨
          ¬ lineMark <:+: rest ∧ (c.readLines 4).2.incoming = [] ∧
            ∃ more, (c.readLines 4).1 = lines.map .ok ++
              .error (.closed rest.length) :: List.replicate more (.error (.closed 0)))) ∧
      ¬ lineMark <:+: (c.readLines 2).2.incoming := by
  intro c
  have houtcomes : (c.readLines 4).1 =
      [.ok [0x61, 0x0D, 0x0D, 0x0A], .ok [0x0D, 0x0A], .error (.closed 3), .error (.closed 0)] :=
    rfl
  have hspared : Undisturbed (c.readLines 4).1 := by
    rw [houtcomes]
    simp [Undisturbed]
  obtain ⟨hlines, hfails, -⟩ := framing_exact hspared
  exact ⟨hspared, houtcomes, hlines, (hfails 2 (by decide)).1.1 ⟨.closed 3, by rw [houtcomes]; rfl⟩⟩

end WireScript.Channel
