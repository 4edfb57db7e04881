import Mathlib.Data.List.Infix
import WireScript.Run.Channel

/-!
# Reading lines

What a peer sends is cut into lines at the pairs of a carriage return and a line feed.  A line is
read one byte at a time, and the two bytes of a pair may come at any distance from what was read
before, so this module says which bytes a reading takes without any account of how they are taken.

* `IsLine` is a line: it ends with such a pair, and no other pair is in it.
* `ReadsLine` says what a reading of a channel leads to.  Either the next bytes are a line, and
  these are taken; or there is no pair in all that is left, and everything is taken; or a byte could
  not be read in front of the first pair, and the bytes before it are taken.
* `readsLine_iff` relates it to the reading that runs.  A channel allows one of the three only,
  because no line opens another one (`IsLine.eq_of_prefix`).
-/

namespace WireScript.Channel

/-- The pair of bytes that ends a line. -/
def lineMark : List UInt8 := [0x0D, 0x0A]

/-- Bytes with the mark of a line at their end and nowhere else. -/
structure IsLine (line : List UInt8) : Prop where
  ends : lineMark <:+ line
  once : ¬ lineMark <:+: line.dropLast

instance (line : List UInt8) : Decidable (IsLine line) :=
  decidable_of_iff (lineMark <:+ line ∧ ¬ lineMark <:+: line.dropLast)
    ⟨fun h => ⟨h.1, h.2⟩, fun h => ⟨h.ends, h.once⟩⟩

/-! ## Marks -/

/-- One more byte makes a mark only together with the byte before it. -/
theorem lineMark_infix_concat {bytes : List UInt8} {b : UInt8} :
    lineMark <:+: bytes ++ [b] ↔
      lineMark <:+: bytes ∨ (b = 0x0A ∧ bytes.getLast? = some 0x0D) := by
  have hends : lineMark <:+ bytes ++ [b] ↔ b = 0x0A ∧ bytes.getLast? = some 0x0D := by
    rw [List.suffix_concat_iff]
    constructor
    · rintro (h | ⟨t, ht, hsuffix⟩)
      · cases h
      · have hsplit : [0x0D] ++ [0x0A] = t ++ [b] := ht
        obtain ⟨rfl, hb⟩ := List.append_inj' hsplit rfl
        obtain ⟨front, rfl⟩ := hsuffix
        exact ⟨(List.singleton_inj.1 hb).symm, by simp⟩
    · rintro ⟨rfl, hlast⟩
      obtain ⟨front, rfl⟩ := List.getLast?_eq_some_iff.1 hlast
      exact Or.inr ⟨[0x0D], rfl, List.suffix_append front [0x0D]⟩
  rw [List.infix_concat_iff, hends, or_comm]

/-- A byte that makes a mark with the bytes before it makes a line of them. -/
theorem isLine_concat {bytes : List UInt8} (hnone : ¬ lineMark <:+: bytes)
    (hlast : bytes.getLast? = some 0x0D) : IsLine (bytes ++ [0x0A]) := by
  obtain ⟨front, rfl⟩ := List.getLast?_eq_some_iff.1 hlast
  refine ⟨⟨front, by simp [lineMark]⟩, ?_⟩
  rwa [List.dropLast_concat]

/-- The bytes in front of the end of a line have no mark, however far they reach. -/
theorem IsLine.not_infix_of_lt {line bytes : List UInt8} (h : IsLine line) (hbytes : bytes <+: line)
    (hlt : bytes.length < line.length) : ¬ lineMark <:+: bytes := by
  intro hmark
  have hfront : bytes <+: line.dropLast := by
    apply List.prefix_of_prefix_length_le hbytes (List.dropLast_prefix line)
    rw [List.length_dropLast]
    omega
  exact h.once (hmark.trans hfront.isInfix)

/-- No line opens another one. -/
theorem IsLine.eq_of_prefix {line line' bytes : List UInt8} (h : IsLine line) (h' : IsLine line')
    (hp : line <+: bytes) (hp' : line' <+: bytes) : line = line' := by
  rcases Nat.lt_trichotomy line.length line'.length with hlt | heq | hlt
  · have hopens := List.prefix_of_prefix_length_le hp hp' (Nat.le_of_lt hlt)
    exact absurd h.ends.isInfix (h'.not_infix_of_lt hopens hlt)
  · exact (List.prefix_of_prefix_length_le hp hp' (Nat.le_of_eq heq)).eq_of_length heq
  · have hopens := List.prefix_of_prefix_length_le hp' hp (Nat.le_of_lt hlt)
    exact absurd h'.ends.isInfix (h.not_infix_of_lt hopens hlt)

/-! ## What a reading takes -/

variable {c d : Channel} {r : Except ReadError (List UInt8)}

/-- The next bytes that are asked for can be read, as many of them as there are. -/
def Spares (c : Channel) (count : Nat) : Prop :=
  ∀ i < count, Fault.strikes c.readFault (c.reads + i) = none

/-- The channel after a number of bytes were asked for and read, as many as there were. -/
def past (c : Channel) (count : Nat) : Channel :=
  { c with incoming := c.incoming.drop count, reads := c.reads + count }

/-- What reading a line from a channel leads to, and the channel after it. -/
inductive ReadsLine (c : Channel) : Except ReadError (List UInt8) → Channel → Prop where
  /-- The next bytes are a line. -/
  | line {line : List UInt8} (hnext : line <+: c.incoming) (hline : IsLine line)
      (hspared : c.Spares line.length) : ReadsLine c (.ok line) (c.past line.length)
  /-- The connection is closed before the line ends. -/
  | closed (hnone : ¬ lineMark <:+: c.incoming) (hspared : c.Spares (c.incoming.length + 1)) :
      ReadsLine c (.error (.closed c.incoming.length)) (c.past (c.incoming.length + 1))
  /-- A byte cannot be read before the line ends. -/
  | failed {count : Nat} {reason : Text} (hcount : count ≤ c.incoming.length)
      (hnone : ¬ lineMark <:+: c.incoming.take count) (hspared : c.Spares count)
      (hstrikes : Fault.strikes c.readFault (c.reads + count) = some reason) :
      ReadsLine c (.error (.failed reason)) (c.past count)

theorem Spares.succ {count : Nat} (h : c.Spares count)
    (hnext : Fault.strikes c.readFault (c.reads + count) = none) : c.Spares (count + 1) := by
  intro i hi
  rcases Nat.lt_succ_iff_lt_or_eq.1 hi with hlt | rfl
  · exact h i hlt
  · exact hnext

/-- Reading goes on from the bytes that were taken already, without a mark among them. -/
theorem readsLine_of_readLineFrom {taken rest left : List UInt8} {reads : Nat}
    (hincoming : c.incoming = taken.reverse ++ rest) (hnone : ¬ lineMark <:+: taken.reverse)
    (hspared : c.Spares taken.length)
    (hread : readLineFrom c.readFault taken (c.reads + taken.length) rest = (r, reads, left)) :
    c.ReadsLine r { c with incoming := left, reads := reads } := by
  induction rest generalizing taken with
  | nil =>
    rw [List.append_nil] at hincoming
    have hlength : c.incoming.length = taken.length := by rw [hincoming, List.length_reverse]
    cases hstrikes : Fault.strikes c.readFault (c.reads + taken.length) with
    | some reason =>
      simp only [readLineFrom, hstrikes] at hread
      cases hread
      have hfailed := ReadsLine.failed (Nat.le_of_eq hlength.symm)
        (by rwa [← hlength, List.take_length, hincoming]) hspared hstrikes
      rwa [past, ← hlength, List.drop_length, hlength] at hfailed
    | none =>
      simp only [readLineFrom, hstrikes] at hread
      cases hread
      have hclosed := ReadsLine.closed (by rwa [hincoming]) (hlength ▸ hspared.succ hstrikes)
      rwa [past, List.drop_eq_nil_of_le (Nat.le_succ _), hlength, ← Nat.add_assoc] at hclosed
  | cons b rest ih =>
    cases hstrikes : Fault.strikes c.readFault (c.reads + taken.length) with
    | some reason =>
      simp only [readLineFrom, hstrikes] at hread
      cases hread
      have htake : c.incoming.take taken.length = taken.reverse := by
        rw [hincoming, ← List.length_reverse, List.take_left]
      have hdrop : c.incoming.drop taken.length = b :: rest := by
        rw [hincoming, ← List.length_reverse, List.drop_left]
      have hfailed := ReadsLine.failed (by simp [hincoming]) (by rwa [htake]) hspared hstrikes
      rwa [past, hdrop] at hfailed
    | none =>
      have hmore : c.Spares (b :: taken).length := hspared.succ hstrikes
      have hfront : c.incoming = (b :: taken).reverse ++ rest := by simp [hincoming]
      by_cases hends : b = 0x0A ∧ taken.head? = some 0x0D
      · obtain ⟨rfl, hhead⟩ := hends
        have hline : IsLine (0x0A :: taken).reverse := by
          rw [List.reverse_cons]
          exact isLine_concat hnone (by rwa [List.getLast?_reverse])
        have hrest : c.incoming.drop (0x0A :: taken).length = rest := by
          rw [hfront, ← List.length_reverse, List.drop_left]
        have htaken := ReadsLine.line ⟨rest, hfront.symm⟩ hline (by rwa [List.length_reverse])
        rw [List.length_reverse, past, hrest] at htaken
        simp only [readLineFrom, hstrikes, hhead, and_self, if_true] at hread
        cases hread
        exact htaken
      · have hnone' : ¬ lineMark <:+: (b :: taken).reverse := by
          rw [List.reverse_cons, lineMark_infix_concat, List.getLast?_reverse]
          exact fun h => h.elim hnone hends
        simp only [readLineFrom, hstrikes, if_neg hends] at hread
        exact ih hfront hnone' hmore hread

/-- What a reading leads to. -/
theorem readsLine_readLine (c : Channel) : c.ReadsLine c.readLine.1 c.readLine.2 := by
  have hincoming : c.incoming = [].reverse ++ c.incoming := rfl
  have hspared : c.Spares 0 := fun _ hi => absurd hi (Nat.not_lt_zero _)
  exact readsLine_of_readLineFrom hincoming (by decide) hspared rfl

/-- A reading leads to one thing only. -/
theorem ReadsLine.unique {r' : Except ReadError (List UInt8)} {d' : Channel} (h : c.ReadsLine r d)
    (h' : c.ReadsLine r' d') : r = r' ∧ d = d' := by
  -- a line cannot be there when there is no mark, nor behind a byte that cannot be read
  have hclosed {line : List UInt8} (hnext : line <+: c.incoming) (hline : IsLine line)
      (hnone : ¬ lineMark <:+: c.incoming) : False :=
    hnone (hline.ends.isInfix.trans hnext.isInfix)
  have hfailed {line : List UInt8} {count : Nat} {reason : Text} (hnext : line <+: c.incoming)
      (hline : IsLine line) (hspared : c.Spares line.length)
      (hnone : ¬ lineMark <:+: c.incoming.take count)
      (hstrikes : Fault.strikes c.readFault (c.reads + count) = some reason) : False := by
    by_cases hlt : count < line.length
    · rw [hspared count hlt] at hstrikes
      cases hstrikes
    · have hopens : line <+: c.incoming.take count := List.prefix_take_iff.2 ⟨hnext, by omega⟩
      exact hnone (hline.ends.isInfix.trans hopens.isInfix)
  have hended {count : Nat} {reason : Text} (hcount : count ≤ c.incoming.length)
      (hspared : c.Spares (c.incoming.length + 1))
      (hstrikes : Fault.strikes c.readFault (c.reads + count) = some reason) : False := by
    rw [hspared count (by omega)] at hstrikes
    cases hstrikes
  cases h with
  | line hnext hline hspared =>
    cases h' with
    | line hnext' hline' _ =>
      rw [hline.eq_of_prefix hline' hnext hnext']
      exact ⟨rfl, rfl⟩
    | closed hnone' _ => exact (hclosed hnext hline hnone').elim
    | failed _ hnone' _ hstrikes' => exact (hfailed hnext hline hspared hnone' hstrikes').elim
  | closed hnone hspared =>
    cases h' with
    | line hnext' hline' _ => exact (hclosed hnext' hline' hnone).elim
    | closed => exact ⟨rfl, rfl⟩
    | failed hcount' _ _ hstrikes' => exact (hended hcount' hspared hstrikes').elim
  | @failed count _ hcount hnone hspared hstrikes =>
    cases h' with
    | line hnext' hline' hspared' => exact (hfailed hnext' hline' hspared' hnone hstrikes).elim
    | closed _ hspared' => exact (hended hcount hspared' hstrikes).elim
    | @failed count' _ _ _ hspared' hstrikes' =>
      rcases Nat.lt_trichotomy count count' with hlt | rfl | hlt
      · rw [hspared' _ hlt] at hstrikes
        cases hstrikes
      · rw [hstrikes] at hstrikes'
        cases hstrikes'
        exact ⟨rfl, rfl⟩
      · rw [hspared _ hlt] at hstrikes'
        cases hstrikes'

/-- The reading that runs leads to what a reading leads to, and to nothing else. -/
theorem readsLine_iff : c.ReadsLine r d ↔ c.readLine = (r, d) := by
  constructor
  · intro h
    obtain ⟨hr, hd⟩ := h.unique (readsLine_readLine c)
    exact Prod.ext hr.symm hd.symm
  · intro h
    have hread := readsLine_readLine c
    rwa [h] at hread

end WireScript.Channel
