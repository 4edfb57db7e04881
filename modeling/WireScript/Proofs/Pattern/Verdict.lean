import WireScript.Proofs.Pattern.Match
import WireScript.Proofs.Run.Halt
import WireScript.Proofs.Run.Receive
import WireScript.Proofs.Value

/-!
# The verdict of a match

What can be said about a match by looking at the readings of the text.

* `match_takes_whole_text`: a value is the text, and a receive never ends in a mismatch.
* `match_finds_reading`: a match has a value only if there is a reading, and binds what the reading
  says.  The only reading of a text is found, and a text without readings has no value.
* `match_ambiguous_iff`: a text with several readings is reported as ambiguous exactly if several
  readings count, as all of them do where there are two dots.
-/

namespace WireScript

namespace Expr

variable {α : Type} {clock : Clock} {b : Bindings} {t : Text} {m : Memory}

open Eval Memory

/-! ## The whole text -/

/-- A match takes neither less nor more than its text: where a pattern with a dot has a value, the
value is the text, and a receive with such a pattern never ends in a mismatch. -/
theorem match_takes_whole_text {p : Expr α} (hp : p.IsPattern) (h : p.dots ≠ 0) (clock : Clock) :
    (∀ t m v m', t.IsDecoded → p.eval clock (some t) m = .ok v m' → v = .text t) ∧
      ∀ note source w error note' w',
        (Stmt.receive note p source).execute clock w = .error (.failed error note') w' →
          error.code ≠ ("E406" : Text) := by
  refine ⟨fun t m v m' ht hv => eval_eq_text hp h ht hv, ?_⟩
  intro note source w error note' w' herror hcode
  obtain ⟨received, matched, rfl⟩ := RuntimeError.exists_mismatch_of_code hcode
  rw [Stmt.execute_receive_eq_judge] at herror
  rcases bind_eq_error_iff.1 herror with herror | ⟨line, w₁, hline, herror⟩
  · obtain ⟨e, he⟩ := Exec.receive_eq_error herror
    cases he
  · rcases bind_eq_error_iff.1 herror with herror | ⟨r, w₂, hmatch, herror⟩
    · obtain ⟨m, hhalt, _⟩ := Exec.evaluate_eq_error_iff.1 herror
      exact haltsOnly_eval clock p (some line) _ _ _ _ hhalt
    · obtain ⟨m, hattempt, _⟩ := Exec.evaluate_eq_ok_iff.1 hmatch
      rcases attempt_eq_ok_iff.1 hattempt with ⟨v, rfl, hv⟩ | ⟨f, rfl, _⟩
      · have hwhole := eval_eq_text hp h (Exec.isDecoded_of_receive hline) hv
        rw [Exec.judge, hwhole, Value.toText, if_pos rfl] at herror
        cases herror
      · by_cases hf : f.isAmbiguous
        · rw [Exec.judge, if_pos hf] at herror
          cases herror
        · rw [Exec.judge, if_neg hf] at herror
          cases herror

/-- A digit and a character that is bound. -/
theorem match_takes_whole_text_after_digit :
    ∃ v m', eval (fun _ => 0) (.concat () (.integer () 7) (.assign () () ("x" : Text) (.dot ())))
      (some ("7b" : Text)) {} = .ok v m' ∧ v = .text ("7b" : Text) := by
  have hp : IsPattern (.concat () (.integer () 7) (.assign () () ("x" : Text) (.dot ()))) :=
    .concat () (.integer () 7) (.assign () () _ (.dot ()))
  have ht : Text.IsDecoded ("7b" : Text) := Text.isDecoded_ofChars _
  have hread : IsReading [] (.concat () (.integer () 7) (.assign () () ("x" : Text) (.dot ())))
      ("7b" : Text) [("b" : Text)] := ⟨rfl, .text "7b", by decide, rfl⟩
  have hdecided : Decided (fun _ => 0) [] _ :=
    (hread.legible ht.isEncodable hp (by decide) (by decide) (by decide)).decided (by decide)
  obtain ⟨r, m', hmatch, hsettles⟩ := hdecided _ {} ht fun x _ => rfl
  rcases hsettles.ok_or_error with ⟨_, _, rfl, _⟩ | ⟨hnone, _⟩
  · have hv := attempt_eq_ok hmatch
    exact ⟨_, m', hv, (match_takes_whole_text hp (by decide) (fun _ => 0)).1 _ _ _ _ ht hv⟩
  · exact absurd rfl (hnone [("b" : Text)])

/-! ## Readings found -/

theorem legible_of_bound {p : Expr α} (hp : p.IsPattern)
    (hliterals : ∀ s ∈ p.literals, s.isEncodable) (hnow : nowName ∉ p.reads)
    (hnodup : p.targets.Nodup) (hfresh : ∀ x ∈ p.reads, x ∉ p.targets)
    (hwf : ∀ entry ∈ b, entry.2.WellFormed) (hbound : ∀ x ∈ p.reads, (b.get? x).isSome) :
    p.Legible b where
  isPattern := hp
  literals := hliterals
  names x hx := by
    obtain ⟨v, hv⟩ := Option.isSome_iff_exists.1 (hbound x hx)
    refine ⟨fun heq => hnow (heq ▸ hx), v, hv, ?_⟩
    exact (hwf (x, v) (Bindings.mem_of_get? hv)).isEncodable
  fresh := hfresh
  nodup := hnodup

/-- What a match with one candidate binds. -/
theorem bindsOver_captures {p : Expr α} (hp : p.IsPattern) {r : Except MatchFailure Value}
    {m' : Memory} {ts : List Text}
    (hmatch : (p.eval clock (some t)).attempt m = .ok r m')
    (hread : p.IsReading m.bindings t ts) (hbinds : Binds (p.captures m.bindings ts) m') :
    BindsOver m.bindings (p.captures m.bindings ts) m' := by
  have hoff : SameOff p.targets m m' := (sameOff_eval p (some t)).of_attempt hmatch
  rw [← map_fst_captures hp hread] at hoff
  exact hbinds.over hoff

/-- A match is sound and finds the only reading.  Take a pattern with a dot that assigns no name
twice and reads none that it assigns, and bindings that give every name it reads a well-formed
value.  Then matching a decoded text ends the run in no case, and

* a value is the text itself, and some reading says what the names of the pattern are bound to
  afterwards, while all others keep their values;
* if there is one reading only, there is a value, and that reading says what is bound;
* if there is no reading, the match fails, and not for ambiguity. -/
theorem match_finds_reading {p : Expr α} (hp : p.IsPattern) (hdots : p.dots ≠ 0)
    (hliterals : ∀ s ∈ p.literals, s.isEncodable) (hnow : nowName ∉ p.reads)
    (hnodup : p.targets.Nodup) (hfresh : ∀ x ∈ p.reads, x ∉ p.targets)
    (hwf : ∀ entry ∈ m.bindings, entry.2.WellFormed)
    (hbound : ∀ x ∈ p.reads, (m.bindings.get? x).isSome) (ht : t.IsDecoded) (clock : Clock) :
    ∃ r m', (p.eval clock (some t)).attempt m = .ok r m' ∧
      (∀ v, r = .ok v → v = .text t ∧ ∃ ts, p.IsReading m.bindings t ts ∧
        BindsOver m.bindings (p.captures m.bindings ts) m') ∧
      (∀ ts, p.IsReading m.bindings t ts → (∀ us, p.IsReading m.bindings t us → us = ts) →
        r = .ok (.text t) ∧ BindsOver m.bindings (p.captures m.bindings ts) m') ∧
      ((∀ ts, ¬ p.IsReading m.bindings t ts) →
        ∃ failure, r = .error failure ∧ failure.isAmbiguous = false) := by
  have hlegible : p.Legible m.bindings :=
    legible_of_bound hp hliterals hnow hnodup hfresh hwf hbound
  obtain ⟨r, m', hmatch, hsettles⟩ :=
    hlegible.decided hdots t m ht fun x _ => rfl
  refine ⟨r, m', hmatch, ?_, ?_, ?_⟩
  · rintro v rfl
    rcases hsettles.ok_or_error with ⟨ts, hts, hv, hbinds⟩ | ⟨_, failure, hfailure⟩
    · have hread := isReading_of_mem_candidates hp (hts ▸ List.mem_singleton_self ts)
      cases hv
      exact ⟨rfl, ts, hread, bindsOver_captures hp hmatch hread hbinds⟩
    · cases hfailure
  · intro ts hread hunique
    rw [candidates_of_unique hp hdots hread hunique] at hsettles
    obtain ⟨rfl, hbinds⟩ := hsettles
    exact ⟨rfl, bindsOver_captures hp hmatch hread hbinds⟩
  · intro hnone
    have hnil : p.candidates m.bindings t = [] :=
      List.eq_nil_iff_forall_not_mem.2 fun ts hts => hnone ts (isReading_of_mem_candidates hp hts)
    rw [hnil] at hsettles
    exact hsettles

/-- The only reading of a digit that is bound and a character that is not. -/
theorem match_finds_reading_after_digit :
    ∃ m', (eval (fun _ => 0)
        (.concat () (.name () ("d" : Text)) (.assign () () ("x" : Text) (.dot ())))
        (some ("7b" : Text))).attempt { bindings := [("d", .integer 7)] } =
          .ok (.ok (.text ("7b" : Text))) m' ∧
      m'.bindings.get? ("x" : Text) = some (.text ("b" : Text)) := by
  have hp : IsPattern (.concat () (.name () ("d" : Text))
      (.assign () () ("x" : Text) (.dot ()))) :=
    .concat () (.name () _) (.assign () () _ (.dot ()))
  have hread : IsReading [("d", .integer 7)]
      (.concat () (.name () ("d" : Text)) (.assign () () ("x" : Text) (.dot ()))) ("7b" : Text)
      [("b" : Text)] := ⟨rfl, .text "7b", by decide, rfl⟩
  obtain ⟨r, m', hmatch, _, hfound, _⟩ := match_finds_reading
    (m := { bindings := [("d", .integer 7)] }) hp (by decide) (by decide) (by decide) (by decide)
    (by decide) (by decide) (by decide) (Text.isDecoded_ofChars _) (fun _ => 0)
  obtain ⟨rfl, hbinds⟩ := hfound _ hread fun us hus => hread.unique_of_dots_eq_one hp rfl hus
  exact ⟨m', hmatch, (hbinds _).trans (by decide)⟩

/-! ## Several readings -/

/-- A text with several readings is reported as ambiguous exactly if several of them count, by the
match and by a receive.  With two dots at most all of them count.  There is a value only if just one
of them counts, so that none is ever picked among several. -/
theorem match_ambiguous_iff {p : Expr α} (hp : p.IsPattern) (hdots : p.dots ≠ 0)
    (hnow : nowName ∉ p.reads) (hnodup : p.targets.Nodup) (hfresh : ∀ x ∈ p.reads, x ∉ p.targets)
    (ht : t.IsDecoded) {ts us : List Text} (hts : p.IsReading b t ts) (hus : p.IsReading b t us)
    (hne : ts ≠ us) (clock : Clock) :
    (p.dots ≤ 2 → p.Ambiguous b t) ∧
      (∀ m, m.bindings = b → ∃ r m', (p.eval clock (some t)).attempt m = .ok r m' ∧
        ((∃ failure, r = .error failure ∧ failure.isAmbiguous = true) ↔ p.Ambiguous b t) ∧
        ((∃ v, r = .ok v) ↔ ∃ vs, p.Counts b t vs ∧ ∀ ws, p.Counts b t ws → ws = vs)) ∧
      ∀ note source w bytes channel, w.memory.bindings = b →
        w.channel.readLine = (.ok bytes, channel) → Utf8.decode bytes = t →
          ((∃ w', (Stmt.receive note p source).execute clock w = .error
              (.failed (.ambiguousMatch (t.take (t.length - 2)) source) note) w') ↔
            p.Ambiguous b t) := by
  have hlegible : p.Legible b := hts.legible ht.isEncodable hp hnow hfresh hnodup
  refine ⟨fun htwo => ?_, ?_, ?_⟩
  · refine ⟨ts, us, hne, ?_, ?_⟩
    · exact (mem_candidates_iff_counts hp hdots).1 (mem_candidates_of_dots_le_two hp hdots htwo hts)
    · exact (mem_candidates_iff_counts hp hdots).1 (mem_candidates_of_dots_le_two hp hdots htwo hus)
  · rintro m rfl
    obtain ⟨r, m', hmatch, hsettles⟩ :=
      hlegible.decided hdots t m ht fun x _ => rfl
    refine ⟨r, m', hmatch, ?_, ?_⟩
    · rw [hsettles.isAmbiguous_iff, ambiguous_iff_two_le_length hp hdots]
    · simp only [← mem_candidates_iff_counts hp hdots, ← candidates_eq_singleton_iff hp]
      rcases hsettles.ok_or_error with ⟨vs, hvs, rfl, _⟩ | ⟨hnone, failure, rfl⟩
      · exact iff_of_true ⟨_, rfl⟩ ⟨vs, hvs⟩
      · refine iff_of_false ?_ fun ⟨vs, hvs⟩ => hnone vs hvs
        rintro ⟨v, hv⟩
        cases hv
  · rintro note source w bytes channel rfl hline rfl
    obtain ⟨r, m', hmatch, hsettles⟩ := hlegible.decided hdots _
      (Exec.heard w (Utf8.decode bytes) channel).memory ht fun x _ => rfl
    rw [Stmt.execute_receive_of_attempt hline hmatch, ambiguous_iff_two_le_length hp hdots,
      ← hsettles.isAmbiguous_iff]
    simp only [Exec.judge_eq_ambiguousMatch_iff, exists_eq_left]

/-- Two dots side by side. -/
theorem match_ambiguous_iff_of_two_dots :
    ∃ failure m', (eval (fun _ => 0) (.concat () (.dot ()) (.assign () () ("x" : Text) (.dot ())))
        (some ("a" : Text))).attempt {} = .ok (.error failure) m' ∧ failure.isAmbiguous = true := by
  have hread (ts : List Text) (h : ts ∈ [[("a" : Text), ""], ["", "a"]]) :
      IsReading [] (.concat () (.dot ()) (.assign () () ("x" : Text) (.dot ())))
        ("a" : Text) ts := by
    rw [List.mem_pair] at h
    rcases h with rfl | rfl
    · exact ⟨rfl, .text "a", by decide, rfl⟩
    · exact ⟨rfl, .text "a", by decide, rfl⟩
  obtain ⟨htwo, hmatch, _⟩ := match_ambiguous_iff
    (.concat () (.dot ()) (.assign () () _ (.dot ()))) (by decide) (by decide) (by decide)
    (by decide) (Text.isDecoded_ofChars _) (hread _ List.mem_cons_self)
    (hread _ (List.mem_cons_of_mem _ List.mem_cons_self)) (by decide) (fun _ => 0)
  obtain ⟨r, m', hattempt, hambiguous, _⟩ := hmatch {} rfl
  obtain ⟨failure, rfl, hfailure⟩ := hambiguous.2 (htwo (by decide))
  exact ⟨failure, m', hattempt, hfailure⟩

/-- The pattern of a template of three dots. -/
def threeDots : Expr Unit :=
  .concat () (.dot ()) (.concat () (.dot ()) (.concat () (.dot ()) (.string () ("\r\n" : Text))))

/-- With three dots a text with several readings may have a value: here only the reading that leaves
nothing to the last two dots counts, since at any other cut they are ambiguous by themselves. -/
theorem threeDots_match_one_of_several :
    threeDots.IsPattern ∧ threeDots.dots = 3 ∧ threeDots.reads = [] ∧ threeDots.targets = [] ∧
      Text.IsDecoded ("a\r\n" : Text) ∧
      threeDots.IsReading [] ("a\r\n" : Text) ["a", "", ""] ∧
      threeDots.IsReading [] ("a\r\n" : Text) ["", "a", ""] ∧
      ∃ m', (threeDots.eval (fun _ => 0) (some ("a\r\n" : Text))).attempt {} =
        .ok (.ok (.text ("a\r\n" : Text))) m' := by
  have hp : threeDots.IsPattern :=
    .concat () (.dot ()) (.concat () (.dot ()) (.concat () (.dot ()) (.string () _)))
  have hdecoded : Text.IsDecoded ("a\r\n" : Text) := Text.isDecoded_ofChars _
  have hline : Value.ofText? ("\r\n" : Text) = some (.text ("\r\n" : Text)) :=
    congrArg (Option.map Value.text) (Text.canonical_ofChars _)
  have hread : ∀ ts ∈ [[("a" : Text), "", ""], ["", "a", ""]],
      threeDots.IsReading [] ("a\r\n" : Text) ts := by
    intro ts hts
    rw [List.mem_pair] at hts
    refine ⟨?_, .text "a\r\n", ?_, rfl⟩
    · rcases hts with rfl | rfl
      · rfl
      · rfl
    · simp only [threeDots, value?, hline]
      rcases hts with rfl | rfl
      · decide
      · decide
  have hread₁ := hread _ List.mem_cons_self
  have hcandidates :
      threeDots.candidates [] ("a\r\n" : Text) = [[("a" : Text), "", ""]] := by
    simp only [threeDots, candidates, value?, hline, Value.toText, dots]
    decide
  have hdecided : Decided (fun _ => 0) [] threeDots :=
    (hread₁.legible hdecoded.isEncodable hp (by decide) (by decide) (by decide)).decided (by decide)
  obtain ⟨r, m', hmatch, hsettles⟩ := hdecided _ {} hdecoded fun x _ => rfl
  rw [hcandidates] at hsettles
  obtain ⟨rfl, _⟩ := hsettles
  exact ⟨hp, rfl, rfl, rfl, hdecoded, hread₁,
    hread _ (List.mem_cons_of_mem _ List.mem_cons_self), m', hmatch⟩

end Expr

end WireScript
