import WireScript.Proofs.Grammar.Script
import WireScript.Proofs.Text.Decoding
import WireScript.Proofs.Token.Spelling

/-!
# Compiling undoes printing

An expression without templates can be printed as a line of words, with parentheses only where an
operand is too loose for its place.  Compiling the line gives the expression back, alone
and as the operand of a statement (`compile_printed`).

The words of an expression are the tokens it is printed as (`printed`).  They are scanned back
because every token is read from its spelling, and they derive the expression because the
parentheses stand where the levels of the grammar want them (`derives_printed`); that they are read
as nothing else is what the parser's correctness says.
-/

namespace WireScript

/-! ## Signs -/

/-- The sign of an operator. -/
def Operator.mark : Operator → Mark
  | or => .or
  | and => .and
  | equal => .equal
  | notEqual => .notEqual
  | less => .less
  | greater => .greater
  | atMost => .atMost
  | atLeast => .atLeast
  | plus => .plus
  | minus => .minus
  | times => .star
  | dividedBy => .slash
  | remainder => .percent

@[simp] theorem Operator.operator?_mark (op : Operator) : op.mark.operator? = some op := by
  cases op <;> rfl

/-- The operator that an operation on integers is written with. -/
def IntOp.written : IntOp → Operator
  | add => .plus
  | sub => .minus
  | mul => .times
  | div => .dividedBy
  | rem => .remainder
  | eq => .equal
  | lt => .less
  | gt => .greater

theorem IntOp.apply_written (op : IntOp) (l r : Expr Unit) :
    op.written.apply () l r = .binary () op l r := by
  cases op <;> rfl

/-! ## Compiling tokens -/

/-- Tokens that can be written, and ends of lines, can be sent. -/
theorem Scan.isEncodable_of_isWritten {ts : List Token}
    (hwritten : ∀ t ∈ ts, t.kind.IsWritten ∨ t.kind = .newline) (stop : Location)
    (rs : List (Report LexicalError)) : (⟨ts ++ [.atEnd stop], rs⟩ : Scan).isEncodable = true := by
  rw [Scan.isEncodable, List.all_append, Bool.and_eq_true]
  refine ⟨List.all_eq_true.2 fun t ht => ?_, rfl⟩
  have hkind := hwritten t ht
  split
  · next value hvalue =>
    rw [hvalue] at hkind
    rcases hkind with hkind | hkind
    · exact Text.isEncodable_iff.2 ⟨value, hkind⟩
    · cases hkind
  · rfl

/-- A source whose tokens can be written, apart from the ends of its lines, compiles to the script
that they make. -/
theorem Source.compile_of_isWritten (source : Source) {ts : List Token} {stop : Location}
    {ss : List (Stmt Unit)} (hscans : (Cursor.ofText source.text).Scans ts [] ⟨stop, []⟩)
    (hwritten : ∀ t ∈ ts, t.kind.IsWritten ∨ t.kind = .newline)
    (h : Grammar.DerivesScript (some source.text) ts ss) :
    ∃ script, source.compile = .script script ∧ script.map (fun _ => ()) = ⟨(), ss⟩ := by
  have hscan : scan source.text = ⟨ts ++ [.atEnd stop], []⟩ := hscans.scanFrom_eq
  have hends (t : Token) (ht : t ∈ ts) : t.kind ≠ .endOfInput := by
    intro hend
    have hkind := hwritten t ht
    rw [hend] at hkind
    rcases hkind with hkind | hkind <;> cases hkind
  have hencodable : (scan source.text).isEncodable = true := by
    rw [hscan]
    exact Scan.isEncodable_of_isWritten hwritten stop []
  exact source.compile_of_scan hscan hencodable hends h

namespace Grammar

/-! ## Printing -/

/-- Expressions that can be printed: the literals and names in them can be spelled, and there are no
templates. -/
def IsPlain : Tree → Prop
  | .integer _ n => IsWord n
  | .string _ t => t.canonical = some t
  | .name _ x => x.IsName
  | .dot _ => True
  | .binary _ _ l r | .and _ l r | .or _ l r => IsPlain l ∧ IsPlain r
  | .not _ e => IsPlain e
  | .concat .. => False
  | .assign _ _ x e => x.IsName ∧ IsPlain e

/-- The tokens of an expression at its own level, in parentheses if a tighter one is wanted. -/
def grouped (wanted own : Nat) (ks : List TokenKind) : List TokenKind :=
  if own < wanted then .mark .openGroup :: (ks ++ [.mark .closeGroup]) else ks

/-- The tokens of an operator between those of its operands. -/
def joined (wanted : Nat) (op : Operator) (ls rs : List TokenKind) : List TokenKind :=
  grouped wanted op.precedence (ls ++ .mark op.mark :: rs)

/-- The tokens of an expression where one of the given level is wanted.  A concatenation has none,
since it is only written as a template. -/
def printed (wanted : Nat) : Tree → List TokenKind
  | .integer _ n => [.integer n]
  | .string _ t => [.string t]
  | .name _ x => [.name x]
  | .dot _ => [.mark .dot]
  | .binary _ op l r =>
    let op := op.written
    joined wanted op (printed op.leftLevel l) (printed (op.precedence + 1) r)
  | .and _ l r =>
    let op := Operator.and
    joined wanted op (printed op.leftLevel l) (printed (op.precedence + 1) r)
  | .or _ l r =>
    let op := Operator.or
    joined wanted op (printed op.leftLevel l) (printed (op.precedence + 1) r)
  | .not _ e => .mark .not :: printed 6 e
  | .assign _ _ x e => grouped wanted 0 (.name x :: .mark .assign :: printed 0 e)
  | .concat .. => []

/-- The text of tokens, with spaces between them. -/
def words (ks : List TokenKind) : Text :=
  Text.join " " (ks.map (·.spelling))

/-! ## What is printed derives -/

variable {e l r : Tree} {ts : List Token} {ks ls rs : List TokenKind} {wanted own : Nat}

/-- Parentheses make an expression as tight as can be wanted. -/
theorem derives_grouped (hwanted : wanted ≤ 6)
    (h : ∀ ts : List Token, ts.map (·.kind) = ks → Derives (level own) ts e)
    (hts : ts.map (·.kind) = grouped wanted own ks) : Derives (level wanted) ts e := by
  unfold grouped at hts
  split at hts
  · obtain ⟨o, us, rfl, ho, hus⟩ := List.map_eq_cons_iff.1 hts
    obtain ⟨vs, cs, rfl, hvs, hcs⟩ := List.map_eq_append_iff.1 hus
    obtain ⟨c, rfl, hc⟩ := List.map_eq_singleton_iff.1 hcs
    have hinner : Derives .expression vs e := (h vs hvs).loosen (Nat.zero_le own)
    have hgroup : Derives (level 6) (o :: (vs ++ [c])) e := .ofAtom (.group ho hinner hc)
    exact hgroup.loosen hwanted
  · next hown => exact (h ts hts).loosen (Nat.le_of_not_lt hown)

theorem derives_joined (op : Operator) (hwanted : wanted ≤ 6)
    (hl : ∀ ts : List Token, ts.map (·.kind) = ls → Derives (level op.leftLevel) ts l)
    (hr : ∀ ts : List Token, ts.map (·.kind) = rs → Derives (level (op.precedence + 1)) ts r)
    (hts : ts.map (·.kind) = joined wanted op ls rs) :
    Derives (level wanted) ts (op.apply () l r) := by
  refine derives_grouped hwanted (fun ts hts => ?_) hts
  obtain ⟨us, vs, rfl, hus, hvs⟩ := List.map_eq_append_iff.1 hts
  obtain ⟨t, vs, rfl, ht, hvs⟩ := List.map_eq_cons_iff.1 hvs
  exact (hl us hus).apply (by simp [Token.operator?, ht]) (hr vs hvs)

/-- An atom is as tight as can be wanted. -/
theorem derives_atom {k : TokenKind} (hwanted : wanted ≤ 6) (hts : ts.map (·.kind) = [k])
    (h : ∀ t : Token, t.kind = k → Derives .atom [t] e) : Derives (level wanted) ts e := by
  obtain ⟨t, rfl, ht⟩ := List.map_eq_singleton_iff.1 hts
  have hunary : Derives (level 6) [t] e := .ofAtom (h t ht)
  exact hunary.loosen hwanted

/-- Tokens of the kinds that an expression is printed as derive the expression. -/
theorem derives_printed (he : IsPlain e) (hwanted : wanted ≤ 6)
    (hts : ts.map (·.kind) = printed wanted e) : Derives (level wanted) ts e := by
  have hprec (op : Operator) : op.precedence + 1 ≤ 6 ∧ op.leftLevel ≤ 6 := by
    cases op <;> decide
  induction e generalizing wanted ts with
  | integer _ n => exact derives_atom hwanted hts fun _ => .integer
  | string _ t => exact derives_atom hwanted hts fun _ => .string
  | name _ x => exact derives_atom hwanted hts fun _ => .name
  | dot _ => exact derives_atom hwanted hts fun _ => .dot
  | binary _ op l r ihl ihr =>
    rw [← IntOp.apply_written]
    exact derives_joined op.written hwanted (fun _ => ihl he.1 (hprec _).2)
      (fun _ => ihr he.2 (hprec _).1) hts
  | and _ l r ihl ihr =>
    exact derives_joined .and hwanted (fun _ => ihl he.1 (by decide))
      (fun _ => ihr he.2 (by decide)) hts
  | or _ l r ihl ihr =>
    exact derives_joined .or hwanted (fun _ => ihl he.1 (by decide))
      (fun _ => ihr he.2 (by decide)) hts
  | not _ e ih =>
    obtain ⟨t, us, rfl, ht, hus⟩ := List.map_eq_cons_iff.1 hts
    have hoperand : Derives (level 6) us e := ih he (Nat.le_refl 6) hus
    have hunary : Derives (level 6) (t :: us) (.not () e) := .not ht hoperand
    exact hunary.loosen hwanted
  | concat => exact absurd he id
  | assign _ _ x e ih =>
    refine derives_grouped hwanted (fun ts hts => ?_) hts
    obtain ⟨t, us, rfl, ht, hus⟩ := List.map_eq_cons_iff.1 hts
    obtain ⟨s, vs, rfl, hs, hvs⟩ := List.map_eq_cons_iff.1 hus
    exact .assign ht hs (ih he.2 (Nat.zero_le 6) hvs)

/-! ## What is printed is scanned -/

theorem isWritten_grouped (h : ∀ k ∈ ks, k.IsWritten) :
    ∀ k ∈ grouped wanted own ks, k.IsWritten := by
  unfold grouped
  split
  · simpa [or_imp, forall_and, TokenKind.IsWritten] using h
  · exact h

theorem isWritten_printed (he : IsPlain e) : ∀ k ∈ printed wanted e, k.IsWritten := by
  have hjoined {wanted : Nat} {op : Operator} {ls rs : List TokenKind}
      (hl : ∀ k ∈ ls, k.IsWritten) (hr : ∀ k ∈ rs, k.IsWritten) :
      ∀ k ∈ joined wanted op ls rs, k.IsWritten :=
    isWritten_grouped (List.forall_mem_append.2 ⟨hl, List.forall_mem_cons.2 ⟨trivial, hr⟩⟩)
  induction e generalizing wanted with
  | integer | string | name => exact List.forall_mem_singleton.2 he
  | dot => simp [printed, TokenKind.IsWritten]
  | binary _ _ _ _ ihl ihr | and _ _ _ ihl ihr | or _ _ _ ihl ihr =>
    exact hjoined (ihl he.1) (ihr he.2)
  | not _ _ ih => exact List.forall_mem_cons.2 ⟨trivial, ih he⟩
  | concat => exact absurd he id
  | assign _ _ _ _ ih =>
    apply isWritten_grouped
    exact List.forall_mem_cons.2 ⟨he.1, List.forall_mem_cons.2 ⟨trivial, ih he.2⟩⟩

/-! ## Compiling words -/

/-- Words that make a statement compile to it. -/
theorem compile_words {P : Stmt Unit → Prop} (ks : List TokenKind) (file : Option Text)
    (hwritten : ∀ k ∈ ks, k.IsWritten)
    (h : ∀ source (ts : List Token), ts.map (·.kind) = ks →
      ∃ s, DerivesStatement source ts s ∧ P s) :
    ∃ script s, (⟨words ks, file⟩ : Source).compile = .script script ∧
      script.map (fun _ => ()) = ⟨(), [s]⟩ ∧ P s := by
  obtain ⟨ts, stop, hkinds, hscans⟩ := scans_words .first hwritten
  have hkind (t : Token) (ht : t ∈ ts) : t.kind.IsWritten :=
    hwritten _ (hkinds ▸ List.mem_map_of_mem ht)
  obtain ⟨s, hs, hP⟩ := h (some (words ks)) ts hkinds
  obtain ⟨script, hcompile, hscript⟩ := Source.compile_of_isWritten ⟨words ks, file⟩ hscans
    (fun t ht => Or.inl (hkind t ht)) (.last hs)
  exact ⟨script, s, hcompile, hscript, hP⟩

/-- A word in front of other words. -/
theorem words_cons (k : TokenKind) (hks : ks ≠ []) :
    words (k :: ks) = k.spelling ++ .scalar ' ' :: words ks := by
  obtain ⟨k', ks, rfl⟩ := List.exists_cons_of_ne_nil hks
  simp [words, Text.join, Text.ofString, Text.ofChars]

/-- The sign of a statement in front of an operand compiles to the statement. -/
theorem compile_sign {P : Stmt Unit → Prop} (file : Option Text) (m : Mark) (he : IsPlain e)
    (h : ∀ source t (ts : List Token), t.kind = .mark m → Derives .expression ts e →
      ∃ s, DerivesStatement source (t :: ts) s ∧ P s) :
    ∃ script s,
      (⟨(m.spelling : Text) ++ .scalar ' ' :: words (printed 0 e), file⟩ : Source).compile =
        .script script ∧ script.map (fun _ => ()) = ⟨(), [s]⟩ ∧ P s := by
  have hne : printed 0 e ≠ [] := by
    intro hnil
    have hderives : Derives .expression [] e := derives_printed he (Nat.zero_le 6) hnil.symm
    obtain ⟨_, _, hcons, -⟩ := hderives.exists_head (by simp)
    cases hcons
  have hcompile := compile_words (P := P) (.mark m :: printed 0 e) file
    (List.forall_mem_cons.2 ⟨trivial, isWritten_printed he⟩) fun source ts hts => by
      obtain ⟨t, us, rfl, ht, hus⟩ := List.map_eq_cons_iff.1 hts
      exact h source t us ht (derives_printed he (Nat.zero_le 6) hus)
  rwa [words_cons _ hne] at hcompile

/-- Compiling undoes printing.  Every expression without templates compiles from its words to
itself, and behind the sign of a statement to the operand of that statement. -/
theorem compile_printed (e : Tree) (he : IsPlain e) (file : Option Text) :
    (∃ script, (⟨words (printed 0 e), file⟩ : Source).compile = .script script ∧
        script.map (fun _ => ()) = ⟨(), [.expr () e]⟩) ∧
      (∃ script, (⟨"> " ++ words (printed 0 e), file⟩ : Source).compile = .script script ∧
        script.map (fun _ => ()) = ⟨(), [.send () e]⟩) ∧
      (∃ script text, (⟨"< " ++ words (printed 0 e), file⟩ : Source).compile = .script script ∧
        script.map (fun _ => ()) = ⟨(), [.receive () e text]⟩) ∧
      ∃ script text, (⟨"~ " ++ words (printed 0 e), file⟩ : Source).compile = .script script ∧
        script.map (fun _ => ()) = ⟨(), [.assert () e text]⟩ := by
  refine ⟨?_, ?_, ?_, ?_⟩
  · obtain ⟨script, s, hcompile, hscript, rfl⟩ :=
      compile_words (P := (· = .expr () e)) _ file (isWritten_printed he) fun source ts hts =>
        ⟨_, .expr (derives_printed he (Nat.zero_le 6) hts), rfl⟩
    exact ⟨script, hcompile, hscript⟩
  · obtain ⟨script, s, hcompile, hscript, rfl⟩ :=
      compile_sign (P := (· = .send () e)) file .greater he fun source t ts ht hts =>
        ⟨_, .send ht hts, rfl⟩
    exact ⟨script, hcompile, hscript⟩
  · obtain ⟨script, s, hcompile, hscript, text, rfl⟩ :=
      compile_sign (P := fun s => ∃ text, s = .receive () e text) file .less he
        fun source t ts ht hts => ⟨_, .receive ht hts, _, rfl⟩
    exact ⟨script, text, hcompile, hscript⟩
  · obtain ⟨script, s, hcompile, hscript, text, rfl⟩ :=
      compile_sign (P := fun s => ∃ text, s = .assert () e text) file .tilde he
        fun source t ts ht hts => ⟨_, .assert ht hts, _, rfl⟩
    exact ⟨script, text, hcompile, hscript⟩

/-- An assignment whose value needs parentheses at some of its operands and none at others. -/
def printedSample : Tree :=
  .assign () () "ok" (.or ()
    (.not () (.binary () .eq
      (.binary () .sub (.binary () .sub (.name () "a") (.integer () (-1)))
        (.binary () .sub (.name () "b") (.dot ())))
      (.string () "\"é\n")))
    (.binary () .mul (.integer () 0) (.binary () .add (.name () "c") (.integer () 7))))

theorem compile_printed_sample :
    words (printed 0 printedSample) =
        ("ok = ! ( a - 18446744073709551615 - ( b - . ) == \"\\\"é\\n\" ) || 0 * ( c + 7 )" :
          Text) ∧
      IsPlain printedSample ∧
      ∃ script, (⟨words (printed 0 printedSample), none⟩ : Source).compile = .script script ∧
        script.map (fun _ => ()) = ⟨(), [.expr () printedSample]⟩ := by
  have hplain : IsPlain printedSample := by
    have hnames : Text.IsName "ok" ∧ Text.IsName "a" ∧ Text.IsName "b" ∧ Text.IsName "c" := by
      decide
    have hintegers : IsWord (-1) ∧ IsWord 0 ∧ IsWord 7 := by decide
    have hstring : Text.canonical "\"é\n" = some ("\"é\n" : Text) := Text.canonical_ofChars _
    simp [printedSample, IsPlain, hnames, hintegers, hstring]
  exact ⟨by decide +kernel, hplain, (compile_printed printedSample hplain none).1⟩

end Grammar

end WireScript
