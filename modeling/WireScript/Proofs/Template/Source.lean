import WireScript.Proofs.Grammar.Script
import WireScript.Proofs.Template.Basic
import WireScript.Proofs.Text.Ascii
import WireScript.Proofs.Token.Encodable
import WireScript.Proofs.Token.Spelling

/-!
# Templates as they are written

A template to send as it stands in a source: a line of bytes, with segments and names in braces
between them.  Nothing is escaped in a segment, so that any bytes can stand there but the end of a
line and an opening brace, also bytes that are no UTF-8.

* `Embedded` and `written` give the bytes of a template, and `line` those of the statement that
  sends it.
* `scans_written`: the bytes are scanned into one token for each segment and each name.  Braces
  are ASCII, so that decoding the line decodes each segment on its own, even where the end of one
  segment and the beginning of the next are the halves of a character.
* `derives_rest` and `compile_line`: these tokens make the tree of the template, and the line
  compiles to the send of it.
-/

namespace WireScript.Template

open Grammar

/-- A name in a template and the bytes of the segment behind it. -/
structure Embedded where
  name : List Char
  segment : List UInt8

/-- Bytes that can stand in a segment: neither the end of a line nor an opening brace. -/
def IsVerbatim (bytes : List UInt8) : Prop :=
  0x0A ∉ bytes ∧ 0x7B ∉ bytes

instance (bytes : List UInt8) : Decidable (IsVerbatim bytes) :=
  inferInstanceAs (Decidable (_ ∧ _))

/-- A name that can be spelled, and a segment that can stand behind it. -/
structure Embedded.IsWritten (q : Embedded) : Prop where
  name : (Text.ofChars q.name).IsName
  segment : IsVerbatim q.segment

/-- The bytes of a template behind its colon. -/
def written (first : List UInt8) : List Embedded → List UInt8
  | [] => first
  | q :: parts =>
    first ++ 0x7B :: (q.name.flatMap Utf8.octets ++ 0x7D :: written q.segment parts)

/-- The segment that the end of the line follows. -/
def lastSegment (first : List UInt8) : List Embedded → List UInt8
  | [] => first
  | q :: parts => lastSegment q.segment parts

/-- The line that sends a template. -/
def line (first : List UInt8) (parts : List Embedded) : List UInt8 :=
  0x3E :: 0x20 :: 0x3A :: written first parts

/-- What follows a line: nothing, or a line feed. -/
def IsStop (stop : List UInt8) : Prop :=
  stop = [] ∨ stop = [0x0A]

variable {first stop : List UInt8} {parts : List Embedded} {q : Embedded} {here : Location}
  {p : CodePoint} {t rest : Text} {kind : Text → Bool → TokenKind}

/-! ## Decoding -/

/-- A segment reads on over each of its code points. -/
theorem IsVerbatim.inSegment {bytes : List UInt8} (h : IsVerbatim bytes) :
    ∀ p ∈ Utf8.decode bytes, Literal.inSegment p = true := by
  have hline : .scalar '\n' ∉ Utf8.decode bytes := fun hmem =>
    h.1 (Utf8.octets_subset_of_mem_decode hmem (by decide))
  have hbrace : .scalar '{' ∉ Utf8.decode bytes := fun hmem =>
    h.2 (Utf8.octets_subset_of_mem_decode hmem (by decide))
  intro p hp
  have hp₁ : p ≠ .scalar '\n' := fun heq => hline (heq ▸ hp)
  have hp₂ : p ≠ .scalar '{' := fun heq => hbrace (heq ▸ hp)
  simp [Literal.inSegment, CodePoint.isIn, CodePoint.is, hp₁, hp₂]

theorem decode_lineFeed : Utf8.decode [0x0A] = [.scalar '\n'] :=
  Utf8.decode_ascii (List.forall_mem_singleton.2 (by decide))

theorem decode_stop (hstop : IsStop stop) :
    Utf8.decode stop = [] ∨ Utf8.decode stop = [.scalar '\n'] := by
  rcases hstop with rfl | rfl
  · exact Or.inl Utf8.decode_nil
  · exact Or.inr decode_lineFeed

theorem decode_append_stop (hstop : IsStop stop) (bytes : List UInt8) :
    Utf8.decode (bytes ++ stop) = Utf8.decode bytes ++ Utf8.decode stop := by
  rcases hstop with rfl | rfl
  · simp
  · rw [Utf8.decode_append_ascii (by decide), decode_lineFeed, Utf8.decode_nil]
    rfl

/-- Each piece of a template decodes on its own. -/
theorem decode_written_cons :
    Utf8.decode (written first (q :: parts) ++ stop) =
      Utf8.decode first ++ .scalar '{' ::
        (Text.ofChars q.name ++ .scalar '}' :: Utf8.decode (written q.segment parts ++ stop)) := by
  rw [written, List.append_assoc, List.cons_append, Utf8.decode_append_ascii (by decide),
    List.append_assoc, List.cons_append, Utf8.decode_append_ascii (by decide), Utf8.decode_octets]
  rfl

/-! ## Scanning -/

/-- The tokens behind the first segment of a template. -/
def laterKinds : List Embedded → List TokenKind
  | [] => []
  | q :: parts =>
    .name (Text.ofChars q.name) ::
      .templatePart (Utf8.decode q.segment) (!parts.isEmpty) :: laterKinds parts

/-- A name in front of a closing brace is scanned into a token. -/
theorem scans_name {x : Text} (hx : x.IsName) (here : Location) (rest : Text) :
    ∃ token : Token, token.kind = .name x ∧
      Cursor.Scans ⟨here, x ++ .scalar '}' :: rest⟩ [token] []
        ⟨here.past x, .scalar '}' :: rest⟩ := by
  cases x with
  | nil => exact absurd hx id
  | cons p t =>
    have hspace : isSpacing p = false := not_isSpacing_of CodePoint.isLetter hx.1 (by decide)
    exact Cursor.Scans.of_tokenKind hspace (tokenKind_name hx (by rintro q ⟨⟩; decide))

/-- A template is scanned into one token for each segment and each name, up to the end of the
line. -/
theorem scans_written (hfirst : IsVerbatim first) (hparts : ∀ q ∈ parts, q.IsWritten)
    (hlast : (lastSegment first parts).getLast? ≠ some 0x0D) (hstop : IsStop stop)
    (hopens : OpensSegment p kind) (here : Location) :
    ∃ ts there,
      Cursor.Scans ⟨here, p :: Utf8.decode (written first parts ++ stop)⟩ ts []
        ⟨there, Utf8.decode stop⟩ ∧
      ts.map (·.kind) = kind (Utf8.decode first) (!parts.isEmpty) :: laterKinds parts := by
  induction parts generalizing first p kind here with
  | nil =>
    have hreturn : (Utf8.decode first).getLast? ≠ some (.scalar '\r') := by
      intro hdecode
      obtain ⟨front, hfront⟩ := Utf8.suffix_of_getLast?_decode hdecode
      exact hlast (hfront ▸ List.getLast?_concat)
    have hbehind : ∀ q, (Utf8.decode stop).head? = some q → q = .scalar '\n' := by
      rcases decode_stop hstop with hnone | hline
      · simp [hnone]
      · simp [hline]
    have hread := hopens.tokenKind_eq ⟨here, p :: (Utf8.decode first ++ Utf8.decode stop)⟩
    rw [Literal.segment_finish rfl hfirst.inSegment hbehind,
      Literal.withoutReturn_of_getLast? hreturn] at hread
    obtain ⟨token, htoken, hscans⟩ := Cursor.Scans.of_tokenKind hopens.not_isSpacing hread
    rw [written, decode_append_stop hstop]
    exact ⟨[token], _, hscans, congrArg (fun k => [k]) htoken⟩
  | cons q parts ih =>
    obtain ⟨hq, hrest⟩ := List.forall_mem_cons.1 hparts
    have hread := hopens.tokenKind_eq ⟨here, p :: (Utf8.decode first ++ .scalar '{' ::
      (Text.ofChars q.name ++ .scalar '}' :: Utf8.decode (written q.segment parts ++ stop)))⟩
    rw [Literal.segment_brace rfl hfirst.inSegment] at hread
    obtain ⟨token, htoken, hsegment⟩ := Cursor.Scans.of_tokenKind hopens.not_isSpacing hread
    obtain ⟨name, hnameKind, hname⟩ := scans_name hq.name _ _
    obtain ⟨ts, there, hts, hkinds⟩ := ih hq.segment hrest hlast .part _
    rw [decode_written_cons]
    refine ⟨token :: name :: ts, there, hsegment.trans (hname.trans hts), ?_⟩
    rw [List.map_cons, List.map_cons, hkinds, hnameKind, htoken]
    rfl

/-- What follows a line is scanned into the end of the line, if there is one. -/
theorem scans_stop (hstop : IsStop stop) (here : Location) :
    ∃ breaks there, Cursor.Scans ⟨here, Utf8.decode stop⟩ breaks [] ⟨there, []⟩ ∧
      ∀ t ∈ breaks, t.kind = .newline := by
  rcases decode_stop hstop with hnone | hline
  · rw [hnone]
    exact ⟨[], here, .refl _, List.forall_mem_nil _⟩
  · obtain ⟨token, htoken, hscans⟩ := Cursor.Scans.of_tokenKind rfl
      (tokenKind_lineFeed ⟨here, [.scalar '\n']⟩)
    rw [hline]
    exact ⟨[token], _, hscans, List.forall_mem_singleton.2 htoken⟩

/-- The line that sends a template is scanned without a report. -/
theorem scans_line (hfirst : IsVerbatim first) (hparts : ∀ q ∈ parts, q.IsWritten)
    (hlast : (lastSegment first parts).getLast? ≠ some 0x0D) (hstop : IsStop stop) :
    ∃ ts breaks there,
      (Cursor.ofText (Utf8.decode (line first parts ++ stop))).Scans (ts ++ breaks) []
        ⟨there, []⟩ ∧
      ts.map (·.kind) = .mark .greater ::
        .templateStart (Utf8.decode first) (!parts.isEmpty) :: laterKinds parts ∧
      ∀ t ∈ breaks, t.kind = .newline := by
  have hdecode : Utf8.decode (line first parts ++ stop) =
      .scalar '>' :: .scalar ' ' :: .scalar ':' :: Utf8.decode (written first parts ++ stop) := by
    have hascii {b : UInt8} (hb : b.toNat < 0x80) (bytes : List UInt8) :=
      Utf8.decode_of_leading? (Utf8.leading?_ascii hb bytes)
    rw [line, List.cons_append, List.cons_append, List.cons_append, hascii (by decide),
      hascii (by decide), hascii (by decide)]
    rfl
  have hsign (rest : Text) : tokenKind ⟨.first, .scalar '>' :: .scalar ' ' :: rest⟩ (.scalar '>') =
      ⟨.mark .greater, [], ⟨Location.first.next (.scalar '>'), .scalar ' ' :: rest⟩⟩ := rfl
  obtain ⟨sign, hsignKind, hsign⟩ := Cursor.Scans.of_tokenKind rfl (hsign _)
  obtain ⟨ts, behind, hts, hkinds⟩ := scans_written hfirst hparts hlast hstop .start _
  obtain ⟨breaks, last, hbreaks, hnewline⟩ := scans_stop hstop behind
  rw [hdecode]
  refine ⟨sign :: ts, breaks, last, ?_, ?_, hnewline⟩
  · exact hsign.trans ((Cursor.Scans.of_space _ _).trans (hts.trans hbreaks))
  · rw [List.map_cons, hkinds, hsignKind]

/-! ## Compiling -/

/-- The tree of what follows a segment. -/
def restTree : List Embedded → Tree
  | [] => .string () lineEnd
  | q :: parts =>
    .concat () (.name () (Text.ofChars q.name))
      (withSegment (Utf8.decode q.segment) (restTree parts))

theorem derives_rest {ts : List Token} (h : ts.map (·.kind) = laterKinds parts) :
    Derives (.rest (!parts.isEmpty)) ts (restTree parts) := by
  induction parts generalizing ts with
  | nil =>
    obtain rfl := List.map_eq_nil_iff.1 h
    exact .complete
  | cons q parts ih =>
    obtain ⟨name, ts, rfl, hname, hts⟩ := List.map_eq_cons_iff.1 h
    obtain ⟨segment, ts, rfl, hsegment, hts⟩ := List.map_eq_cons_iff.1 hts
    have hreference : Derives .expression [name] (.name () (Text.ofChars q.name)) :=
      .ofDisjunction (.ofConjunction (.ofComparison (.ofSum (.ofProduct (.ofUnary (.ofAtom
        (.name hname)))))))
    exact .embed hreference hsegment (ih hts)

/-- The tree of a template. -/
def tree (first : List UInt8) (parts : List Embedded) : Tree :=
  withSegment (Utf8.decode first) (restTree parts)

theorem derives_tree {start : Token} {ts : List Token}
    (hstart : start.kind = .templateStart (Utf8.decode first) (!parts.isEmpty))
    (h : ts.map (·.kind) = laterKinds parts) :
    Derives .expression (start :: ts) (tree first parts) :=
  .ofDisjunction (.ofConjunction (.ofComparison (.ofSum (.ofProduct (.ofUnary (.ofAtom
    (.template hstart (derives_rest h))))))))

theorem ne_endOfInput_of_mem_laterKinds {k : TokenKind} (h : k ∈ laterKinds parts) :
    k ≠ .endOfInput := by
  induction parts with
  | nil => cases h
  | cons q parts ih =>
    rcases List.mem_cons.1 h with rfl | h
    · simp
    · rcases List.mem_cons.1 h with rfl | h
      · simp
      · exact ih h

/-- The line that sends a template compiles to the send of its tree. -/
theorem compile_line (hfirst : IsVerbatim first) (hparts : ∀ q ∈ parts, q.IsWritten)
    (hlast : (lastSegment first parts).getLast? ≠ some 0x0D) (hstop : IsStop stop)
    (file : Option Text) :
    ∃ script, Source.compile ⟨Utf8.decode (line first parts ++ stop), file⟩ = .script script ∧
      script.map (fun _ => ()) = ⟨(), [.send () (tree first parts)]⟩ := by
  obtain ⟨ts, breaks, there, hscans, hkinds, hbreaks⟩ := scans_line hfirst hparts hlast hstop
  have hencodable := isEncodable_scan (Text.isDecoded_decode (line first parts ++ stop)).isEncodable
  have hends : ∀ t ∈ ts ++ breaks, t.kind ≠ .endOfInput := by
    refine List.forall_mem_append.2 ⟨fun t ht => ?_, fun t ht => ?_⟩
    · have hmem : t.kind ∈ ts.map (·.kind) := List.mem_map_of_mem ht
      rw [hkinds] at hmem
      rcases List.mem_cons.1 hmem with hsign | hmem
      · simp [hsign]
      · rcases List.mem_cons.1 hmem with hstart | hmem
        · simp [hstart]
        · exact ne_endOfInput_of_mem_laterKinds hmem
    · simp [hbreaks t ht]
  obtain ⟨sign, ts, rfl, hsign, hts⟩ := List.map_eq_cons_iff.1 hkinds
  obtain ⟨start, ts, rfl, hstart, hts⟩ := List.map_eq_cons_iff.1 hts
  have hstatement (source : Option Text) :
      DerivesStatement source (sign :: start :: ts) (.send () (tree first parts)) :=
    .send hsign (derives_tree hstart hts)
  exact Source.compile_of_scan _ hscans.scanFrom_eq hencodable hends
    ((hstatement _).before_blank hbreaks)

end WireScript.Template
