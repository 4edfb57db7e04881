import WireScript.Calendar
import WireScript.CommandLine.Batch
import WireScript.CommandLine.Invocation
import WireScript.CommandLine.Switch
import WireScript.Data
import WireScript.Diagnostic
import WireScript.Main
import WireScript.Number.Binary64
import WireScript.Number.Limit
import WireScript.Number.Reader
import WireScript.Number.Shortest
import WireScript.Number.Word
import WireScript.Peer.Address
import WireScript.Proofs.CommandLine.Batch
import WireScript.Proofs.Data
import WireScript.Proofs.Diagnostic
import WireScript.Proofs.Grammar.Alike
import WireScript.Proofs.Grammar.Arithmetic
import WireScript.Proofs.Grammar.Basic
import WireScript.Proofs.Grammar.Complete
import WireScript.Proofs.Grammar.Faults
import WireScript.Proofs.Grammar.Layout
import WireScript.Proofs.Grammar.Literals
import WireScript.Proofs.Grammar.Lockstep
import WireScript.Proofs.Grammar.Passes
import WireScript.Proofs.Grammar.Places
import WireScript.Proofs.Grammar.Printing
import WireScript.Proofs.Grammar.Reading
import WireScript.Proofs.Grammar.Recovery
import WireScript.Proofs.Grammar.Script
import WireScript.Proofs.Grammar.Sound
import WireScript.Proofs.Grammar.Stream
import WireScript.Proofs.Grammar.Written
import WireScript.Proofs.Pattern.Basic
import WireScript.Proofs.Pattern.Exact
import WireScript.Proofs.Pattern.Match
import WireScript.Proofs.Pattern.Search
import WireScript.Proofs.Pattern.Verdict
import WireScript.Proofs.Peer.Address
import WireScript.Proofs.Run.Agreement
import WireScript.Proofs.Run.Ahead
import WireScript.Proofs.Run.Bindings
import WireScript.Proofs.Run.Context
import WireScript.Proofs.Run.Cut
import WireScript.Proofs.Run.Division
import WireScript.Proofs.Run.Frame
import WireScript.Proofs.Run.Framing
import WireScript.Proofs.Run.Halt
import WireScript.Proofs.Run.Invariant
import WireScript.Proofs.Run.Line
import WireScript.Proofs.Run.Lowering
import WireScript.Proofs.Run.Notes
import WireScript.Proofs.Run.Outcome
import WireScript.Proofs.Run.Place
import WireScript.Proofs.Run.Receive
import WireScript.Proofs.Run.Safety
import WireScript.Proofs.Run.Send
import WireScript.Proofs.Run.Sound
import WireScript.Proofs.Run.Step
import WireScript.Proofs.Run.Traffic
import WireScript.Proofs.Source.Append
import WireScript.Proofs.Source.Cover
import WireScript.Proofs.Source.LineEnds
import WireScript.Proofs.Source.Located
import WireScript.Proofs.Source.Nested
import WireScript.Proofs.Source.Place
import WireScript.Proofs.Source.Pulled
import WireScript.Proofs.Source.Recovery
import WireScript.Proofs.Source.Remembered
import WireScript.Proofs.Suite.Usable
import WireScript.Proofs.Template.Basic
import WireScript.Proofs.Template.Early
import WireScript.Proofs.Template.Gate
import WireScript.Proofs.Template.Late
import WireScript.Proofs.Template.Recall
import WireScript.Proofs.Template.Source
import WireScript.Proofs.Template.Wire
import WireScript.Proofs.Text.Ascii
import WireScript.Proofs.Text.Canonical
import WireScript.Proofs.Text.Decimal
import WireScript.Proofs.Text.Decoding
import WireScript.Proofs.Token.Along
import WireScript.Proofs.Token.Breakage
import WireScript.Proofs.Token.Element
import WireScript.Proofs.Token.Encodable
import WireScript.Proofs.Token.Lexeme
import WireScript.Proofs.Token.LineEnd
import WireScript.Proofs.Token.Numeral
import WireScript.Proofs.Token.Quotation
import WireScript.Proofs.Token.Rescan
import WireScript.Proofs.Token.Spelling
import WireScript.Proofs.Token.Within
import WireScript.Proofs.Value
import WireScript.Run.Channel
import WireScript.Run.Error
import WireScript.Run.Eval
import WireScript.Run.Execute
import WireScript.Run.Memory
import WireScript.Run.Report
import WireScript.Script.Basic
import WireScript.Script.Compile
import WireScript.Script.Error
import WireScript.Script.Operator
import WireScript.Script.Parser
import WireScript.Source.Position
import WireScript.Suite.Basic
import WireScript.Suite.Files
import WireScript.Suite.Load
import WireScript.Suite.Path
import WireScript.Text.Basic
import WireScript.Text.Blank
import WireScript.Text.Digit
import WireScript.Text.Portion
import WireScript.Text.Printable
import WireScript.Text.Quoted
import WireScript.Text.Utf8
import WireScript.Token.Basic
import WireScript.Token.Cursor
import WireScript.Token.Error
import WireScript.Token.Literal
import WireScript.Token.Scan
import WireScript.Value
import WireScript.Yaml.Document
import WireScript.Yaml.Fault
import WireScript.Yaml.Node
import WireScript.Yaml.Place
import WireScript.Yaml.Scalar
import WireScript.Yaml.Spelling
import WireScript.Yaml.Token
