import ProtoSchema.Command
import ProtoSchema.Expected
import ProtoSchema.Fault
import ProtoSchema.FileTree
import ProtoSchema.Grammar
import ProtoSchema.Keyword
import ProtoSchema.Lexeme
import ProtoSchema.Lexer
import ProtoSchema.Linter
import ProtoSchema.Log
import ProtoSchema.Main
import ProtoSchema.Naming
import ProtoSchema.Number
import ProtoSchema.Parser
import ProtoSchema.Part
import ProtoSchema.Proofs.Acceptance
import ProtoSchema.Proofs.Alternatives
import ProtoSchema.Proofs.Balance
import ProtoSchema.Proofs.Blame
import ProtoSchema.Proofs.ByteLexer
import ProtoSchema.Proofs.ByteScanning
import ProtoSchema.Proofs.Completion
import ProtoSchema.Proofs.Concatenation
import ProtoSchema.Proofs.Configuration
import ProtoSchema.Proofs.Constructs
import ProtoSchema.Proofs.ControlStrings
import ProtoSchema.Proofs.CorrectPrefix
import ProtoSchema.Proofs.Depth
import ProtoSchema.Proofs.Derivation
import ProtoSchema.Proofs.Diagnostics
import ProtoSchema.Proofs.Displays
import ProtoSchema.Proofs.Driving
import ProtoSchema.Proofs.Encoding
import ProtoSchema.Proofs.Expectation
import ProtoSchema.Proofs.FaultKinds
import ProtoSchema.Proofs.Finality
import ProtoSchema.Proofs.Formats
import ProtoSchema.Proofs.InBounds
import ProtoSchema.Proofs.Independence
import ProtoSchema.Proofs.Inventory
import ProtoSchema.Proofs.JsonReading
import ProtoSchema.Proofs.Language
import ProtoSchema.Proofs.Layout
import ProtoSchema.Proofs.LexicalGrammar
import ProtoSchema.Proofs.LineBreaks
import ProtoSchema.Proofs.Linting
import ProtoSchema.Proofs.Logging
import ProtoSchema.Proofs.Nesting
import ProtoSchema.Proofs.Pulling
import ProtoSchema.Proofs.Quoting
import ProtoSchema.Proofs.Reading
import ProtoSchema.Proofs.Records
import ProtoSchema.Proofs.Recovery
import ProtoSchema.Proofs.Relexing
import ProtoSchema.Proofs.Repair
import ProtoSchema.Proofs.ReportOrder
import ProtoSchema.Proofs.RunLines
import ProtoSchema.Proofs.Scanning
import ProtoSchema.Proofs.Shape
import ProtoSchema.Proofs.SingleLines
import ProtoSchema.Proofs.SpanTexts
import ProtoSchema.Proofs.Spans
import ProtoSchema.Proofs.Straight
import ProtoSchema.Proofs.Stream
import ProtoSchema.Proofs.Tiling
import ProtoSchema.Proofs.Tokenization
import ProtoSchema.Proofs.Traversal
import ProtoSchema.Proofs.Uncounted
import ProtoSchema.Proofs.Unlimited
import ProtoSchema.Proofs.Verdict
import ProtoSchema.Schema
import ProtoSchema.Text.Alphabetic
import ProtoSchema.Text.CharRange
import ProtoSchema.Text.CodePoint
import ProtoSchema.Text.ControlSequence
import ProtoSchema.Text.JsonText
import ProtoSchema.Text.Numeric
import ProtoSchema.Text.Quoted
import ProtoSchema.Text.Unprintable
import ProtoSchema.Text.Utf8
import ProtoSchema.Token
import ProtoSchema.Tree
import ProtoSchema.Walk
