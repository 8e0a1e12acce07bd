import YupFront.CommandLine.Arguments
import YupFront.CommandLine.Run
import YupFront.Decimal.Rounding
import YupFront.Decimal.Shortest
import YupFront.Fault
import YupFront.File.Host
import YupFront.File.Load
import YupFront.File.Metadata
import YupFront.File.System
import YupFront.Json.Decode
import YupFront.Json.Lexeme
import YupFront.Json.Real
import YupFront.Json.Value
import YupFront.Lexer.Analyzer
import YupFront.Lexer.Chunk
import YupFront.Lexer.Metrics
import YupFront.Lexer.Tokenize
import YupFront.Limits
import YupFront.Log.Code
import YupFront.Log.Event
import YupFront.Log.Journal
import YupFront.Log.Level
import YupFront.Log.Memory
import YupFront.Main
import YupFront.Parser.Finding
import YupFront.Parser.Grammar
import YupFront.Parser.Parse
import YupFront.Parser.Rule
import YupFront.Pipeline.Analysis
import YupFront.Pipeline.Gate
import YupFront.Pipeline.Report
import YupFront.Pipeline.Startup
import YupFront.Preferences.Basic
import YupFront.Preferences.Document
import YupFront.Preferences.Layers
import YupFront.Source.Lines
import YupFront.Source.Position
import YupFront.Text.Blank
import YupFront.Text.Cased
import YupFront.Text.Flips
import YupFront.Text.LowerCase
import YupFront.Text.Quoted
import YupFront.Text.Slice
import YupFront.Time.Utc
import YupFront.Token.Basic
import YupFront.Token.Classify
import YupFront.Token.Cursor
import YupFront.Token.Json
import YupFront.Token.Kind
import YupFront.Toml.Document
import YupFront.Toml.Reader
import YupFront.Toml.Scalar
import YupFront.Toml.Value
import YupFront.Tree.Basic
import YupFront.Tree.Render
import YupFront.Proofs.Progress
import YupFront.Proofs.Results
import YupFront.Proofs.Quiet
import YupFront.Proofs.Reading
import YupFront.Proofs.Soundness
import YupFront.Proofs.Completeness
import YupFront.Proofs.Acceptance
import YupFront.Proofs.Writing
import YupFront.Proofs.RoundTrip
import YupFront.Proofs.Lexing
import YupFront.Proofs.Tiling
import YupFront.Proofs.Postcondition
import YupFront.Proofs.SourceOrder
import YupFront.Proofs.Leaves
import YupFront.Proofs.Payload
import YupFront.Proofs.Slicing
import YupFront.Proofs.LineStarts
import YupFront.Proofs.LineLookup
import YupFront.Proofs.Excerpts
import YupFront.Proofs.Layout
import YupFront.Proofs.Bounds
import YupFront.Proofs.Independence
import YupFront.Proofs.Continuation
import YupFront.Proofs.Trail
import YupFront.Proofs.Truncation
import YupFront.Proofs.Journal
import YupFront.Proofs.ParseLog
import YupFront.Proofs.OpenRules
import YupFront.Proofs.Guards
import YupFront.Proofs.JsonText
import YupFront.Proofs.TreeJson
import YupFront.Proofs.IndentedForm
import YupFront.Proofs.Numerals
import YupFront.Proofs.FileRoute
import YupFront.Proofs.Clients
import YupFront.Proofs.Admission
import YupFront.Proofs.FindingCount
import YupFront.Proofs.TreeShape
import YupFront.Proofs.Placement
import YupFront.Proofs.Composition
import YupFront.Proofs.Classification
import YupFront.Proofs.LeafText
import YupFront.Proofs.Outline
import YupFront.Proofs.CompactForm
import YupFront.Proofs.Scanning
import YupFront.Proofs.Reuse
import YupFront.Proofs.Settling
import YupFront.Proofs.Retention
import YupFront.Proofs.Telling
import YupFront.Proofs.OrderCheck
import YupFront.Proofs.FileScope
import YupFront.Proofs.Pieces
import YupFront.Proofs.Reporting
import YupFront.Proofs.Verdicts
