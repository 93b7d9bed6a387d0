import ColorCensus.AllowList
import ColorCensus.Census
import ColorCensus.Census.Event
import ColorCensus.Census.Source
import ColorCensus.Cli.Arguments
import ColorCensus.Cli.Command
import ColorCensus.Color.Candidate
import ColorCensus.Color.Canonical
import ColorCensus.Color.Hue
import ColorCensus.Color.Named
import ColorCensus.Color.Rgba
import ColorCensus.Color.Spelling
import ColorCensus.Css.Braces
import ColorCensus.Css.Lexer
import ColorCensus.Css.Name
import ColorCensus.Css.Node
import ColorCensus.Css.Printer
import ColorCensus.Css.Read
import ColorCensus.Css.Rule
import ColorCensus.Css.Stylesheet
import ColorCensus.Css.Token
import ColorCensus.FileSystem.Basic
import ColorCensus.FileSystem.Change
import ColorCensus.FileSystem.Edit
import ColorCensus.FileSystem.Path
import ColorCensus.FileSystem.RealPath
import ColorCensus.FileSystem.Resolve
import ColorCensus.FileSystem.Scan
import ColorCensus.FileSystem.Walk
import ColorCensus.Json.Reader
import ColorCensus.Json.Value
import ColorCensus.Main
import ColorCensus.Number.Binary64
import ColorCensus.Number.Decimal
import ColorCensus.Number.Rounding
import ColorCensus.Number.Shortest
import ColorCensus.Proofs.AllowList
import ColorCensus.Proofs.AllowList.Confinement
import ColorCensus.Proofs.AllowList.Ending
import ColorCensus.Proofs.Census
import ColorCensus.Proofs.Census.Order
import ColorCensus.Proofs.Census.Selection
import ColorCensus.Proofs.Cli.Arguments
import ColorCensus.Proofs.Cli.Outcome
import ColorCensus.Proofs.Cli.Rendering
import ColorCensus.Proofs.Cli.Tracing
import ColorCensus.Proofs.Color.Agreement
import ColorCensus.Proofs.Color.Answer
import ColorCensus.Proofs.Color.Candidate
import ColorCensus.Proofs.Color.Component
import ColorCensus.Proofs.Color.Fault
import ColorCensus.Proofs.Color.Form
import ColorCensus.Proofs.Color.Numeral
import ColorCensus.Proofs.Color.Opacity
import ColorCensus.Proofs.Color.Printed
import ColorCensus.Proofs.Color.Quantization
import ColorCensus.Proofs.Color.Range
import ColorCensus.Proofs.Color.Saturation
import ColorCensus.Proofs.Color.Segmentation
import ColorCensus.Proofs.Color.Separation
import ColorCensus.Proofs.Color.Written
import ColorCensus.Proofs.Css.Balance
import ColorCensus.Proofs.Css.Composition
import ColorCensus.Proofs.Css.EmptyCall
import ColorCensus.Proofs.Css.Extraction
import ColorCensus.Proofs.Css.Fence
import ColorCensus.Proofs.Css.Flattening
import ColorCensus.Proofs.Css.Folding
import ColorCensus.Proofs.Css.Gap
import ColorCensus.Proofs.Css.Lettering
import ColorCensus.Proofs.Css.Lexing
import ColorCensus.Proofs.Css.LineEnds
import ColorCensus.Proofs.Css.Locality
import ColorCensus.Proofs.Css.Outline
import ColorCensus.Proofs.Css.Peeling
import ColorCensus.Proofs.Css.Pieces
import ColorCensus.Proofs.Css.Reading
import ColorCensus.Proofs.Css.Relocation
import ColorCensus.Proofs.Css.Rewriting
import ColorCensus.Proofs.Css.Scan
import ColorCensus.Proofs.Css.SoleDeclaration
import ColorCensus.Proofs.Css.Spacing
import ColorCensus.Proofs.Css.Verdict
import ColorCensus.Proofs.FileSystem.Contents
import ColorCensus.Proofs.FileSystem.Descent
import ColorCensus.Proofs.FileSystem.Edit
import ColorCensus.Proofs.FileSystem.Enumeration
import ColorCensus.Proofs.FileSystem.Order
import ColorCensus.Proofs.FileSystem.Passage
import ColorCensus.Proofs.FileSystem.Path
import ColorCensus.Proofs.FileSystem.RealPath
import ColorCensus.Proofs.FileSystem.Search
import ColorCensus.Proofs.FileSystem.Termination
import ColorCensus.Proofs.Json.Grammar
import ColorCensus.Proofs.Json.Parsing
import ColorCensus.Proofs.Json.Reading
import ColorCensus.Proofs.Json.RoundTrip
import ColorCensus.Proofs.Number.Nearest
import ColorCensus.Proofs.Outcome
import ColorCensus.Proofs.Plain.Basic
import ColorCensus.Proofs.Plain.Inventory
import ColorCensus.Proofs.Plain.Nodes
import ColorCensus.Proofs.Plain.Sheet
import ColorCensus.Proofs.Report
import ColorCensus.Proofs.Report.Alignment
import ColorCensus.Proofs.Report.Ranking
import ColorCensus.Proofs.Table
import ColorCensus.Proofs.Tally
import ColorCensus.Proofs.Tally.Case
import ColorCensus.Proofs.Tally.History
import ColorCensus.Proofs.Tally.Progress
import ColorCensus.Proofs.Tally.Value
import ColorCensus.Proofs.Text.Case
import ColorCensus.Proofs.Text.Digits
import ColorCensus.Proofs.Text.Pattern
import ColorCensus.Proofs.Text.Position
import ColorCensus.Proofs.Text.Split
import ColorCensus.Proofs.Text.Strip
import ColorCensus.Proofs.Text.Utf8
import ColorCensus.Proofs.Trace
import ColorCensus.Report
import ColorCensus.Table
import ColorCensus.Tally
import ColorCensus.Tally.Operation
import ColorCensus.Text.Basic
import ColorCensus.Text.Case.Context
import ColorCensus.Text.Case.Lower
import ColorCensus.Text.Case.Upper
import ColorCensus.Text.CodePoint
import ColorCensus.Text.Digit
import ColorCensus.Text.Newline
import ColorCensus.Text.Printable
import ColorCensus.Text.Split
import ColorCensus.Text.Utf8
import ColorCensus.Text.Word
import ColorCensus.Trace
