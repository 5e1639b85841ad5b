import SnippetReview.Catalog.Entry
import SnippetReview.Catalog.Similarity
import SnippetReview.Catalog.Standard
import SnippetReview.Catalog.Table
import SnippetReview.CommandLine.Arguments
import SnippetReview.CommandLine.Run
import SnippetReview.Configuration
import SnippetReview.Decimal.Binary
import SnippetReview.Decimal.Digits
import SnippetReview.Decimal.Notation
import SnippetReview.Decimal.Reading
import SnippetReview.Decimal.Shortest
import SnippetReview.Document
import SnippetReview.Document.Json
import SnippetReview.Document.Yaml
import SnippetReview.Host.Basic
import SnippetReview.Host.BlockGrammars
import SnippetReview.Host.Example
import SnippetReview.Host.Grammar
import SnippetReview.Host.LiteralGrammars
import SnippetReview.Host.ReceiverGrammars
import SnippetReview.Label
import SnippetReview.Logging
import SnippetReview.Main
import SnippetReview.Naming
import SnippetReview.Pattern
import SnippetReview.Proofs.Bytewise.Access
import SnippetReview.Proofs.Bytewise.Assigning
import SnippetReview.Proofs.Bytewise.Blocks
import SnippetReview.Proofs.Bytewise.Extracting
import SnippetReview.Proofs.Bytewise.Inferring
import SnippetReview.Proofs.Bytewise.Lines
import SnippetReview.Proofs.Bytewise.Scanning
import SnippetReview.Proofs.Bytewise.Segments
import SnippetReview.Proofs.Bytewise.Splitting
import SnippetReview.Proofs.Bytewise.Visits
import SnippetReview.Proofs.Bytewise.Walking
import SnippetReview.Proofs.Catalog.Acceptance
import SnippetReview.Proofs.Catalog.Resolution
import SnippetReview.Proofs.Catalog.Tables
import SnippetReview.Proofs.CommandLine.Exits
import SnippetReview.Proofs.Configuration.Readers
import SnippetReview.Proofs.Host.Initialization
import SnippetReview.Proofs.Host.NativeKeys
import SnippetReview.Proofs.Host.PythonArguments
import SnippetReview.Proofs.Host.PythonCall
import SnippetReview.Proofs.Host.PythonMerging
import SnippetReview.Proofs.Host.PythonStatements
import SnippetReview.Proofs.Host.PythonText
import SnippetReview.Proofs.Host.RenderedLiterals
import SnippetReview.Proofs.Host.RenderedSnippets
import SnippetReview.Proofs.Host.RenderedStatements
import SnippetReview.Proofs.Host.RenderedValues
import SnippetReview.Proofs.Host.Rendering
import SnippetReview.Proofs.Lexing.Appending
import SnippetReview.Proofs.Lexing.Beginnings
import SnippetReview.Proofs.Lexing.BlankedBytes
import SnippetReview.Proofs.Lexing.Blanking
import SnippetReview.Proofs.Lexing.Clipping
import SnippetReview.Proofs.Lexing.CodePlaces
import SnippetReview.Proofs.Lexing.Columns
import SnippetReview.Proofs.Lexing.Division
import SnippetReview.Proofs.Lexing.Idempotence
import SnippetReview.Proofs.Lexing.Literal
import SnippetReview.Proofs.Lexing.Outgrowing
import SnippetReview.Proofs.Lexing.Parting
import SnippetReview.Proofs.Lexing.Partition
import SnippetReview.Proofs.Lexing.Quoting
import SnippetReview.Proofs.Lexing.Rereading
import SnippetReview.Proofs.Lexing.Restripping
import SnippetReview.Proofs.Lexing.Sealing
import SnippetReview.Proofs.Lexing.Stripping
import SnippetReview.Proofs.Lexing.Token
import SnippetReview.Proofs.Lexing.Veiling
import SnippetReview.Proofs.Naming.Conventions
import SnippetReview.Proofs.Naming.Folding
import SnippetReview.Proofs.Naming.Settling
import SnippetReview.Proofs.Pattern.Anchored
import SnippetReview.Proofs.Pattern.Matching
import SnippetReview.Proofs.Pattern.Opening
import SnippetReview.Proofs.Pattern.Places
import SnippetReview.Proofs.Pattern.Taking
import SnippetReview.Proofs.Report.Feeds
import SnippetReview.Proofs.Report.Keys
import SnippetReview.Proofs.Report.Lines
import SnippetReview.Proofs.Report.Messages
import SnippetReview.Proofs.Review.Adding
import SnippetReview.Proofs.Review.Dsn
import SnippetReview.Proofs.Review.Presence
import SnippetReview.Proofs.Review.Respelling
import SnippetReview.Proofs.Review.Scoring
import SnippetReview.Proofs.Review.Wrapping
import SnippetReview.Proofs.Snippet.Addressing
import SnippetReview.Proofs.Snippet.Binding
import SnippetReview.Proofs.Snippet.BlockEnds
import SnippetReview.Proofs.Snippet.Closing
import SnippetReview.Proofs.Snippet.Collecting
import SnippetReview.Proofs.Snippet.Covering
import SnippetReview.Proofs.Snippet.Enclosing
import SnippetReview.Proofs.Snippet.Ends
import SnippetReview.Proofs.Snippet.Entering
import SnippetReview.Proofs.Snippet.Expressions
import SnippetReview.Proofs.Snippet.Finding
import SnippetReview.Proofs.Snippet.Gathering
import SnippetReview.Proofs.Snippet.Groups
import SnippetReview.Proofs.Snippet.Interference
import SnippetReview.Proofs.Snippet.Itemwise
import SnippetReview.Proofs.Snippet.Levels
import SnippetReview.Proofs.Snippet.Literals
import SnippetReview.Proofs.Snippet.Locating
import SnippetReview.Proofs.Snippet.Marks
import SnippetReview.Proofs.Snippet.Noticing
import SnippetReview.Proofs.Snippet.Overwriting
import SnippetReview.Proofs.Snippet.Passage
import SnippetReview.Proofs.Snippet.Pieces
import SnippetReview.Proofs.Snippet.Placing
import SnippetReview.Proofs.Snippet.Provenance
import SnippetReview.Proofs.Snippet.Receiving
import SnippetReview.Proofs.Snippet.Shifting
import SnippetReview.Proofs.Snippet.Sourcing
import SnippetReview.Proofs.Snippet.Splitting
import SnippetReview.Proofs.Snippet.Standing
import SnippetReview.Proofs.Snippet.Stripped
import SnippetReview.Proofs.Snippet.Truncation
import SnippetReview.Proofs.Snippet.Walking
import SnippetReview.Proofs.Text.LineStarts
import SnippetReview.Proofs.Text.Lookups
import SnippetReview.Proofs.Text.LowerCase
import SnippetReview.Proofs.Text.Positions
import SnippetReview.Proofs.Text.Seeking
import SnippetReview.Proofs.Text.Size
import SnippetReview.Proofs.Text.Trimming
import SnippetReview.Proofs.Text.Utf8
import SnippetReview.Report
import SnippetReview.Report.Data
import SnippetReview.Report.Human
import SnippetReview.Review.Analysis
import SnippetReview.Review.Checklist
import SnippetReview.Review.Finding
import SnippetReview.Review.Rule
import SnippetReview.Review.Score
import SnippetReview.Search
import SnippetReview.Snippet.Block
import SnippetReview.Snippet.Extraction
import SnippetReview.Snippet.Inference
import SnippetReview.Snippet.Problem
import SnippetReview.Snippet.Segment
import SnippetReview.Snippet.Setting
import SnippetReview.Snippet.SettingTable
import SnippetReview.Snippet.Statement
import SnippetReview.Snippet.Value
import SnippetReview.Snippet.Walk
import SnippetReview.Text.Blank
import SnippetReview.Text.Bytes
import SnippetReview.Text.Case
import SnippetReview.Text.Letter
import SnippetReview.Text.Position
