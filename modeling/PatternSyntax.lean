import PatternSyntax.CommandLine.Command
import PatternSyntax.CommandLine.Run
import PatternSyntax.CommandLine.Word
import PatternSyntax.Diagnostics
import PatternSyntax.Fault
import PatternSyntax.Grammar.Basic
import PatternSyntax.Grammar.Depth
import PatternSyntax.Grammar.Document
import PatternSyntax.Grammar.Expression
import PatternSyntax.Grammar.Label
import PatternSyntax.Grammar.Modifier
import PatternSyntax.Grammar.Operator
import PatternSyntax.Grammar.Options
import PatternSyntax.Grammar.Pattern
import PatternSyntax.Grammar.Rules
import PatternSyntax.Grammar.Type
import PatternSyntax.Json.Basic
import PatternSyntax.Json.Report
import PatternSyntax.Main
import PatternSyntax.Outline
import PatternSyntax.Parse
import PatternSyntax.Parser.Depth
import PatternSyntax.Parser.Expression
import PatternSyntax.Parser.Label
import PatternSyntax.Parser.Modifier
import PatternSyntax.Parser.Pattern
import PatternSyntax.Parser.Procedure
import PatternSyntax.Parser.Procedures
import PatternSyntax.Parser.Type
import PatternSyntax.Proofs.Blanks
import PatternSyntax.Proofs.Blocks
import PatternSyntax.Proofs.Casts
import PatternSyntax.Proofs.CleanDocument
import PatternSyntax.Proofs.CleanExpressions
import PatternSyntax.Proofs.CleanRules
import PatternSyntax.Proofs.CleanRuns
import PatternSyntax.Proofs.Complete
import PatternSyntax.Proofs.Contract
import PatternSyntax.Proofs.Copies
import PatternSyntax.Proofs.Coverage
import PatternSyntax.Proofs.Delimiters
import PatternSyntax.Proofs.Depth
import PatternSyntax.Proofs.Dissolving
import PatternSyntax.Proofs.Document
import PatternSyntax.Proofs.Dressing
import PatternSyntax.Proofs.Elements
import PatternSyntax.Proofs.Embedding
import PatternSyntax.Proofs.EndedRules
import PatternSyntax.Proofs.Endings
import PatternSyntax.Proofs.ErrorPlaces
import PatternSyntax.Proofs.ExpressionRuns
import PatternSyntax.Proofs.Faultless
import PatternSyntax.Proofs.Fences
import PatternSyntax.Proofs.Forward
import PatternSyntax.Proofs.Grafts
import PatternSyntax.Proofs.Growing
import PatternSyntax.Proofs.Guesses
import PatternSyntax.Proofs.JsonReader
import PatternSyntax.Proofs.Labels
import PatternSyntax.Proofs.Lambdas
import PatternSyntax.Proofs.Layout
import PatternSyntax.Proofs.Leftovers
import PatternSyntax.Proofs.Links
import PatternSyntax.Proofs.Listings
import PatternSyntax.Proofs.Lookahead
import PatternSyntax.Proofs.Lossless
import PatternSyntax.Proofs.Markers
import PatternSyntax.Proofs.Marks
import PatternSyntax.Proofs.NeatTrees
import PatternSyntax.Proofs.Neatness
import PatternSyntax.Proofs.Nodes
import PatternSyntax.Proofs.Numerals
import PatternSyntax.Proofs.OpenMarkers
import PatternSyntax.Proofs.Operands
import PatternSyntax.Proofs.Operations
import PatternSyntax.Proofs.Parentheses
import PatternSyntax.Proofs.Partition
import PatternSyntax.Proofs.PatternGrammar
import PatternSyntax.Proofs.PatternNodes
import PatternSyntax.Proofs.PatternUses
import PatternSyntax.Proofs.Places
import PatternSyntax.Proofs.Precedence
import PatternSyntax.Proofs.Procedures
import PatternSyntax.Proofs.Progress
import PatternSyntax.Proofs.Reading
import PatternSyntax.Proofs.Realization
import PatternSyntax.Proofs.RealizedExpressions
import PatternSyntax.Proofs.RealizedOperators
import PatternSyntax.Proofs.RealizedRules
import PatternSyntax.Proofs.RealizedSteps
import PatternSyntax.Proofs.RealizedTexts
import PatternSyntax.Proofs.Reports
import PatternSyntax.Proofs.Respacing
import PatternSyntax.Proofs.Rollback
import PatternSyntax.Proofs.RoundTrip
import PatternSyntax.Proofs.Runs
import PatternSyntax.Proofs.Scanning
import PatternSyntax.Proofs.Screens
import PatternSyntax.Proofs.Shapes
import PatternSyntax.Proofs.Simulation
import PatternSyntax.Proofs.Sketches
import PatternSyntax.Proofs.Sources
import PatternSyntax.Proofs.Speculation
import PatternSyntax.Proofs.Spelling
import PatternSyntax.Proofs.Tandem
import PatternSyntax.Proofs.TandemCasts
import PatternSyntax.Proofs.TandemExpressions
import PatternSyntax.Proofs.TandemOperators
import PatternSyntax.Proofs.TandemRules
import PatternSyntax.Proofs.Terminals
import PatternSyntax.Proofs.Totality
import PatternSyntax.Proofs.TypeLanguage
import PatternSyntax.Proofs.TypeRuns
import PatternSyntax.Proofs.TypeStarts
import PatternSyntax.Proofs.Weave
import PatternSyntax.Proofs.Words
import PatternSyntax.Proofs.Wrapping
import PatternSyntax.Recording.Event
import PatternSyntax.Recording.Recorder
import PatternSyntax.Recording.Replay
import PatternSyntax.Recording.Session
import PatternSyntax.Subject
import PatternSyntax.SyntaxError
import PatternSyntax.Text.CharClass
import PatternSyntax.Text.CodeRanges
import PatternSyntax.Text.HiddenRanges
import PatternSyntax.Text.IdentifierRanges
import PatternSyntax.Text.Join
import PatternSyntax.Text.Position
import PatternSyntax.Text.Quoted
import PatternSyntax.Text.Span
import PatternSyntax.Token.Basic
import PatternSyntax.Token.Kind
import PatternSyntax.Token.Scan
import PatternSyntax.Token.Set
import PatternSyntax.Tree.Basic
import PatternSyntax.Tree.Kind
import PatternSyntax.Tree.Listing
