import TagLint.Text.Width
import TagLint.Text.Blank
import TagLint.Text.Alphanumeric
import TagLint.Text.Hidden
import TagLint.Text.Cut
import TagLint.Position
import TagLint.Severity
import TagLint.Diagnostic
import TagLint.Text.Quoted
import TagLint.Error
import TagLint.Declaration
import TagLint.Tag.Kind
import TagLint.Tag.Registry
import TagLint.Tag.Argument
import TagLint.Tag.Validation
import TagLint.DocComment
import TagLint.Php.Token
import TagLint.Php.Owner
import TagLint.Php.Document
import TagLint.SourceStore
import TagLint.Json
import TagLint.Lint
import TagLint.Files.Path
import TagLint.Report
import TagLint.Files.Glob
import TagLint.Files.Tree
import TagLint.Files.Ignore
import TagLint.Files.Discovery
import TagLint.Binary64
import TagLint.Text.Split
import TagLint.Settings.Value
import TagLint.Settings.Toml
import TagLint.Settings.Variables
import TagLint.Settings.Error
import TagLint.Settings.Fields
import TagLint.CommandLine.Grammar
import TagLint.CommandLine.Arguments
import TagLint.Settings.Wrapped
import TagLint.Settings.Layers
import TagLint.Session
import TagLint.Run
import TagLint.Main
import TagLint.Proofs.Places
import TagLint.Proofs.Positions
import TagLint.Proofs.Runs
import TagLint.Proofs.CommentLines
import TagLint.Proofs.Reading
import TagLint.Proofs.OwnerHead
import TagLint.Proofs.SpanFidelity
import TagLint.Proofs.Constructs
import TagLint.Proofs.LeadingTokens
import TagLint.Proofs.Segments
import TagLint.Proofs.Lookahead
import TagLint.Proofs.Agreement
import TagLint.Proofs.ArgumentRemoval
import TagLint.Proofs.Removal
import TagLint.Proofs.CarriageReturns
import TagLint.Proofs.MovedItems
import TagLint.Proofs.MovedFindings
import TagLint.Proofs.LineEndings
import TagLint.Proofs.SourceOrder
import TagLint.Proofs.FindingOrder
import TagLint.Proofs.ShiftedItems
import TagLint.Proofs.PlainText
import TagLint.Proofs.StoreHistory
import TagLint.Proofs.Interleaving
import TagLint.Proofs.RunOutcome
import TagLint.Proofs.Selection
import TagLint.Proofs.FailedRuns
import TagLint.Proofs.FindingLines
import TagLint.Proofs.OutputFormats
import TagLint.Proofs.Overlay
import TagLint.Proofs.Layering
import TagLint.Proofs.CleanArguments
import TagLint.Proofs.AppliedFixes
import TagLint.Proofs.OwnerClassification
import TagLint.Proofs.TypedConstants
import TagLint.Proofs.ExactPositions
import TagLint.Proofs.CommentLayout
import TagLint.Proofs.ExcludedFiles
import TagLint.Proofs.CommentEnds
import TagLint.Proofs.FoundFiles
import TagLint.Proofs.RulesAbove
import TagLint.Proofs.PhpNames
import TagLint.Proofs.DirectoryWalks
import TagLint.Proofs.TotalReading
import TagLint.Proofs.WordArguments
import TagLint.Proofs.ReportedLines
import TagLint.Proofs.CompactBlocks
import TagLint.Proofs.PositionEntries
import TagLint.Proofs.Recognizers
import TagLint.Proofs.RecognizedConstructs
import TagLint.Proofs.TotalLexing
