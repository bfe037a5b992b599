import SourceScan.Text.Utf8
import SourceScan.Rule.Security
import SourceScan.Rule.Performance
import SourceScan.Pattern.Lemmas
import SourceScan.LineScan
import SourceScan.Complexity
import SourceScan.Function.Span
import SourceScan.Number.Binary64
import SourceScan.Json.Reader
import SourceScan.Json.Writer
import SourceScan.Config
import SourceScan.Issue.Json
import SourceScan.Check.File
import SourceScan.Check.Manifest
import SourceScan.Check.BuildConfig
import SourceScan.Check.Requirements
import SourceScan.Tree.Walk
import SourceScan.Scan
import SourceScan.Report
import SourceScan.Command
import SourceScan.Service
import SourceScan.Main
import SourceScan.Proofs.Check.Manifest
import SourceScan.Proofs.Command.Ending
import SourceScan.Proofs.Except
import SourceScan.Proofs.Function.Bounds
import SourceScan.Proofs.Function.BodyEnd
import SourceScan.Proofs.Function.Indented
import SourceScan.Proofs.Function.Lifetimes
import SourceScan.Proofs.Function.Parameters
import SourceScan.Proofs.Issue.Key
import SourceScan.Proofs.Json.Complete
import SourceScan.Proofs.Json.Limit
import SourceScan.Proofs.Number.Decimal
import SourceScan.Proofs.Number.Finite
import SourceScan.Proofs.Scan.Advice
import SourceScan.Proofs.Scan.Anchored
import SourceScan.Proofs.Scan.ManifestBytes
import SourceScan.Proofs.Scan.Restrict
import SourceScan.Proofs.Scan.Scripts
import SourceScan.Proofs.Text.CodeOrder
import SourceScan.Proofs.Tree.Proper
import SourceScan.Proofs.Walk.Files
import SourceScan.Proofs.Pattern.Context
import SourceScan.Proofs.Text.ChangedLine
import SourceScan.Proofs.Rule.Comment
import SourceScan.Proofs.Json.Checked
import SourceScan.Proofs.Scan.Thresholds
import SourceScan.Proofs.Service.Agreement
import SourceScan.Proofs.Issue.Form
import SourceScan.Proofs.Scan.Form
import SourceScan.Proofs.Command.Formats
import SourceScan.Proofs.Function.IndentNesting
import SourceScan.Proofs.Function.OneName
import SourceScan.Proofs.Function.Surroundings
import SourceScan.Proofs.Complexity.Joined
import SourceScan.Proofs.Function.LineEnds
import SourceScan.Proofs.Function.Listed
import SourceScan.Proofs.Scan.LineEnds
import SourceScan.Proofs.Pattern.Language
import SourceScan.Proofs.Pattern.Apart
import SourceScan.Proofs.Complexity.Counted
import SourceScan.Proofs.Scan.Lines
import SourceScan.Proofs.Rule.PlainHttp
import SourceScan.Proofs.Rule.Repeated
import SourceScan.Proofs.Walk.Skipped
import SourceScan.Proofs.Scan.AdviceJoined
import SourceScan.Proofs.Text.Items
import SourceScan.Proofs.Text.LetterCase
import SourceScan.Proofs.Check.Requirements
import SourceScan.Proofs.Pattern.Around
import SourceScan.Proofs.Check.PipedScripts
import SourceScan.Proofs.Number.Nearest
import SourceScan.Proofs.Number.Rounding
import SourceScan.Proofs.Check.FileSize
import SourceScan.Proofs.Report.Shown
import SourceScan.Proofs.Scan.ByRule
import SourceScan.Proofs.Scan.Encodings
import SourceScan.Proofs.Scan.Language
