import InstallerLint.Analysis.Analyzer
import InstallerLint.Analysis.Check
import InstallerLint.Baseline
import InstallerLint.Cache.Basic
import InstallerLint.Cache.Entry
import InstallerLint.Change.Basic
import InstallerLint.Cli.Analyze
import InstallerLint.Cli.Command
import InstallerLint.Cli.Flag
import InstallerLint.Cli.Help
import InstallerLint.Cli.Inspect
import InstallerLint.Cli.Run
import InstallerLint.Cli.Session
import InstallerLint.Condition.Basic
import InstallerLint.Condition.Eval
import InstallerLint.Condition.Json
import InstallerLint.Condition.Yaml
import InstallerLint.Config.Basic
import InstallerLint.Config.Decode
import InstallerLint.Config.Json
import InstallerLint.Config.Load
import InstallerLint.Config.Setting
import InstallerLint.Config.Toml
import InstallerLint.Dependency.Extract
import InstallerLint.Dependency.Graph
import InstallerLint.Dependency.Report
import InstallerLint.Diagnostic.Basic
import InstallerLint.Diagnostic.Fingerprint
import InstallerLint.Diagnostic.Json
import InstallerLint.Diagnostic.Severity
import InstallerLint.Diff.Match
import InstallerLint.Diff.Patch
import InstallerLint.Diff.Unified
import InstallerLint.Disk.Basic
import InstallerLint.Disk.Entry
import InstallerLint.Disk.Write
import InstallerLint.Document.Basic
import InstallerLint.Document.Builder
import InstallerLint.Document.Edit
import InstallerLint.Document.Element
import InstallerLint.Document.Json
import InstallerLint.Document.Parse
import InstallerLint.Glob
import InstallerLint.Hash.Sha256
import InstallerLint.Hash.Word
import InstallerLint.Hash.Xxh3
import InstallerLint.Json.Basic
import InstallerLint.Json.Reader
import InstallerLint.Json.Writer
import InstallerLint.Log
import InstallerLint.Main
import InstallerLint.Numbers
import InstallerLint.Path
import InstallerLint.Pattern.Basic
import InstallerLint.Pattern.Parse
import InstallerLint.Project
import InstallerLint.Report
import InstallerLint.Rule.Basic
import InstallerLint.Rule.Builtin
import InstallerLint.Rule.Engine
import InstallerLint.Rule.Fix
import InstallerLint.Rule.Load
import InstallerLint.Rule.Validate
import InstallerLint.SourceFile
import InstallerLint.Suppression
import InstallerLint.Symbol.Directory
import InstallerLint.Symbol.Index
import InstallerLint.Tally
import InstallerLint.Text.Base64
import InstallerLint.Text.Blank
import InstallerLint.Text.Bytes
import InstallerLint.Text.Case
import InstallerLint.Text.Category
import InstallerLint.Text.EnvFile
import InstallerLint.Text.Find
import InstallerLint.Text.Lines
import InstallerLint.Text.Number
import InstallerLint.Text.Order
import InstallerLint.Text.Quoted
import InstallerLint.Text.Ranges
import InstallerLint.Text.Script
import InstallerLint.Text.Span
import InstallerLint.Text.Timestamp
import InstallerLint.Version
import InstallerLint.Walk.Basic
import InstallerLint.Walk.Ignore
import InstallerLint.Watch
import InstallerLint.Xml.Chars
import InstallerLint.Xml.Fault
import InstallerLint.Xml.Token
import InstallerLint.Yaml.DataTree
import InstallerLint.Yaml.Decode
import InstallerLint.Yaml.Fault
import InstallerLint.Yaml.Input
import InstallerLint.Yaml.Scalar
import InstallerLint.Yaml.Stream
import InstallerLint.Yaml.Token
import InstallerLint.Proofs.Analysis.Digest
import InstallerLint.Proofs.Analysis.Limit
import InstallerLint.Proofs.Analysis.RuleOrder
import InstallerLint.Proofs.Analysis.Selection
import InstallerLint.Proofs.Baseline
import InstallerLint.Proofs.Batch
import InstallerLint.Proofs.Cache.InStep
import InstallerLint.Proofs.Cache.Persisted
import InstallerLint.Proofs.Change.NewLines
import InstallerLint.Proofs.Change.Status
import InstallerLint.Proofs.Condition.Codec
import InstallerLint.Proofs.Condition.Dual
import InstallerLint.Proofs.Condition.Unreadable
import InstallerLint.Proofs.Dependency.Cycles
import InstallerLint.Proofs.Dependency.Files
import InstallerLint.Proofs.Dependency.Order
import InstallerLint.Proofs.Diagnostic.Placed
import InstallerLint.Proofs.Diff.Faithful
import InstallerLint.Proofs.Disk.Whole
import InstallerLint.Proofs.Document.Attribute
import InstallerLint.Proofs.Document.LineNumbers
import InstallerLint.Proofs.Document.Remove
import InstallerLint.Proofs.Project.CrossFile
import InstallerLint.Proofs.Project.Rejected
import InstallerLint.Proofs.Project.Reuse
import InstallerLint.Proofs.Project.RuleFiles
import InstallerLint.Proofs.Project.Schedule
import InstallerLint.Proofs.Rule.Message
import InstallerLint.Proofs.Rule.Remedy
import InstallerLint.Proofs.Rule.WellFormed
import InstallerLint.Proofs.Suppression
import InstallerLint.Proofs.Symbol.Digest
import InstallerLint.Proofs.Symbol.History
import InstallerLint.Proofs.Symbol.Queries
import InstallerLint.Proofs.Walk
import InstallerLint.Proofs.Watch
