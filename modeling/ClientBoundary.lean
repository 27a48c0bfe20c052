import ClientBoundary.Alias
import ClientBoundary.Collect
import ClientBoundary.Command
import ClientBoundary.Config.Aliases
import ClientBoundary.Config.Manifest
import ClientBoundary.Config.Options
import ClientBoundary.Config.Project
import ClientBoundary.Config.Repository
import ClientBoundary.Disk
import ClientBoundary.Extension
import ClientBoundary.Failure
import ClientBoundary.Ignore.Glob
import ClientBoundary.Ignore.Layer
import ClientBoundary.Ignore.Pattern
import ClientBoundary.Json.Comments
import ClientBoundary.Json.Numeral
import ClientBoundary.Json.Reader
import ClientBoundary.Json.Token
import ClientBoundary.Json.Value
import ClientBoundary.Json.Writer
import ClientBoundary.Ledger
import ClientBoundary.Main
import ClientBoundary.Path
import ClientBoundary.Propagation
import ClientBoundary.Report.Document
import ClientBoundary.Report.Style
import ClientBoundary.Report.Summary
import ClientBoundary.Resolve
import ClientBoundary.Scan
import ClientBoundary.Scan.Result
import ClientBoundary.Script.Dialect
import ClientBoundary.Script.Edge
import ClientBoundary.Script.Grammar
import ClientBoundary.Script.Grammar.Arrow
import ClientBoundary.Script.Grammar.Class
import ClientBoundary.Script.Grammar.Declaration
import ClientBoundary.Script.Grammar.Element
import ClientBoundary.Script.Grammar.Expression
import ClientBoundary.Script.Grammar.Function
import ClientBoundary.Script.Grammar.ModuleItem
import ClientBoundary.Script.Grammar.Operation
import ClientBoundary.Script.Grammar.Pattern
import ClientBoundary.Script.Grammar.Primary
import ClientBoundary.Script.Grammar.Statement
import ClientBoundary.Script.Grammar.Target
import ClientBoundary.Script.Grammar.Types
import ClientBoundary.Script.Letter
import ClientBoundary.Script.Lexer.Escape
import ClientBoundary.Script.Lexer.Gap
import ClientBoundary.Script.Lexer.Literal
import ClientBoundary.Script.Lexer.Scan
import ClientBoundary.Script.Lexer.Word
import ClientBoundary.Script.Module
import ClientBoundary.Script.Parser
import ClientBoundary.Script.Punct
import ClientBoundary.Script.Token
import ClientBoundary.Script.Tree
import ClientBoundary.Session
import ClientBoundary.Snapshot
import ClientBoundary.Source
import ClientBoundary.Text.Blank
import ClientBoundary.Text.Split
import ClientBoundary.Tree
import ClientBoundary.Walk
import ClientBoundary.Proofs.Path
import ClientBoundary.Proofs.Disk
import ClientBoundary.Proofs.Canonical
import ClientBoundary.Proofs.Resolve
import ClientBoundary.Proofs.Ledger
import ClientBoundary.Proofs.Propagation
import ClientBoundary.Proofs.Coverage
import ClientBoundary.Proofs.Session
import ClientBoundary.Proofs.Scan
import ClientBoundary.Proofs.Order
import ClientBoundary.Proofs.Rescan
import ClientBoundary.Proofs.Keys
import ClientBoundary.Proofs.Memo
import ClientBoundary.Proofs.Alias
import ClientBoundary.Proofs.Json
import ClientBoundary.Proofs.ConfiguredAliases
import ClientBoundary.Proofs.Summary
import ClientBoundary.Proofs.Writer
import ClientBoundary.Proofs.Document
import ClientBoundary.Proofs.Widening
import ClientBoundary.Proofs.Outcomes
import ClientBoundary.Proofs.History
import ClientBoundary.Proofs.Account
import ClientBoundary.Proofs.Worklist
import ClientBoundary.Proofs.AliasHistory
import ClientBoundary.Proofs.DeadEdges
import ClientBoundary.Proofs.Lexeme
import ClientBoundary.Proofs.Comments
import ClientBoundary.Proofs.Parser
import ClientBoundary.Proofs.Reach
import ClientBoundary.Proofs.Arrangement
import ClientBoundary.Proofs.ExpressionRules
import ClientBoundary.Proofs.StatementRules
import ClientBoundary.Proofs.SourceOrder
import ClientBoundary.Proofs.CallSites
import ClientBoundary.Proofs.Exports
import ClientBoundary.Proofs.Anchors
import ClientBoundary.Proofs.Collection
import ClientBoundary.Proofs.Listing
import ClientBoundary.Proofs.Relative
import ClientBoundary.Text.Bytes
