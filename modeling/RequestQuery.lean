import RequestQuery.Binary64.Basic
import RequestQuery.Binary64.Layout
import RequestQuery.Binary64.Shortest
import RequestQuery.Columns
import RequestQuery.Decimal.Whole
import RequestQuery.Dict
import RequestQuery.Event
import RequestQuery.Expansion
import RequestQuery.Filter.Basic
import RequestQuery.Filter.Check
import RequestQuery.Filter.Parser
import RequestQuery.Filter.Printer
import RequestQuery.Filter.Token
import RequestQuery.Json.Basic
import RequestQuery.Json.Reader
import RequestQuery.Json.Text
import RequestQuery.Loading
import RequestQuery.Options
import RequestQuery.Parameters.Basic
import RequestQuery.Parameters.Form
import RequestQuery.Plan
import RequestQuery.Planner
import RequestQuery.Predicate
import RequestQuery.Proofs.AcceptedNames
import RequestQuery.Proofs.AlikeFilters
import RequestQuery.Proofs.AlikeStatements
import RequestQuery.Proofs.BoundValues
import RequestQuery.Proofs.BranchOrder
import RequestQuery.Proofs.CheckedFilter
import RequestQuery.Proofs.ClauseReader
import RequestQuery.Proofs.ClauseTokens
import RequestQuery.Proofs.ClosedSchema
import RequestQuery.Proofs.ComponentSize
import RequestQuery.Proofs.Conversation
import RequestQuery.Proofs.CountValue
import RequestQuery.Proofs.DecimalLiterals
import RequestQuery.Proofs.DeclaredColumns
import RequestQuery.Proofs.Fallible
import RequestQuery.Proofs.FaultPositions
import RequestQuery.Proofs.FilterGrammar
import RequestQuery.Proofs.FilterMeaning
import RequestQuery.Proofs.FiniteNumbers
import RequestQuery.Proofs.JoinKey
import RequestQuery.Proofs.JoinedRows
import RequestQuery.Proofs.JsonValues
import RequestQuery.Proofs.KeptColumns
import RequestQuery.Proofs.LeftmostFault
import RequestQuery.Proofs.LiteralPattern
import RequestQuery.Proofs.LoadRun
import RequestQuery.Proofs.LookupKeys
import RequestQuery.Proofs.NestingLimit
import RequestQuery.Proofs.NumberText
import RequestQuery.Proofs.NumericOptions
import RequestQuery.Proofs.OctetScan
import RequestQuery.Proofs.ParsedFilter
import RequestQuery.Proofs.ParserSteps
import RequestQuery.Proofs.PermittedTree
import RequestQuery.Proofs.PlaceholderOrder
import RequestQuery.Proofs.PrintedFilter
import RequestQuery.Proofs.ReadColumns
import RequestQuery.Proofs.RenderedClause
import RequestQuery.Proofs.RequestBounds
import RequestQuery.Proofs.RequestLayout
import RequestQuery.Proofs.ResolvedTree
import RequestQuery.Proofs.RowPlans
import RequestQuery.Proofs.RunProtocol
import RequestQuery.Proofs.SchemaAcceptance
import RequestQuery.Proofs.SelectedColumns
import RequestQuery.Proofs.ShortestDecimal
import RequestQuery.Proofs.SpelledTokens
import RequestQuery.Proofs.Stages
import RequestQuery.Proofs.StatementCount
import RequestQuery.Proofs.StatementNames
import RequestQuery.Proofs.StrayPercent
import RequestQuery.Proofs.TokenGrammar
import RequestQuery.Proofs.TokenSpans
import RequestQuery.Proofs.TreeSize
import RequestQuery.Proofs.TrustedScope
import RequestQuery.Proofs.Truth
import RequestQuery.Proofs.UnquotedNames
import RequestQuery.Proofs.Utf8Decoding
import RequestQuery.Proofs.Whitelist
import RequestQuery.Proofs.WrittenOptions
import RequestQuery.Proofs.WrittenQuery
import RequestQuery.QueryOption
import RequestQuery.Rejection
import RequestQuery.Schema.Basic
import RequestQuery.Schema.Resource
import RequestQuery.Selection
import RequestQuery.Settings.Config
import RequestQuery.Settings.Contract
import RequestQuery.Settings.Fault
import RequestQuery.Settings.Limits
import RequestQuery.Sql.Condition
import RequestQuery.Sql.Identifier
import RequestQuery.Sql.Lexeme
import RequestQuery.Sql.Operator
import RequestQuery.Sql.Query
import RequestQuery.Sql.Value
import RequestQuery.Sql.Where
import RequestQuery.Text.Ascii
import RequestQuery.Text.Blank
import RequestQuery.Text.Combining
import RequestQuery.Text.Ignorable
import RequestQuery.Text.Printable
import RequestQuery.Text.Quoted
import RequestQuery.Text.Split
import RequestQuery.Text.Utf8
import RequestQuery.Toml.Reader
import RequestQuery.Toml.Table
import RequestQuery.Toml.Token
