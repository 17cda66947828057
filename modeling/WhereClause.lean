import WhereClause.Text.Blank
import WhereClause.Text.Case
import WhereClause.Text.Escape
import WhereClause.Binary.Shortest
import WhereClause.Decimal.ToBinary
import WhereClause.Token.Lexer
import WhereClause.Expr.Parser
import WhereClause.Expr.Names
import WhereClause.Expr.Visit
import WhereClause.Pass.Bind
import WhereClause.Pass.Case
import WhereClause.Compile
import WhereClause.Expr.Outline
import WhereClause.Value.Json
import WhereClause.Main
import WhereClause.Proofs.Grammar
import WhereClause.Proofs.Parsing
import WhereClause.Proofs.Quotation
import WhereClause.Proofs.Spelling
import WhereClause.Proofs.LongestMatch
import WhereClause.Proofs.SqlReading
import WhereClause.Proofs.Written
import WhereClause.Proofs.RoundTrip
import WhereClause.Proofs.Rebuilding
import WhereClause.Proofs.Relabelling
import WhereClause.Proofs.Binding
import WhereClause.Proofs.Parameters
import WhereClause.Proofs.Cursor
import WhereClause.Proofs.Answers
import WhereClause.Proofs.CursorSafety
import WhereClause.Proofs.Lookahead
import WhereClause.Proofs.Viability
import WhereClause.Proofs.Places
import WhereClause.Proofs.KeptNodes
import WhereClause.Proofs.Handles
import WhereClause.Proofs.KeptAddresses
import WhereClause.Proofs.Sources
import WhereClause.Proofs.Failures
import WhereClause.Proofs.Relining
import WhereClause.Proofs.Respacing
import WhereClause.Proofs.Histories
import WhereClause.Proofs.QuoteFree
import WhereClause.Proofs.Comments
import WhereClause.Proofs.Backslashes
import WhereClause.Proofs.SqlGrouping
import WhereClause.Proofs.Carrying
import WhereClause.Proofs.Precedence
import WhereClause.Proofs.Commuting
import WhereClause.Proofs.NumberLiterals
import WhereClause.Proofs.Occurrences
import WhereClause.Proofs.References
import WhereClause.Proofs.FreeNames
import WhereClause.Proofs.Placeholders
import WhereClause.Proofs.Scanner
import WhereClause.Proofs.ScannerSafety
import WhereClause.Proofs.Traversal
import WhereClause.Proofs.ScannerProgress
import WhereClause.Proofs.NumberReading
import WhereClause.Proofs.ShortestTies
import WhereClause.Proofs.DecimalDigits
