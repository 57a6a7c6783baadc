import Conform.Calendar
import Conform.Checker.Basic
import Conform.Diagnostic.Basic
import Conform.Diagnostic.Equality
import Conform.Diagnostic.Merge
import Conform.Display.Options
import Conform.Display.Render
import Conform.Fault
import Conform.Identity
import Conform.Json.Integer
import Conform.Json.Reader
import Conform.Json.Writer
import Conform.Model.Basic
import Conform.Model.Issue
import Conform.Number.Binary64
import Conform.Number.Decimal
import Conform.Number.Numeral
import Conform.Number.Shortest
import Conform.Proofs.Absence
import Conform.Proofs.Acceptance
import Conform.Proofs.Approximation
import Conform.Proofs.Calls
import Conform.Proofs.CamelNames
import Conform.Proofs.CheckerFaults
import Conform.Proofs.CheckerOutcome
import Conform.Proofs.Coercion
import Conform.Proofs.CompactText
import Conform.Proofs.DeclaredFields
import Conform.Proofs.Defined
import Conform.Proofs.DiagnosticTree
import Conform.Proofs.DistinctKeys
import Conform.Proofs.Elaboration
import Conform.Proofs.EqualTables
import Conform.Proofs.Faults
import Conform.Proofs.FieldReports
import Conform.Proofs.FirstOf
import Conform.Proofs.FloatText
import Conform.Proofs.Grounded
import Conform.Proofs.Hoisting
import Conform.Proofs.Idempotence
import Conform.Proofs.IntegerText
import Conform.Proofs.Issues
import Conform.Proofs.KeyedFields
import Conform.Proofs.Labels
import Conform.Proofs.ListItems
import Conform.Proofs.LiteralKinds
import Conform.Proofs.Location
import Conform.Proofs.Merge
import Conform.Proofs.MergeLaws
import Conform.Proofs.NamedTable
import Conform.Proofs.NearestDecimal
import Conform.Proofs.NodeOrder
import Conform.Proofs.OpenContexts
import Conform.Proofs.Outcome
import Conform.Proofs.Oversized
import Conform.Proofs.PathOrder
import Conform.Proofs.PathPrefix
import Conform.Proofs.QuotedText
import Conform.Proofs.Reading
import Conform.Proofs.ReceivedText
import Conform.Proofs.Records
import Conform.Proofs.Recursion
import Conform.Proofs.Rendering
import Conform.Proofs.Reordering
import Conform.Proofs.Reports
import Conform.Proofs.RoundTrip
import Conform.Proofs.Rounding
import Conform.Proofs.Serializable
import Conform.Proofs.Serving
import Conform.Proofs.Settling
import Conform.Proofs.ShortestDecimal
import Conform.Proofs.Simulation
import Conform.Proofs.SnakeCase
import Conform.Proofs.SpelledText
import Conform.Proofs.UnionNesting
import Conform.Proofs.UnionOutcome
import Conform.Proofs.Unrolling
import Conform.Proofs.Validation
import Conform.Proofs.ValidatorTree
import Conform.Proofs.ValueParts
import Conform.Proofs.ValueTree
import Conform.Proofs.Verdict
import Conform.Proofs.VisibleText
import Conform.Proofs.WellFormed
import Conform.Proofs.Writing
import Conform.Schema.Basic
import Conform.Schema.Definitions
import Conform.Schema.Expr
import Conform.Session
import Conform.Stock.Functions
import Conform.Stock.IntegerReading
import Conform.Stock.Models
import Conform.Stock.Predicates
import Conform.Stock.Transforms
import Conform.Text.Printable
import Conform.Text.Quoted
import Conform.Text.SnakeCase
import Conform.Trace
import Conform.Validate
import Conform.Validator.Basic
import Conform.Validator.Run
import Conform.Validator.Stock
import Conform.Value.Arithmetic
import Conform.Value.Basic
import Conform.Value.Class
import Conform.Value.Comparison
import Conform.Value.Copy
import Conform.Value.Equality
import Conform.Value.Hash
import Conform.Value.Number
import Conform.Value.Set
import Conform.Value.Table
import Conform.Value.Text
