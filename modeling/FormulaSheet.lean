import FormulaSheet.Builtin
import FormulaSheet.Builtin.Answer
import FormulaSheet.Builtin.Arguments
import FormulaSheet.Builtin.Sequences
import FormulaSheet.Builtin.Sort
import FormulaSheet.Builtin.Statistics
import FormulaSheet.Character.Blank
import FormulaSheet.Character.Case
import FormulaSheet.Character.Hexadecimal
import FormulaSheet.Character.Ranges
import FormulaSheet.Character.Variants
import FormulaSheet.Character.Visible
import FormulaSheet.Character.Word
import FormulaSheet.Context
import FormulaSheet.Definition
import FormulaSheet.Dependency
import FormulaSheet.Double
import FormulaSheet.Error
import FormulaSheet.Evaluator
import FormulaSheet.Expr
import FormulaSheet.Expr.Evaluation
import FormulaSheet.Expr.Operator
import FormulaSheet.Expr.Parser
import FormulaSheet.Function
import FormulaSheet.Host
import FormulaSheet.Json
import FormulaSheet.Library
import FormulaSheet.Number.Exact
import FormulaSheet.Number.Shortest
import FormulaSheet.Number.Text
import FormulaSheet.Outline
import FormulaSheet.Outline.Arguments
import FormulaSheet.Outline.CallSite
import FormulaSheet.Outline.Substitution
import FormulaSheet.Proofs.Application
import FormulaSheet.Proofs.Arguments
import FormulaSheet.Proofs.Binding
import FormulaSheet.Proofs.Blanking
import FormulaSheet.Proofs.Bounds
import FormulaSheet.Proofs.Brackets
import FormulaSheet.Proofs.Circular
import FormulaSheet.Proofs.Coherence
import FormulaSheet.Proofs.Consistency
import FormulaSheet.Proofs.Cycle
import FormulaSheet.Proofs.Decimals
import FormulaSheet.Proofs.Depth
import FormulaSheet.Proofs.Doubles
import FormulaSheet.Proofs.Draws
import FormulaSheet.Proofs.Eager
import FormulaSheet.Proofs.Entrance
import FormulaSheet.Proofs.Equation
import FormulaSheet.Proofs.Exchange
import FormulaSheet.Proofs.Exhaustion
import FormulaSheet.Proofs.Focus
import FormulaSheet.Proofs.Freshness
import FormulaSheet.Proofs.Grammar
import FormulaSheet.Proofs.Grounding
import FormulaSheet.Proofs.Hygiene
import FormulaSheet.Proofs.Innermost
import FormulaSheet.Proofs.Joining
import FormulaSheet.Proofs.JsonValue
import FormulaSheet.Proofs.JsonVariable
import FormulaSheet.Proofs.Layers
import FormulaSheet.Proofs.Literal
import FormulaSheet.Proofs.Lookalike
import FormulaSheet.Proofs.Masking
import FormulaSheet.Proofs.Mentions
import FormulaSheet.Proofs.Naming
import FormulaSheet.Proofs.Nesting
import FormulaSheet.Proofs.NumberOrder
import FormulaSheet.Proofs.Offsets
import FormulaSheet.Proofs.Operation
import FormulaSheet.Proofs.Orderliness
import FormulaSheet.Proofs.Outlined
import FormulaSheet.Proofs.Overlay
import FormulaSheet.Proofs.Packing
import FormulaSheet.Proofs.Pairing
import FormulaSheet.Proofs.Quantiles
import FormulaSheet.Proofs.Reach
import FormulaSheet.Proofs.ReadBack
import FormulaSheet.Proofs.Reading
import FormulaSheet.Proofs.Rebuilding
import FormulaSheet.Proofs.Redefinition
import FormulaSheet.Proofs.Registration
import FormulaSheet.Proofs.Replica
import FormulaSheet.Proofs.Resolution
import FormulaSheet.Proofs.Restoring
import FormulaSheet.Proofs.RoundTrip
import FormulaSheet.Proofs.Rounding
import FormulaSheet.Proofs.Scanning
import FormulaSheet.Proofs.Seams
import FormulaSheet.Proofs.Search
import FormulaSheet.Proofs.Segments
import FormulaSheet.Proofs.Selection
import FormulaSheet.Proofs.Settled
import FormulaSheet.Proofs.Shadowing
import FormulaSheet.Proofs.Sorting
import FormulaSheet.Proofs.Sources
import FormulaSheet.Proofs.Spelling
import FormulaSheet.Proofs.Splices
import FormulaSheet.Proofs.Stack
import FormulaSheet.Proofs.Statements
import FormulaSheet.Proofs.Steps
import FormulaSheet.Proofs.Substitution
import FormulaSheet.Proofs.Sweep
import FormulaSheet.Proofs.Tables
import FormulaSheet.Proofs.Transparency
import FormulaSheet.Proofs.Twin
import FormulaSheet.Proofs.Unreadable
import FormulaSheet.Proofs.Visits
import FormulaSheet.Random
import FormulaSheet.Registry
import FormulaSheet.Rules
import FormulaSheet.Sheet
import FormulaSheet.Sheet.Change
import FormulaSheet.Sheet.Error
import FormulaSheet.Sheet.Reading
import FormulaSheet.Sheet.Snapshot
import FormulaSheet.Table
import FormulaSheet.Token
import FormulaSheet.Token.Reader
import FormulaSheet.Value
import FormulaSheet.Value.Json
import FormulaSheet.Value.Literal
import FormulaSheet.Variable
