import XmlMacros.Command
import XmlMacros.Condition
import XmlMacros.Config
import XmlMacros.Console
import XmlMacros.Datum
import XmlMacros.Decimal.Binary64
import XmlMacros.Decimal.Integer
import XmlMacros.Decimal.Numeral
import XmlMacros.Decimal.Shortest
import XmlMacros.Dict
import XmlMacros.Directive
import XmlMacros.Disk
import XmlMacros.Expansion.Document
import XmlMacros.Expansion.Expand
import XmlMacros.Expansion.Gather
import XmlMacros.Expansion.Handlers
import XmlMacros.Expansion.State
import XmlMacros.Expr.Lexeme
import XmlMacros.Expr.Reader
import XmlMacros.Expr.Token
import XmlMacros.Expr.Tree
import XmlMacros.Expr.Value
import XmlMacros.Fault
import XmlMacros.IncludePath
import XmlMacros.Limits
import XmlMacros.Macro
import XmlMacros.Main
import XmlMacros.Markup.Attributes
import XmlMacros.Markup.Doctype
import XmlMacros.Markup.Name
import XmlMacros.Markup.Namespace
import XmlMacros.Markup.Node
import XmlMacros.Markup.Printer
import XmlMacros.Markup.Prologue
import XmlMacros.Markup.Reader
import XmlMacros.Markup.Reference
import XmlMacros.Markup.Scan
import XmlMacros.Markup.Search
import XmlMacros.Markup.Token
import XmlMacros.Markup.Weight
import XmlMacros.Mismatch
import XmlMacros.Options
import XmlMacros.Param
import XmlMacros.Program
import XmlMacros.Proofs.Decimal.Numeral
import XmlMacros.Proofs.Expansion.Agree
import XmlMacros.Proofs.Expansion.Basic
import XmlMacros.Proofs.Expansion.Comparison
import XmlMacros.Proofs.Expansion.Context
import XmlMacros.Proofs.Expansion.Correspondence
import XmlMacros.Proofs.Expansion.Deferral
import XmlMacros.Proofs.Expansion.Emission
import XmlMacros.Proofs.Expansion.Faultless
import XmlMacros.Proofs.Expansion.GlobalProperties
import XmlMacros.Proofs.Expansion.Hoisting
import XmlMacros.Proofs.Expansion.Idempotent
import XmlMacros.Proofs.Expansion.Inlining
import XmlMacros.Proofs.Expansion.Isolation
import XmlMacros.Proofs.Expansion.Keeping
import XmlMacros.Proofs.Expansion.Moment
import XmlMacros.Proofs.Expansion.NoDirectives
import XmlMacros.Proofs.Expansion.Parallel
import XmlMacros.Proofs.Expansion.Phase
import XmlMacros.Proofs.Expansion.Preloading
import XmlMacros.Proofs.Expansion.Quiet
import XmlMacros.Proofs.Expansion.Reporting
import XmlMacros.Proofs.Expansion.Simulation
import XmlMacros.Proofs.Expansion.Visit
import XmlMacros.Proofs.Expr.Failure
import XmlMacros.Proofs.Expr.Grammar
import XmlMacros.Proofs.Expr.Lexing
import XmlMacros.Proofs.Expr.Literal
import XmlMacros.Proofs.Frame
import XmlMacros.Proofs.Run
import XmlMacros.Proofs.Substitution.Cycle
import XmlMacros.Proofs.Substitution.Deferral
import XmlMacros.Proofs.Substitution.Free
import XmlMacros.Proofs.Substitution.Grammar
import XmlMacros.Proofs.Substitution.Outcome
import XmlMacros.Proofs.Substitution.Relation
import XmlMacros.Scope
import XmlMacros.Substitution.Eval
import XmlMacros.Substitution.Span
import XmlMacros.Text.Base64
import XmlMacros.Text.Blank
import XmlMacros.Text.Case
import XmlMacros.Text.Digit
import XmlMacros.Text.Glyph
import XmlMacros.Text.Path
import XmlMacros.Text.Printable
import XmlMacros.Text.Quoted
import XmlMacros.Text.Word
import XmlMacros.Timestamp
import XmlMacros.Yaml.Cursor
import XmlMacros.Yaml.Error
import XmlMacros.Yaml.Graph
import XmlMacros.Yaml.Kind
import XmlMacros.Yaml.Node
import XmlMacros.Yaml.Number
import XmlMacros.Yaml.Scalar
import XmlMacros.Yaml.Token
import XmlMacros.Yaml.Value
import XmlMacros.Proofs.Markup.Legality
import XmlMacros.Proofs.Markup.Piece
import XmlMacros.Proofs.Expansion.Binding
import XmlMacros.Proofs.Expansion.Termination
import XmlMacros.Proofs.Expansion.Prefixing
import XmlMacros.Proofs.Expansion.Diagnostics
import XmlMacros.Proofs.Expansion.Legality
import XmlMacros.Proofs.Expansion.Output
import XmlMacros.Proofs.Expr.Integers
import XmlMacros.Proofs.Expr.Replacement
import XmlMacros.Proofs.Substitution.Braced
import XmlMacros.Proofs.Substitution.Integers
import XmlMacros.Proofs.Substitution.Names
import XmlMacros.Proofs.Expansion.Passing
import XmlMacros.Proofs.Expansion.Blocks
import XmlMacros.Proofs.Substitution.Cutting
import XmlMacros.Proofs.Substitution.Escaping
import XmlMacros.Proofs.Substitution.Composition
import XmlMacros.Proofs.Parameters
import XmlMacros.Proofs.Expr.Inlining
import XmlMacros.Proofs.Expr.Parentheses
import XmlMacros.Proofs.Substitution.Alone
import XmlMacros.Proofs.Substitution.Depth
import XmlMacros.Proofs.Substitution.Factoring
import XmlMacros.Proofs.Substitution.Commandless
import XmlMacros.Proofs.Substitution.Sequence
import XmlMacros.Proofs.Expansion.Completion
import XmlMacros.Proofs.Expansion.Arguments
import XmlMacros.Proofs.Expansion.Descent
import XmlMacros.Proofs.Expansion.Recording
import XmlMacros.Proofs.Configuration
import XmlMacros.Proofs.IncludePath
import XmlMacros.Proofs.Expansion.RelativePaths
import XmlMacros.Proofs.Expansion.Recovery
import XmlMacros.Proofs.Expr.Referring
import XmlMacros.Proofs.Substitution.Positions
import XmlMacros.Proofs.ParameterReading
import XmlMacros.Proofs.Markup.Places
import XmlMacros.Proofs.Condition
import XmlMacros.Proofs.Substitution.Interruption
import XmlMacros.Proofs.Expansion.Conditions
