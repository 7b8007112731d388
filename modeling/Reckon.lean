import Reckon.Proofs.Expr.Frame
import Reckon.Proofs.Expr.Grammar
import Reckon.Scope.Store
import Reckon.Sheet.Load
import Reckon.Yaml.Document
import Reckon.Token.Reader
import Reckon.Proofs.Expr.Passes
import Reckon.Proofs.Expr.Completeness
import Reckon.Proofs.Expr.Soundness
import Reckon.Proofs.Expr.Parse
import Reckon.Proofs.Expr.Viable
import Reckon.Proofs.Expr.Rejection
import Reckon.Proofs.Expr.Refinement
import Reckon.Proofs.Expr.Agreement
import Reckon.Proofs.Scope.Builtin
import Reckon.Proofs.Closure.Sample
import Reckon.Proofs.Scope.Alike
import Reckon.Proofs.Scope.Layers
import Reckon.Proofs.Scope.Store
import Reckon.Proofs.Sheet.Constants
import Reckon.Proofs.Token.LongestMatch
import Reckon.Proofs.Token.Reader
import Reckon.Proofs.Token.Tiling
import Reckon.Proofs.Expr.Undefined
import Reckon.Proofs.Scope.History
import Reckon.Proofs.Expr.Brackets
import Reckon.Proofs.Expr.Blame
import Reckon.Proofs.Expr.Placement
import Reckon.Proofs.Decimal.Equality
import Reckon.Proofs.Expr.Origin
import Reckon.Proofs.Expr.Layout
import Reckon.Proofs.Closure.Substitution
import Reckon.Proofs.Expr.Dependence
import Reckon.Proofs.Sheet.Names
import Reckon.Proofs.Expr.FreeVariables
import Reckon.Proofs.Closure.Binding
import Reckon.Proofs.Decimal.Rounding
import Reckon.Proofs.Decimal.Nearest
import Reckon.Proofs.Decimal.Parts
import Reckon.Proofs.Decimal.Reading
import Reckon.Proofs.Decimal.Shortest
import Reckon.Proofs.Decimal.Writing
import Reckon.Proofs.Expr.ReversePolish
import Reckon.Proofs.Sheet.Exchange
import Reckon.Proofs.Diagnostic
import Reckon.Proofs.Text.Lines
import Reckon.Proofs.Expr.ErrorPlace
import Reckon.Proofs.Expr.SourceLine
import Reckon.Proofs.Decimal.Overflow
import Reckon.Proofs.Sheet.Refusal
import Reckon.Proofs.Expr.Endless
import Reckon.Proofs.Scope.Extremum
import Reckon.Proofs.Sheet.Load
import Reckon.Proofs.Yaml.Scalar
import Reckon.Proofs.Yaml.Written
import Reckon.Proofs.Yaml.Lines
