import Trivariate.Derivative
import Trivariate.Main
import Trivariate.Session
import Trivariate.Proofs.Outcome
import Trivariate.Proofs.Numeric.Fields
import Trivariate.Proofs.Numeric.Rounding
import Trivariate.Proofs.Numeric.Readback
import Trivariate.Proofs.Expr.Accepted
import Trivariate.Proofs.Expr.Everywhere
import Trivariate.Proofs.Calculus.Derivative
import Trivariate.Proofs.Parse.Leaf
import Trivariate.Proofs.Text.Cut
import Trivariate.Proofs.Expr.Render
import Trivariate.Proofs.Parse.Grouped
import Trivariate.Proofs.Parse.Flat
import Trivariate.Proofs.Parse.RoundTrip
import Trivariate.Proofs.Parse.Fault
import Trivariate.Proofs.Numeric.Literal
import Trivariate.Proofs.Parse.Closure
import Trivariate.Proofs.Expr.Built
import Trivariate.Proofs.Parse.Agreement
import Trivariate.Proofs.Algebra.Ring
import Trivariate.Proofs.Algebra.Dual
import Trivariate.Proofs.Algebra.Mixed
import Trivariate.Proofs.CommandLine.Report
import Trivariate.Proofs.Text.Position
import Trivariate.Proofs.Parse.Along
import Trivariate.Proofs.Parse.Cursor.Safety
import Trivariate.Proofs.Parse.Depth
import Trivariate.Proofs.Expr.Peeling
import Trivariate.Proofs.Expr.Calls
import Trivariate.Proofs.Parse.Derivatives
import Trivariate.Proofs.Parse.Offender
import Trivariate.Proofs.Session
import Trivariate.Proofs.Expr.Expansion
import Trivariate.Proofs.Value.Absent
import Trivariate.Proofs.Value.Summation
import Trivariate.Proofs.Value.Masking
import Trivariate.Proofs.Numeric.Language
import Trivariate.Proofs.Numeric.Comparison
import Trivariate.Proofs.Expr.Rewriting
import Trivariate.Proofs.Expr.Equality
import Trivariate.Proofs.Expr.Growth
import Trivariate.Proofs.Value.Dependence
import Trivariate.Proofs.Expr.Unambiguous
import Trivariate.Proofs.Text.Runs
