/-
  Trivariate.Derivative
  ─────────────────────
  **DERIVATIVES OF A TEXT.**

  The derivative of the expression that a text spells, and the chain of its
  derivatives by one variable after another.  A variable's name is read before
  what is differentiated by it, so that of a wrong first name and an
  unreadable text the name is the fault; with no names the text is not read.
-/
import Trivariate.Expr.Diff
import Trivariate.Parse

namespace Trivariate

/-! ## §1. One derivative. -/

/-- The derivative by `v` of the expression that a text spells. -/
def derivativeOf (n : Notation) (text : String) (v : Var) :
    Except ParseError Expr :=
  (parse n text).map (Expr.diff v)

/-! ## §2. Chains. -/

/-- Each derivative in turn: of `e` by the first variable, of that by the
second, and so on. -/
def Expr.diffChain (e : Expr) : List Var → List Expr
  | [] => []
  | v :: vs => e.diff v :: (e.diff v).diffChain vs

/-- Why a text has no chain of derivatives by the named variables. -/
inductive ChainFault where
  | unknownVariable (fault : UnknownVariable)
  | unparsable (fault : ParseError)
  deriving Repr, DecidableEq

/-- The chain of derivatives of a text by the variables of these names. -/
def derivativesOf (n : Notation) (text : String) :
    List String → Except ChainFault (List Expr)
  | [] => .ok []
  | name :: names => do
      let v ← (Var.read name).mapError .unknownVariable
      let e ← (derivativeOf n text v).mapError .unparsable
      let vs ← (names.mapM Var.read).mapError .unknownVariable
      .ok (e :: e.diffChain vs)

end Trivariate
