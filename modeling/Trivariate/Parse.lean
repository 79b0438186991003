/-
  Trivariate.Parse
  ────────────────
  **READING EXPRESSIONS.**

  A text is read in the notation it is written in; the two grouped notations
  have one grammar.
-/
import Trivariate.Notation
import Trivariate.Parse.Flat
import Trivariate.Parse.Grouped

namespace Trivariate

/-- The expression that a text spells in a notation. -/
def parse : Notation → String → Except ParseError Expr
  | .flat => Parse.Flat.parse
  | .operationFirst | .operationLast => Parse.Grouped.parse

end Trivariate
