/-
  Trivariate.CommandLine.Coordinates
  ──────────────────────────────────
  **POINTS AS TEXT.**

  A point is written as three numbers with commas between them; blanks around
  a number do not count.  The first text that is no number is the fault, and
  only then the count of numbers.
-/
import Trivariate.Numeric.Literal
import Trivariate.Text.Blank
import Trivariate.Variable

namespace Trivariate

/-- Why a text is no point. -/
inductive PointFault where
  | invalidNumber (text : String) (fault : Numeric.NumberFault)
  | wrongCount (text : String)
  deriving Repr, DecidableEq

def PointFault.message : PointFault → String
  | .invalidNumber text fault =>
      s!"invalid number in '{text}': {fault.message}"
  | .wrongCount text =>
      s!"expected three comma-separated values X,Y,Z, got '{text}'"

/-- The point that a text spells. -/
def Point.read (text : String) : Except PointFault (Point Float) :=
  let parts := text.toList.splitOn ','
  match parts.mapM fun part => Numeric.readNumber (Text.trim part) with
  | .error fault => .error (.invalidNumber text fault)
  | .ok [x, y, z] => .ok ⟨x, y, z⟩
  | .ok _ => .error (.wrongCount text)

/-- A point as it stands in a report. -/
def Point.text (p : Point Float) : String :=
  String.intercalate ", " ([p.x, p.y, p.z].map Numeric.valueText)

end Trivariate
