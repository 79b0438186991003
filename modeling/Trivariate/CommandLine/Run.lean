/-
  Trivariate.CommandLine.Run
  ──────────────────────────
  **ONE RUN.**

  A run reads the expression, differentiates it if asked to, writes the result
  in the output notation and evaluates it at the points.  It prints the result
  on one line and each value on a line of its own.
-/
import Trivariate.CommandLine.Arguments
import Trivariate.Expr.Diff
import Trivariate.Expr.Eval
import Trivariate.Expr.Render
import Trivariate.Parse

namespace Trivariate.CommandLine

/-! ## §1. Reports. -/

/-- What a run finds: the expression asked for and its values, a value for
each point. -/
structure Report where
  result : Expr
  values : List Float

/-- An expression that cannot be read. -/
structure Rejection where
  expression : String
  error : ParseError
  deriving Repr, DecidableEq

def Rejection.message (r : Rejection) : String :=
  s!"Invalid expression '{r.expression}': {r.error.message}"

/-- What the run finds. -/
def Config.report (c : Config) : Except Rejection Report :=
  match parse c.input c.expression with
  | .error error => .error ⟨c.expression, error⟩
  | .ok e =>
      let result := match c.diff? with
        | some v => e.diff v
        | none => e
      .ok ⟨result, result.evaluateMany c.points⟩

/-- The result in the output notation. -/
def Config.resultText (c : Config) (r : Report) : String :=
  r.result.render c.output

/-- The line of a point and the value at it. -/
def valueLine (p : Point Float) (value : Float) : String :=
  s!"f({p.text}) = {Numeric.valueText value}"

/-- The lines that the run prints. -/
def Config.lines (c : Config) (r : Report) : List String :=
  c.resultText r :: List.zipWith valueLine c.points r.values

/-! ## §2. Outcomes. -/

/-- What a run leaves behind. -/
structure Outcome where
  exitCode : Nat
  stdout : String
  stderr : String
  deriving Repr, DecidableEq

/-- Every line with its line feed. -/
def unlines (lines : List String) : String :=
  String.join (lines.map (· ++ "\n"))

/-- The program's name and version. -/
def versionLine : String := "exprtree 0.1.0"

/-- What options there are.  This is not the program's help text, which a package
that reads its arguments puts together: the options are the program's, the
layout and the words are made up. -/
def usage : List String :=
  ["Usage: exprtree [OPTIONS] <EXPRESSION>",
   "",
   "  -n, --notation <flat|prefix|postfix>  notation of the expression",
   "  -d, --diff <x|y|z>                    differentiate before printing",
   "  -o, --output <flat|prefix|postfix>    notation of the result",
   "  -a, --at <X,Y,Z>                      evaluate here, any number of times",
   "  -l, --log-level <error|warn|info|debug|trace>",
   "  -h, --help                            print this text",
   "  -V, --version                         print the version"]

/-- The outcome of the run that the settings describe. -/
def Config.run (c : Config) : Outcome :=
  match c.report with
  | .ok r => ⟨0, unlines (c.lines r), ""⟩
  | .error rejection => ⟨1, "", unlines ["Error: " ++ rejection.message]⟩

/-- The outcome of arguments that are no run.  Its exit code, and which of the
two streams is written to, are the program's; of the texts, only the version
is. -/
def Stop.outcome : Stop → Outcome
  | .asked .version => ⟨0, unlines [versionLine], ""⟩
  | .asked .help => ⟨0, unlines usage, ""⟩
  | .misuse fault => ⟨2, "", unlines ["error: " ++ fault.message]⟩

/-- The outcome of a call with these arguments. -/
def run (args : List String) : Outcome :=
  match Config.ofArguments args with
  | .ok c => c.run
  | .error stop => stop.outcome

end Trivariate.CommandLine
