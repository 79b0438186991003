/-
  Trivariate.Main
  ───────────────
  **THE COMMAND.**

  Prints what a run leaves behind and ends with its exit code.
-/
import Trivariate.CommandLine.Run

def main (args : List String) : IO UInt32 := do
  let outcome := Trivariate.CommandLine.run args
  (← IO.getStdout).putStr outcome.stdout
  (← IO.getStderr).putStr outcome.stderr
  return outcome.exitCode.toUInt32
