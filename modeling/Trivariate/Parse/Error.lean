/-
  Trivariate.Parse.Error
  ──────────────────────
  **WHY A TEXT IS NO EXPRESSION.**

  Every error says at which byte offset of the text it was found; `message`
  is the one place where errors are put into words.
-/
import Trivariate.Operation

namespace Trivariate

/-- The first thing that keeps a text from being an expression. -/
inductive ParseError where
  /-- The text, or what stands before a stray closing parenthesis, is empty. -/
  | emptyInput (position : Nat)
  /-- Something follows a complete grouped expression. -/
  | trailingInput (position : Nat)
  /-- The group that opens here has no closing parenthesis. -/
  | unclosedGroup (position : Nat)
  /-- The group that opens here has no operation. -/
  | missingOperation (position : Nat)
  /-- A second operation in one group. -/
  | duplicateOperation (op : Op) (position : Nat)
  /-- The group that opens here has a wrong number of operands. -/
  | arityMismatch (fault : ArityMismatch) (position : Nat)
  /-- A word that means nothing. -/
  | invalidElement (word : String) (position : Nat)
  /-- A flat operation with too few operands before it. -/
  | stackUnderflow (op : Op) (needed available : Nat) (position : Nat)
  /-- An operation whose operand count flat text cannot show. -/
  | variadicInFlat (op : Op) (position : Nat)
  /-- A flat text of more than one expression: how many too many. -/
  | trailingOperands (count : Nat) (position : Nat)
  deriving Repr, DecidableEq

namespace ParseError

/-- The byte offset at which the error was found. -/
def position : ParseError → Nat
  | .emptyInput p | .trailingInput p | .unclosedGroup p | .missingOperation p
  | .duplicateOperation _ p | .arityMismatch _ p | .invalidElement _ p
  | .stackUnderflow _ _ _ p | .variadicInFlat _ p | .trailingOperands _ p => p

/-- The error in words. -/
def message : ParseError → String
  | .emptyInput p => s!"No element to parse at position {p}"
  | .trailingInput p => s!"Unexpected trailing input at position {p}"
  | .unclosedGroup p =>
      s!"Missing closing parenthesis for group opened at position {p}"
  | .missingOperation p => s!"No operation in group at position {p}"
  | .duplicateOperation op p =>
      s!"More than one operation in group: '{op.token}' at position {p}"
  | .arityMismatch fault p => s!"{fault.message} at position {p}"
  | .invalidElement word p =>
      s!"Unrecognized element '{word}' at position {p}"
  | .stackUnderflow op needed available p =>
      s!"Operation '{op.token}' needs {needed} operands, "
        ++ s!"only {available} available at position {p}"
  | .variadicInFlat op p =>
      s!"Operation '{op.token}' takes a variable number of operands "
        ++ s!"and cannot be used in flat notation (position {p})"
  | .trailingOperands count p =>
      s!"{count} operands left unused at end of input (position {p})"

end ParseError

end Trivariate
