/-
  Trivariate.Notation
  ───────────────────
  **THE THREE NOTATIONS.**

  An expression is written flat, operands before their operation and no
  parentheses, or in groups, one pair of parentheses to a node, with the
  operation first or last.  The two grouped notations are read by one grammar,
  in which the operation may stand anywhere in its group.
-/

namespace Trivariate

/-- How an expression is written. -/
inductive Notation where
  /-- Operands, then their operation: x 2 y * + -/
  | flat
  /-- Groups that begin with their operation: (+ x (* 2 y)) -/
  | operationFirst
  /-- Groups that end with their operation: (x (2 y *) +) -/
  | operationLast
  deriving Repr, DecidableEq

def Notation.all : List Notation := [.flat, .operationFirst, .operationLast]

def Notation.name : Notation → String
  | .flat => "flat"
  | .operationFirst => "prefix"
  | .operationLast => "postfix"

/-- The notation of a name. -/
def Notation.ofName? (name : String) : Option Notation :=
  Notation.all.find? (·.name = name)

theorem Notation.ofName?_name (n : Notation) :
    Notation.ofName? n.name = some n := by
  cases n <;> decide

end Trivariate
