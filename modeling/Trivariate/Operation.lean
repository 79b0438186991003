/-
  Trivariate.Operation
  ────────────────────
  **THE OPERATIONS AND THEIR ARITIES.**

  The eighteen operations an expression is built from, the token by which
  every notation spells each, and how many operands each takes: a fixed
  number, or any number for the sum of exponentials and its logarithm.

  Main results:

      Op.ofToken?_eq_some   a token spells at most one operation
      Op.mem_all            the list of operations is complete
-/

namespace Trivariate

/-! ## §1. Arities. -/

/-- How many operands an operation takes. -/
inductive Arity where
  | fixed (count : Nat)
  | variadic
  deriving Repr, DecidableEq

/-- Whether an operation of this arity takes `count` operands. -/
def Arity.accepts : Arity → Nat → Bool
  | .fixed n, count => n == count
  | .variadic, _ => true

/-- The arity as it is named in messages, before the word for operands. -/
def Arity.text : Arity → String
  | .fixed n => toString n
  | .variadic => "any number of"

/-! ## §2. Operations. -/

/-- The number of operands of a sum of squares or of a distance. -/
inductive Width where
  | two
  | three
  | four
  | five
  deriving Repr, DecidableEq

def Width.toNat : Width → Nat
  | .two => 2
  | .three => 3
  | .four => 4
  | .five => 5

/-- An operation: the arithmetic of two operands, sums of squares and their
roots, sums of exponentials and their logarithms, rounding, and `a * b + c`. -/
inductive Op where
  | add
  | subtract
  | multiply
  | divide
  | negate
  | sumSquares (width : Width)
  | distance (width : Width)
  | sumExp
  | logSumExp
  | floor
  | ceil
  | mulAdd
  deriving Repr, DecidableEq

/-- Every operation once. -/
def Op.all : List Op :=
  [.add, .subtract, .multiply, .divide, .negate,
   .sumSquares .two, .sumSquares .three, .sumSquares .four, .sumSquares .five,
   .distance .two, .distance .three, .distance .four, .distance .five,
   .sumExp, .logSumExp, .floor, .ceil, .mulAdd]

theorem Op.mem_all (op : Op) : op ∈ Op.all := by
  cases op with
  | sumSquares w => cases w <;> decide
  | distance w => cases w <;> decide
  | _ => decide

/-- How many operands the operation takes. -/
def Op.arity : Op → Arity
  | .negate | .floor | .ceil => .fixed 1
  | .add | .subtract | .multiply | .divide => .fixed 2
  | .mulAdd => .fixed 3
  | .sumSquares width | .distance width => .fixed width.toNat
  | .sumExp | .logSumExp => .variadic

/-- The sum of squares of `count` operands, for two to five. -/
def Op.sumSquares? : Nat → Option Op
  | 2 => some (.sumSquares .two)
  | 3 => some (.sumSquares .three)
  | 4 => some (.sumSquares .four)
  | 5 => some (.sumSquares .five)
  | _ => none

/-! ## §3. Tokens. -/

/-- The text that spells the operation in every notation. -/
def Op.token : Op → String
  | .add => "+"
  | .subtract => "-"
  | .multiply => "*"
  | .divide => "/"
  | .negate => "negate"
  | .sumSquares .two => "sumsq2"
  | .sumSquares .three => "sumsq3"
  | .sumSquares .four => "sumsq4"
  | .sumSquares .five => "sumsq5"
  | .distance .two => "distance2"
  | .distance .three => "distance3"
  | .distance .four => "distance4"
  | .distance .five => "distance5"
  | .sumExp => "sumexp"
  | .logSumExp => "lse"
  | .floor => "_"
  | .ceil => "^"
  | .mulAdd => "*+"

/-- The operation that a token spells. -/
def Op.ofToken? (token : String) : Option Op :=
  Op.all.find? (·.token = token)

theorem Op.ofToken?_eq_some {token : String} {op : Op} :
    Op.ofToken? token = some op ↔ op.token = token := by
  constructor
  · intro h
    simpa using List.find?_some h
  · rintro rfl
    cases op with
    | sumSquares w => cases w <;> decide
    | distance w => cases w <;> decide
    | _ => decide

/-! ## §4. A wrong operand count. -/

/-- An operation together with an operand count that it does not take. -/
structure ArityMismatch where
  op : Op
  found : Nat
  deriving Repr, DecidableEq

def ArityMismatch.message (fault : ArityMismatch) : String :=
  s!"Operation '{fault.op.token}' expects {fault.op.arity.text} operands, got {fault.found}"

end Trivariate
