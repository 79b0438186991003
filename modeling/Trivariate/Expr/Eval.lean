/-
  Trivariate.Expr.Eval
  ────────────────────
  **THE VALUE OF AN EXPRESSION.**

  What the operations mean is one rule for every number system: an
  `Arithmetic` supplies the sum, product and so on, and `Op.apply` says which
  of them an operation uses.  Floats are one arithmetic; there nothing fails,
  and a division by zero or a logarithm of zero gives an infinity or a NaN.

  A sum starts at the arithmetic's empty sum and adds from left to right.  For
  floats the empty sum is negative zero, which adds to any float without
  changing it.

  Main result:

      valueIn_node   the value of a node from the values of its operands
-/
import Trivariate.Expr.Basic
import Trivariate.Numeric.Numeral

namespace Trivariate

/-! ## §1. Arithmetics. -/

/-- What it takes to evaluate expressions in a number system. -/
structure Arithmetic (α : Type) where
  /-- The number that a constant stands for. -/
  ofFloat : Float → α
  add : α → α → α
  subtract : α → α → α
  multiply : α → α → α
  divide : α → α → α
  negate : α → α
  exp : α → α
  ln : α → α
  sqrt : α → α
  floor : α → α
  ceil : α → α
  /-- Where every sum starts. -/
  emptySum : α
  /-- The value of an operation on an operand count it does not take. -/
  undefined : α

namespace Arithmetic

variable {α : Type} (A : Arithmetic α)

/-- The sum of the numbers, from left to right. -/
def sum (values : List α) : α :=
  values.foldl A.add A.emptySum

def sumOfSquares (values : List α) : α :=
  A.sum (values.map fun v => A.multiply v v)

def sumOfExps (values : List α) : α :=
  A.sum (values.map A.exp)

end Arithmetic

/-- The value of an operation on the values of its operands.  Sums and what
is made of sums take any number of them. -/
def Op.apply {α : Type} (A : Arithmetic α) : Op → List α → α
  | .add, [a, b] => A.add a b
  | .subtract, [a, b] => A.subtract a b
  | .multiply, [a, b] => A.multiply a b
  | .divide, [a, b] => A.divide a b
  | .negate, [a] => A.negate a
  | .sumSquares _, values => A.sumOfSquares values
  | .distance _, values => A.sqrt (A.sumOfSquares values)
  | .sumExp, values => A.sumOfExps values
  | .logSumExp, values => A.ln (A.sumOfExps values)
  | .floor, [a] => A.floor a
  | .ceil, [a] => A.ceil a
  | .mulAdd, [a, b, c] => A.add (A.multiply a b) c
  | _, _ => A.undefined

/-! ## §2. Values of trees. -/

/-- The value of an expression in an arithmetic, at a point of it. -/
def Expr.valueIn {α : Type} (A : Arithmetic α) (p : Point α) : Expr → α :=
  Expr.fold A.ofFloat p.get (Op.apply A)

@[simp] theorem Expr.valueIn_const {α : Type} (A : Arithmetic α) (p : Point α)
    (value : Float) : (Expr.const value).valueIn A p = A.ofFloat value := rfl

@[simp] theorem Expr.valueIn_var {α : Type} (A : Arithmetic α) (p : Point α)
    (v : Var) : (Expr.var v).valueIn A p = p.get v := rfl

@[simp] theorem Expr.valueIn_node {α : Type} (A : Arithmetic α) (p : Point α)
    (op : Op) (operands : List Expr) :
    (Expr.node op operands).valueIn A p
      = op.apply A (operands.map (Expr.valueIn A p)) :=
  Expr.fold_node ..

/-! ## §3. Floats. -/

/-- A function of one float that gives NaN for NaN. -/
def keepNaN (f : Float → Float) (x : Float) : Float :=
  if x.isNaN then Numeric.nan else f x

/-- The arithmetic of binary64 floats. -/
def Arithmetic.binary64 : Arithmetic Float where
  ofFloat := id
  add := (· + ·)
  subtract := (· - ·)
  multiply := (· * ·)
  divide := (· / ·)
  negate := (- ·)
  exp := keepNaN Float.exp
  ln := keepNaN Float.log
  sqrt := Float.sqrt
  floor := keepNaN Float.floor
  ceil := keepNaN Float.ceil
  emptySum := -0.0
  undefined := Numeric.nan

/-- The value of an expression at a point. -/
def Expr.evaluate (e : Expr) (p : Point Float) : Float :=
  e.valueIn .binary64 p

/-- The values of an expression at each of the points, in their order. -/
def Expr.evaluateMany (e : Expr) (points : List (Point Float)) : List Float :=
  points.map e.evaluate

example : (Expr.add (.var .x) (.const 0.5)).evaluate ⟨1, 0, 0⟩ = 1.5 := by
  decide +kernel

/-- The empty sum is negative zero. -/
example : (Expr.sumExp []).evaluate ⟨1, 2, 3⟩ = -0.0 := by decide +kernel

end Trivariate
