/-
  Trivariate.Expr.Diff
  ────────────────────
  **DIFFERENTIATION.**

  The derivative of a tree by a variable, as a tree.  A node's derivative is
  made from its operands and their derivatives by a table with one row an
  operation; nothing is simplified, so the derivative of `x + 1` by `x` is
  `1 + 0`.  Sums of squares and of exponentials differentiate to sums nested
  to the right, one term an operand.

  Main result:

      diff_node   the derivative of a node from those of its operands
-/
import Trivariate.Expr.Basic
import Trivariate.Numeric.Numeral

namespace Trivariate

open Trivariate.Expr

/-! ## §1. The rules. -/

/-- An operand with its derivative. -/
structure Tangent where
  base : Expr
  slope : Expr

namespace Tangent

/-- The derivative of `a * b`. -/
def product (a b : Tangent) : Expr :=
  add (multiply a.slope b.base) (multiply a.base b.slope)

/-- The derivative of `a / b`. -/
def quotient (a b : Tangent) : Expr :=
  divide (subtract (multiply a.slope b.base) (multiply a.base b.slope))
    (multiply b.base b.base)

/-- The derivative of the exponential of `a`, which is written as the sum of
one exponential. -/
def exponential (a : Tangent) : Expr :=
  multiply (sumExp [a.base]) a.slope

/-- The terms of a sum, nested to the right; the empty sum is zero. -/
def nestedSum (term : Tangent → Expr) : List Tangent → Expr
  | [] => zero
  | [t] => term t
  | t :: ts => add (term t) (nestedSum term ts)

/-- The derivative of a sum of squares. -/
def sumOfSquares : List Tangent → Expr :=
  nestedSum fun t => product t t

/-- The derivative of a sum of exponentials. -/
def sumOfExps : List Tangent → Expr :=
  nestedSum exponential

end Tangent

namespace Expr

/-- The derivative of a node, from its operands and their derivatives.  An
operation on an operand count it has no rule for gives NaN. -/
def nodeSlope : Op → List Tangent → Expr
  | .add, [a, b] => add a.slope b.slope
  | .subtract, [a, b] => subtract a.slope b.slope
  | .multiply, [a, b] => a.product b
  | .divide, [a, b] => a.quotient b
  | .negate, [a] => negate a.slope
  | .sumSquares _, ts => Tangent.sumOfSquares ts
  | .distance w, ts =>
      divide (Tangent.sumOfSquares ts)
        (multiply two (.node (.distance w) (ts.map Tangent.base)))
  | .sumExp, ts => Tangent.sumOfExps ts
  | .logSumExp, ts =>
      divide (Tangent.sumOfExps ts) (sumExp (ts.map Tangent.base))
  | .floor, [_] => zero
  | .ceil, [_] => zero
  | .mulAdd, [a, b, c] => add (a.product b) c.slope
  | _, _ => .const Numeric.nan

/-! ## §2. The derivative of a tree. -/

mutual

/-- The derivative of the tree by `v`. -/
def diff (v : Var) : Expr → Expr
  | .const _ => zero
  | .var u => if u = v then one else zero
  | .node op operands => nodeSlope op (tangents v operands)

/-- The operands, each with its derivative by `v`. -/
def tangents (v : Var) : List Expr → List Tangent
  | [] => []
  | e :: es => ⟨e, diff v e⟩ :: tangents v es

end

@[simp] theorem tangents_eq_map (v : Var) (es : List Expr) :
    tangents v es = es.map fun e => ⟨e, diff v e⟩ := by
  induction es with
  | nil => rfl
  | cons e es ih => rw [tangents, ih, List.map_cons]

@[simp] theorem diff_const (v : Var) (value : Float) :
    diff v (.const value) = zero := rfl

@[simp] theorem diff_var (v u : Var) :
    diff v (.var u) = if u = v then one else zero := rfl

@[simp] theorem diff_node (v : Var) (op : Op) (operands : List Expr) :
    diff v (.node op operands)
      = nodeSlope op (operands.map fun e => ⟨e, diff v e⟩) := by
  rw [diff, tangents_eq_map]

end Expr

end Trivariate
