/-
  Trivariate.Proofs.Expr.Rewriting
  ────────────────────────────────
  **REWRITINGS AND THE RULES OF DIFFERENTIATION.**

  A rewriting of trees may change constants, or put one operation in the place of
  others.  Around the operands of a node and their derivatives the rules put nodes
  of a few operations and the constants 0, 2 and NaN.  A rewriting that leaves
  these in place, and goes on below them, can be exchanged with the rules: it does
  not matter whether the operands are rewritten or what is made of them.

  Main results:

      KeepsRules.nodeSlope   rewriting the operands of a rule, or what it makes
      KeepsRules.diff_node   the derivative of a node with rewritten operands
-/
import Trivariate.Proofs.Expr.Rules

namespace Trivariate

open Trivariate.Expr

/-! ## §1. Rewritings. -/

/-- An operand and its derivative, both rewritten. -/
def Tangent.map (g : Expr → Expr) (t : Tangent) : Tangent :=
  ⟨g t.base, g t.slope⟩

/-- The rewriting leaves in place what the rules make, and goes on below it. -/
structure Expr.KeepsRules (g : Expr → Expr) : Prop where
  zero : g zero = zero
  two : g two = two
  nan : g (.const Numeric.nan) = .const Numeric.nan
  add (a b : Expr) : g (add a b) = add (g a) (g b)
  subtract (a b : Expr) : g (subtract a b) = subtract (g a) (g b)
  multiply (a b : Expr) : g (multiply a b) = multiply (g a) (g b)
  divide (a b : Expr) : g (divide a b) = divide (g a) (g b)
  negate (a : Expr) : g (negate a) = negate (g a)
  distance (w : Width) (es : List Expr) :
    g (.node (.distance w) es) = .node (.distance w) (es.map g)
  sumExp (es : List Expr) : g (sumExp es) = sumExp (es.map g)

namespace Expr.KeepsRules

variable {g : Expr → Expr} (hg : KeepsRules g)

include hg

/-! ## §2. Rules. -/

theorem product (s t : Tangent) :
    g (s.product t) = (s.map g).product (t.map g) := by
  unfold Tangent.product
  rw [hg.add, hg.multiply, hg.multiply]
  rfl

theorem quotient (s t : Tangent) :
    g (s.quotient t) = (s.map g).quotient (t.map g) := by
  unfold Tangent.quotient
  rw [hg.divide, hg.subtract, hg.multiply, hg.multiply, hg.multiply]
  rfl

theorem exponential (t : Tangent) : g t.exponential = (t.map g).exponential := by
  unfold Tangent.exponential
  rw [hg.multiply, hg.sumExp]
  rfl

theorem nestedSum {term : Tangent → Expr} (h : ∀ t, g (term t) = term (t.map g))
    (ts : List Tangent) :
    g (Tangent.nestedSum term ts) = Tangent.nestedSum term (ts.map (Tangent.map g)) := by
  induction ts with
  | nil => exact hg.zero
  | cons t ts ih =>
    cases ts with
    | nil => exact h t
    | cons u us =>
      show g (Expr.add (term t) (Tangent.nestedSum term (u :: us))) = _
      rw [hg.add, ih, h]
      rfl

theorem sumOfSquares (ts : List Tangent) :
    g (Tangent.sumOfSquares ts) = Tangent.sumOfSquares (ts.map (Tangent.map g)) :=
  hg.nestedSum (fun t => hg.product t t) ts

theorem sumOfExps (ts : List Tangent) :
    g (Tangent.sumOfExps ts) = Tangent.sumOfExps (ts.map (Tangent.map g)) :=
  hg.nestedSum hg.exponential ts

omit hg in
theorem map_base (ts : List Tangent) :
    (ts.map Tangent.base).map g = (ts.map (Tangent.map g)).map Tangent.base := by
  rw [List.map_map, List.map_map]
  rfl

/-- It is the same to rewrite the operands of a rule with their derivatives, or
what the rule makes of them. -/
theorem nodeSlope (op : Op) (ts : List Tangent) :
    g (Expr.nodeSlope op ts) = Expr.nodeSlope op (ts.map (Tangent.map g)) := by
  -- the cases are the rows of the table of rules
  fun_cases Expr.nodeSlope op ts with
  | case1 a b => exact hg.add ..
  | case2 a b => exact hg.subtract ..
  | case3 a b => exact hg.product a b
  | case4 a b => exact hg.quotient a b
  | case5 a => exact hg.negate ..
  | case6 w ts => exact hg.sumOfSquares ts
  | case7 w ts =>
    rw [hg.divide, hg.sumOfSquares, hg.multiply, hg.two, hg.distance, map_base]
    rfl
  | case8 ts => exact hg.sumOfExps ts
  | case9 ts =>
    rw [hg.divide, hg.sumOfExps, hg.sumExp, map_base]
    rfl
  | case10 t => exact hg.zero
  | case11 t => exact hg.zero
  | case12 a b c =>
    rw [hg.add, hg.product]
    rfl
  | case13 op ts hrows =>
    -- no row applies, and none will for the rewritten operands, which are as many
    have hnone : Expr.nodeSlope op ts = .const Numeric.nan := by
      unfold Expr.nodeSlope
      split <;> simp_all
    rw [nodeSlope_eq_nan] at hnone
    rw [hg.nan]
    exact (nodeSlope_eq_nan.2 (by rwa [List.length_map])).symm

/-! ## §3. Nodes. -/

omit hg in
/-- Rewritten trees and their derivatives, when the derivative of each of them is
its rewritten derivative. -/
theorem map_tangentOf {v : Var} {es : List Expr}
    (h : ∀ e ∈ es, (g e).diff v = g (e.diff v)) :
    (es.map g).map (tangentOf v) = (es.map (tangentOf v)).map (Tangent.map g) := by
  rw [List.map_map, List.map_map]
  refine List.map_congr_left ?_
  intro e he
  show Tangent.mk (g e) ((g e).diff v) = ⟨g e, g (e.diff v)⟩
  rw [h e he]

/-- The derivative of a node with rewritten operands is the rewritten derivative
of the node, when it is so for the operands. -/
theorem diff_node {v : Var} (op : Op) {es : List Expr}
    (h : ∀ e ∈ es, (g e).diff v = g (e.diff v)) :
    (node op (es.map g)).diff v = g ((node op es).diff v) := by
  calc (node op (es.map g)).diff v
      = Expr.nodeSlope op ((es.map g).map (tangentOf v)) := diff_node_tangentOf ..
    _ = Expr.nodeSlope op ((es.map (tangentOf v)).map (Tangent.map g)) := by
        rw [map_tangentOf h]
    _ = g (Expr.nodeSlope op (es.map (tangentOf v))) := (hg.nodeSlope op _).symm
    _ = g ((node op es).diff v) := by rw [diff_node_tangentOf]

end Expr.KeepsRules

end Trivariate
