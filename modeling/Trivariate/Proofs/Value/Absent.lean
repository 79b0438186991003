/-
  Trivariate.Proofs.Value.Absent
  ──────────────────────────────
  **THE DERIVATIVE BY A VARIABLE THAT DOES NOT OCCUR.**

  Nothing is simplified, so this derivative is a large tree, with the operands
  of the tree itself in its products and quotients; and among floats these may
  overflow, or be NaN.  But in every product one factor is a derivative, and so
  is the dividend of every quotient.  Where zeros make such products and
  quotients zero again, or NaN, no other number comes out.

  Main results:

      Ideal.nodeSlope          an ideal that has the operands' derivatives has
                               that of the node
      Ideal.diff               and so the derivative of every such tree
      binary64_ideal           zeros and NaN are an ideal of the floats
      evaluate_diff_of_without the derivative is zero or NaN at every point
-/
import Trivariate.Expr.Eval
import Trivariate.Proofs.Expr.Everywhere
import Trivariate.Proofs.Numeric.Special

namespace Trivariate

open Trivariate.Expr

/-- The variable does not occur in the tree. -/
def Expr.Without (v : Var) : Expr → Prop :=
  Everywhere (.onVars (· ≠ v))

/-! ## §1. Ideals. -/

/-- Numbers that sums, differences and negations do not lead out of, nor products
with any number, nor quotients by any; with zero, and what stands for NaN. -/
structure Arithmetic.Ideal {α : Type} (A : Arithmetic α) (I : Set α) : Prop where
  zero : A.ofFloat 0 ∈ I
  nan : A.ofFloat Numeric.nan ∈ I
  add {a b : α} (ha : a ∈ I) (hb : b ∈ I) : A.add a b ∈ I
  subtract {a b : α} (ha : a ∈ I) (hb : b ∈ I) : A.subtract a b ∈ I
  negate {a : α} (ha : a ∈ I) : A.negate a ∈ I
  multiply_left {a : α} (ha : a ∈ I) (b : α) : A.multiply a b ∈ I
  multiply_right (a : α) {b : α} (hb : b ∈ I) : A.multiply a b ∈ I
  divide {a : α} (ha : a ∈ I) (b : α) : A.divide a b ∈ I

namespace Arithmetic.Ideal

variable {α : Type} {A : Arithmetic α} {I : Set α} {p : Point α} (hI : A.Ideal I)

include hI

theorem nestedSum {term : Tangent → Expr} {ts : List Tangent}
    (h : ∀ t ∈ ts, (term t).valueIn A p ∈ I) :
    (Tangent.nestedSum term ts).valueIn A p ∈ I := by
  induction ts with
  | nil => exact hI.zero
  | cons t ts ih =>
    obtain ⟨ht, hts⟩ := List.forall_mem_cons.1 h
    cases ts with
    | nil => exact ht
    | cons u us => exact hI.add ht (ih hts)

theorem product {s t : Tangent} (hs : s.slope.valueIn A p ∈ I)
    (ht : t.slope.valueIn A p ∈ I) : (s.product t).valueIn A p ∈ I :=
  hI.add (hI.multiply_left hs _) (hI.multiply_right _ ht)

theorem quotient {s t : Tangent} (hs : s.slope.valueIn A p ∈ I)
    (ht : t.slope.valueIn A p ∈ I) : (s.quotient t).valueIn A p ∈ I :=
  hI.divide (hI.subtract (hI.multiply_left hs _) (hI.multiply_right _ ht)) _

theorem sumOfSquares {ts : List Tangent} (h : ∀ t ∈ ts, t.slope.valueIn A p ∈ I) :
    (Tangent.sumOfSquares ts).valueIn A p ∈ I :=
  hI.nestedSum fun t ht => hI.product (h t ht) (h t ht)

theorem sumOfExps {ts : List Tangent} (h : ∀ t ∈ ts, t.slope.valueIn A p ∈ I) :
    (Tangent.sumOfExps ts).valueIn A p ∈ I :=
  hI.nestedSum fun t ht => hI.multiply_right _ (h t ht)

/-- The rules do not lead out of an ideal, whatever the operands are. -/
theorem nodeSlope (op : Op) {ts : List Tangent}
    (h : ∀ t ∈ ts, t.slope.valueIn A p ∈ I) :
    (Expr.nodeSlope op ts).valueIn A p ∈ I := by
  -- the cases are the rows of the table of rules
  fun_cases Expr.nodeSlope op ts with
  | case1 a b => exact hI.add (h a (by simp)) (h b (by simp))
  | case2 a b => exact hI.subtract (h a (by simp)) (h b (by simp))
  | case3 a b => exact hI.product (h a (by simp)) (h b (by simp))
  | case4 a b => exact hI.quotient (h a (by simp)) (h b (by simp))
  | case5 a => exact hI.negate (h a (by simp))
  | case6 w ts => exact hI.sumOfSquares h
  | case7 w ts => exact hI.divide (hI.sumOfSquares h) _
  | case8 ts => exact hI.sumOfExps h
  | case9 ts => exact hI.divide (hI.sumOfExps h) _
  | case10 t => exact hI.zero
  | case11 t => exact hI.zero
  | case12 a b c =>
    exact hI.add (hI.product (h a (by simp)) (h b (by simp))) (h c (by simp))
  | case13 op ts => exact hI.nan

/-- The derivative by a variable that does not occur has its value in every
ideal. -/
theorem diff {e : Expr} {v : Var} (h : e.Without v) (p : Point α) :
    (e.diff v).valueIn A p ∈ I := by
  induction e with
  | const value => exact hI.zero
  | var u =>
    have hne : u ≠ v := everywhere_var.1 h
    rw [diff_var, if_neg hne]
    exact hI.zero
  | node op es ih =>
    rw [diff_node_tangentOf]
    -- nothing is asked of the operands, only of their derivatives
    refine hI.nodeSlope op ?_
    intro t ht
    obtain ⟨d, hd, rfl⟩ := List.mem_map.1 ht
    exact ih d hd ((everywhere_node.1 h).2 d hd)

end Arithmetic.Ideal

/-! ## §2. Floats. -/

/-- Zeros and NaN are an ideal of the floats. -/
theorem binary64_ideal : Arithmetic.binary64.Ideal {x | Numeric.Vanishes x} where
  zero := .inl rfl
  nan := .inr (.inr Numeric.isNaN_nan)
  add := Numeric.vanishes_add
  subtract := Numeric.vanishes_sub
  negate := Numeric.vanishes_neg
  multiply_left := Numeric.vanishes_mul_left
  multiply_right x _ hy := Numeric.vanishes_mul_right x hy
  divide := Numeric.vanishes_div

namespace Expr

/-- The derivative by a variable that does not occur is zero, negative zero or
NaN, whatever the operand counts and at every point. -/
theorem evaluate_diff_of_without {e : Expr} {v : Var} (h : e.Without v)
    (p : Point Float) :
    (e.diff v).evaluate p = 0 ∨ (e.diff v).evaluate p = -0.0
      ∨ ((e.diff v).evaluate p).isNaN = true :=
  binary64_ideal.diff h p

/-- A quotient by an infinity, a logarithm of exponentials and a negation of
nothing, in a multiply-add. -/
theorem evaluate_diff_of_without_mulAdd :
    let e : Expr := .node .mulAdd
      [.divide (.node (.distance .two) [.var .x]) (.const Numeric.infinity),
        .logSumExp [.var .y, .multiply (.var .x) (.var .y)], .node .negate []]
    let p : Point Float := ⟨Numeric.infinity, -0.0, 3⟩
    e.Without .z
      ∧ ((e.diff .z).evaluate p = 0 ∨ (e.diff .z).evaluate p = -0.0
        ∨ ((e.diff .z).evaluate p).isNaN = true) := by
  intro e p
  have h : e.Without .z := by
    simp [e, Without, Demand.onVars]
  exact ⟨h, evaluate_diff_of_without h p⟩

end Expr

end Trivariate
