/-
  Trivariate.Proofs.Calculus.Real
  ───────────────────────────────
  **EXPRESSIONS OVER THE REAL NUMBERS.**

  The exact reading of a tree: every finite constant is the real number that
  its bits stand for, and every operation is that of the reals.  Where the
  reals leave an operation open (a division by zero, the root of zero seen as
  a function to differentiate, the steps of floor and ceiling) the point is
  not regular for the tree.

  Main results:

      toReal_zero, toReal_one, toReal_two   the constants that rules make
      toArithmetic_real                     the reals are a field like others
      regularNode_differentiable            regular points stay regular
-/
import Mathlib
import Trivariate.Proofs.Algebra.Ring
import Trivariate.Proofs.Expr.Everywhere

namespace Trivariate

open Float.Model (UnpackedFloat)

/-! ## §1. The real number of a float. -/

/-- The real number that a finite float stands for; what is not finite stands
for none and gets zero. -/
noncomputable def Numeric.toReal (x : Float) : ℝ :=
  match x.toModel.unpack with
  | .finite sign mantissa exponent _ =>
      (sign.apply mantissa : ℤ) * (2 : ℝ) ^ exponent
  | _ => 0

namespace Numeric

theorem toReal_zero : toReal 0 = 0 := by
  have hu : (0 : Float).toModel.unpack = .zero .positive := rfl
  unfold toReal
  rw [hu]

theorem toReal_one : toReal 1 = 1 := by
  have hu : (1 : Float).toModel.unpack
      = .finite .positive (2 ^ 52) (-52) (by decide) := rfl
  unfold toReal
  rw [hu]
  norm_num [UnpackedFloat.Sign.apply]

theorem toReal_two : toReal 2 = 2 := by
  have hu : (2 : Float).toModel.unpack
      = .finite .positive (2 ^ 52) (-51) (by decide) := rfl
  unfold toReal
  rw [hu]
  norm_num [UnpackedFloat.Sign.apply]

end Numeric

/-! ## §2. The arithmetic. -/

/-- The arithmetic of the real numbers. -/
noncomputable def Arithmetic.real : Arithmetic ℝ where
  ofFloat := Numeric.toReal
  add := (· + ·)
  subtract := (· - ·)
  multiply := (· * ·)
  divide := (· / ·)
  negate := (- ·)
  exp := Real.exp
  ln := Real.log
  sqrt := Real.sqrt
  floor x := ⌊x⌋
  ceil x := ⌈x⌉
  emptySum := 0
  undefined := 0

/-- The field of the real numbers, where the inverse of zero is zero. -/
noncomputable def FieldArithmetic.real : FieldArithmetic ℝ where
  const := Numeric.toReal
  divide := (· / ·)
  exp := Real.exp
  ln := Real.log
  sqrt := Real.sqrt
  floor x := ⌊x⌋
  ceil x := ⌈x⌉
  const_zero := Numeric.toReal_zero
  const_one := Numeric.toReal_one
  const_two := Numeric.toReal_two.trans one_add_one_eq_two.symm
  inverseOfZero := 0
  divide_of_ne_zero a b _ := div_eq_mul_inv a b
  divide_zero a := by rw [div_zero, mul_zero]

/-- Its arithmetic is the one of the reals. -/
theorem FieldArithmetic.toArithmetic_real :
    FieldArithmetic.real.toArithmetic = Arithmetic.real := rfl

/-! ## §3. Regular points. -/

namespace Expr

/-- At this node the real operation is differentiable: a divisor is not zero,
nor the sum of squares under a root, a logarithm has something to sum, and
what is rounded is no integer. -/
def RegularNode (p : Point ℝ) : Op → List Expr → Prop
  | .divide, [_, b] => b.valueIn .real p ≠ 0
  | .distance _, es =>
      Arithmetic.real.sumOfSquares (es.map (valueIn .real p)) ≠ 0
  | .logSumExp, es => es ≠ []
  | .floor, [a] => ∀ n : ℤ, a.valueIn .real p ≠ n
  | .ceil, [a] => ∀ n : ℤ, a.valueIn .real p ≠ n
  | _, _ => True

/-- The point is regular for the tree: every node is regular at it. -/
def RegularAt (p : Point ℝ) : Expr → Prop :=
  Everywhere (.onNodes (RegularNode p))

/-- Every constant is a number. -/
def FiniteConstants : Expr → Prop :=
  Everywhere (.onConstants fun value => value.isFinite = true)

theorem sumOfSquares_pos {p : Point ℝ} {es : List Expr}
    (h : Arithmetic.real.sumOfSquares (es.map (valueIn .real p)) ≠ 0) :
    0 < Arithmetic.real.sumOfSquares (es.map (valueIn .real p)) := by
  refine lt_of_le_of_ne ?_ (Ne.symm h)
  rw [← FieldArithmetic.toArithmetic_real, RingArithmetic.sumOfSquares_eq]
  refine List.sum_nonneg ?_
  intro a ha
  obtain ⟨b, -, rfl⟩ := List.mem_map.1 ha
  exact mul_self_nonneg b

theorem sumOfExps_pos {p : Point ℝ} {es : List Expr} (h : es ≠ []) :
    0 < Arithmetic.real.sumOfExps (es.map (valueIn .real p)) := by
  rw [← FieldArithmetic.toArithmetic_real, RingArithmetic.sumOfExps_eq]
  refine List.sum_pos _ ?_ (by simpa using h)
  intro a ha
  obtain ⟨b, -, rfl⟩ := List.mem_map.1 ha
  exact Real.exp_pos b

/-- The divisors that the rules make are not zero at a regular point. -/
theorem regularNode_differentiable (p : Point ℝ) :
    (Demand.onNodes (RegularNode p)).Differentiable where
  zero := trivial
  one := trivial
  two := trivial
  add _ _ := trivial
  subtract _ _ := trivial
  multiply _ _ := trivial
  negate _ := trivial
  quotient h _ := mul_self_ne_zero.2 h
  distance {w es} h _ := by
    -- twice the distance, the root of a positive number
    show Numeric.toReal 2
      * (Expr.node (.distance w) es).valueIn .real p ≠ 0
    rw [valueIn_node, Numeric.toReal_two]
    exact mul_ne_zero two_ne_zero (Real.sqrt_ne_zero'.2 (sumOfSquares_pos h))
  exponential _ _ := trivial
  sumExp _ := trivial
  logarithm {es} h _ := by
    -- a sum of exponentials, at least one
    show (Expr.node .sumExp es).valueIn .real p ≠ 0
    rw [valueIn_node]
    exact ne_of_gt (sumOfExps_pos h)

theorem finiteConstants_differentiable :
    (Demand.onConstants fun value => value.isFinite = true).Differentiable :=
  Demand.differentiable_of_accepts rfl rfl rfl fun _ _ _ => trivial

end Expr

end Trivariate
