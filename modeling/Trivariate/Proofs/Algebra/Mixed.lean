/-
  Trivariate.Proofs.Algebra.Mixed
  ───────────────────────────────
  **THE ORDER OF TWO DERIVATIVES DOES NOT MATTER.**

  The derivative by `u` and then by `v` is the slope of a slope: it is what a
  tree carries over dual numbers of dual numbers, when `v` moves inside and `u`
  outside.  Exchanging the two slopes keeps every operation, and turns the point
  into the one at which the variables have changed places.  For the root this
  takes that a factor may be moved into a quotient, as it may in a field.

  Main results:

      valueIn_diff_diff   two derivatives are the slope of a slope
      exchange_isHom      exchanging the slopes keeps every operation
      diff_diff_comm      two derivatives may be taken in either order
-/
import Mathlib.Tactic.LinearCombination
import Trivariate.Proofs.Algebra.Dual

namespace Trivariate

open Trivariate.Expr

variable {K : Type}

/-! ## §1. Slopes of slopes. -/

/-- The four parts of a dual number of dual numbers determine it. -/
theorem eq_of_parts {x y : DualNumber (DualNumber K)}
    (h : x.fst.fst = y.fst.fst) (hin : x.fst.snd = y.fst.snd)
    (hout : x.snd.fst = y.snd.fst) (hboth : x.snd.snd = y.snd.snd) : x = y :=
  TrivSqZeroExt.ext (TrivSqZeroExt.ext h hin) (TrivSqZeroExt.ext hout hboth)

/-- The inner slope outside, and the outer one inside. -/
def exchange (x : DualNumber (DualNumber K)) : DualNumber (DualNumber K) :=
  ((x.fst.fst, x.snd.fst), (x.fst.snd, x.snd.snd))

section exchange

variable (x : DualNumber (DualNumber K))

@[simp] theorem fst_fst_exchange : (exchange x).fst.fst = x.fst.fst := rfl

@[simp] theorem snd_fst_exchange : (exchange x).fst.snd = x.snd.fst := rfl

@[simp] theorem fst_snd_exchange : (exchange x).snd.fst = x.fst.snd := rfl

@[simp] theorem snd_snd_exchange : (exchange x).snd.snd = x.snd.snd := rfl

end exchange

variable [CommRing K]

/-- The value of the derivative by `u` and then by `v` is the slope of a
slope. -/
theorem valueIn_diff_diff (R : RingArithmetic K) {e : Expr} (count : e.WellFormed)
    (u v : Var) (p : Point K) :
    ((e.diff u).diff v).valueIn R.toArithmetic p
      = (e.valueIn R.dual.dual.toArithmetic ((p.nudge v).nudge u)).snd.snd := by
  have hout : (e.valueIn R.dual.dual.toArithmetic ((p.nudge v).nudge u)).snd
      = (e.diff u).valueIn R.dual.toArithmetic (p.nudge v) := by
    rw [valueIn_dual R.dual count]
    exact snd_withSlope _ _
  rw [hout, valueIn_dual R (wellFormed_diff u count)]
  exact (snd_withSlope _ _).symm

/-! ## §2. Exchanging the slopes. -/

section operations

variable (R : RingArithmetic K) (x y : DualNumber (DualNumber K))

theorem exchange_mul : exchange (x * y) = exchange x * exchange y := by
  apply eq_of_parts <;> simp
  ring

/-- The slope of a quotient's slope has the two slopes in like places. -/
theorem exchange_divide :
    exchange (R.dual.dual.divide x y)
      = R.dual.dual.divide (exchange x) (exchange y) := by
  apply eq_of_parts <;> simp [RingArithmetic.dual]
  congr 1
  ring

theorem exchange_exp : exchange (R.dual.dual.exp x) = R.dual.dual.exp (exchange x) := by
  apply eq_of_parts <;> simp [RingArithmetic.dual]
  ring

theorem exchange_ln : exchange (R.dual.dual.ln x) = R.dual.dual.ln (exchange x) := by
  apply eq_of_parts <;> simp [RingArithmetic.dual]
  congr 1
  ring

/-- The slope of a root's slope has one of the slopes in a quotient of its own,
and the other one beside it. -/
theorem exchange_sqrt (hdivide : ∀ a b c, a * R.divide b c = b * R.divide a c) :
    exchange (R.dual.dual.sqrt x) = R.dual.dual.sqrt (exchange x) := by
  apply eq_of_parts <;> simp [RingArithmetic.dual]
  -- the two quotients differ in their numerators only
  congr 1
  linear_combination (1 + 1) * hdivide x.fst.snd x.snd.fst ((1 + 1) * R.sqrt x.fst.fst)

end operations

/-- Exchanging the slopes keeps every operation. -/
theorem exchange_isHom (R : RingArithmetic K)
    (hdivide : ∀ a b c, a * R.divide b c = b * R.divide a c) :
    Arithmetic.IsHom R.dual.dual.toArithmetic R.dual.dual.toArithmetic exchange where
  ofFloat _ := by
    apply eq_of_parts <;> simp [RingArithmetic.toArithmetic, RingArithmetic.dual]
  add _ _ := by apply eq_of_parts <;> simp [RingArithmetic.toArithmetic]
  subtract _ _ := by apply eq_of_parts <;> simp [RingArithmetic.toArithmetic]
  multiply := exchange_mul
  divide := exchange_divide R
  negate _ := by
    apply eq_of_parts <;> simp [RingArithmetic.toArithmetic, RingArithmetic.dual]
  exp := exchange_exp R
  ln := exchange_ln R
  sqrt x := exchange_sqrt R x hdivide
  floor _ := by
    apply eq_of_parts <;> simp [RingArithmetic.toArithmetic, RingArithmetic.dual]
  ceil _ := by
    apply eq_of_parts <;> simp [RingArithmetic.toArithmetic, RingArithmetic.dual]
  emptySum := by apply eq_of_parts <;> simp [RingArithmetic.toArithmetic]
  undefined := by apply eq_of_parts <;> simp [RingArithmetic.toArithmetic]

/-- With the slopes exchanged, the variables have changed places. -/
theorem map_exchange_nudge (p : Point K) (u v : Var) :
    ((p.nudge v).nudge u).map exchange = (p.nudge u).nudge v := by
  refine Point.ext_get fun w => ?_
  rw [Point.get_map]
  simp only [Point.get_nudge]
  split_ifs <;> apply eq_of_parts <;> simp

/-! ## §3. Mixed derivatives. -/

/-- **Two derivatives may be taken in either order.**  Over any field, with any
inverse of zero and any functions for the operations that a field does not have,
the two trees have the same value at every point. -/
theorem diff_diff_comm {K : Type} [Field K] (F : FieldArithmetic K) {e : Expr}
    (count : e.WellFormed) (u v : Var) (p : Point K) :
    ((e.diff u).diff v).valueIn F.toArithmetic p
      = ((e.diff v).diff u).valueIn F.toArithmetic p := by
  have hexchange := exchange_isHom F.toRingArithmetic F.mul_divide_comm
  have hvalue : exchange (e.valueIn F.dual.dual.toArithmetic ((p.nudge v).nudge u))
      = e.valueIn F.dual.dual.toArithmetic ((p.nudge u).nudge v) := by
    rw [hexchange.valueIn_map, map_exchange_nudge]
  rw [valueIn_diff_diff F.toRingArithmetic count,
    valueIn_diff_diff F.toRingArithmetic count, ← hvalue, snd_snd_exchange]

/-- By `x` and `y` where a quotient by `y` is one by zero; the inverse of zero is
seven. -/
theorem diff_diff_comm_singular :
    let e := multiply (.node (.distance .two) [.var .x, .var .z])
      (divide (.var .z) (.var .y))
    let F := FieldArithmetic.rational 7
    let p : Point ℚ := ⟨3, 0, 4⟩
    e.WellFormed
      ∧ ((e.diff .x).diff .y).valueIn F.toArithmetic p
          = ((e.diff .y).diff .x).valueIn F.toArithmetic p
      ∧ ((e.diff .x).diff .y).valueIn F.toArithmetic p = -84 / 5 := by
  intro e F p
  have count : e.WellFormed := by
    simp [e, wellFormed_node, Op.arity, Arity.accepts, Width.toNat, WellFormed.var]
  exact ⟨count, diff_diff_comm F count .x .y p, by decide +kernel⟩

end Trivariate
