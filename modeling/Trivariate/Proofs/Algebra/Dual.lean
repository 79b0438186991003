/-
  Trivariate.Proofs.Algebra.Dual
  ──────────────────────────────
  **DIFFERENTIATION IN ONE PASS.**

  A dual number is a number with a slope, `a + a' ε` with `ε * ε = 0`.  Sums and
  products of them carry the slopes along by the rules of differentiation, and
  with one more rule for each other operation so does every tree: when the
  coordinate of a variable has slope one and the other coordinates slope zero,
  the slope of the value is the value of the derivative.  Nothing is asked of
  the point, for both sides take the same quotients, by zero or not.

  Main results:

      apply_sloped        each rule of the table is that of the dual numbers
      valueIn_dual        the value of a tree over dual numbers
      snd_valueIn_nudge   its slope is the value of the derivative
-/
import Mathlib.Algebra.DualNumber
import Trivariate.Proofs.Algebra.Ring

namespace Trivariate

open Trivariate.Expr
open TrivSqZeroExt (inl inr)

variable {K : Type} [CommRing K]

/-! ## §1. Numbers with a slope. -/

/-- The number with this slope. -/
def withSlope (a slope : K) : DualNumber K := inl a + inr slope

section withSlope

variable (a b a' b' : K)

@[simp] theorem fst_withSlope : (withSlope a a').fst = a := by
  simp [withSlope]

@[simp] theorem snd_withSlope : (withSlope a a').snd = a' := by
  simp [withSlope]

theorem withSlope_add :
    withSlope a a' + withSlope b b' = withSlope (a + b) (a' + b') := by
  ext <;> simp

theorem withSlope_sub :
    withSlope a a' - withSlope b b' = withSlope (a - b) (a' - b') := by
  ext <;> simp

theorem withSlope_neg : -withSlope a a' = withSlope (-a) (-a') := by
  ext <;> simp

theorem withSlope_mul :
    withSlope a a' * withSlope b b' = withSlope (a * b) (a' * b + a * b') := by
  ext
  · simp
  · simp only [DualNumber.snd_mul, fst_withSlope, snd_withSlope]
    ring

theorem withSlope_sum {α : Type} (f f' : α → K) (xs : List α) :
    (xs.map fun x => withSlope (f x) (f' x)).sum
      = withSlope (xs.map f).sum (xs.map f').sum := by
  induction xs with
  | nil => ext <;> simp
  | cons x xs ih => rw [List.map_cons, List.sum_cons, ih, withSlope_add]; rfl

end withSlope

/-! ## §2. The arithmetic of dual numbers. -/

/-- The operations that a ring does not have, with the slopes that the rules of
differentiation give them. -/
def RingArithmetic.dual (R : RingArithmetic K) : RingArithmetic (DualNumber K) where
  const value := inl (R.const value)
  divide x y :=
    withSlope (R.divide x.fst y.fst)
      (R.divide (x.snd * y.fst - x.fst * y.snd) (y.fst * y.fst))
  exp x := withSlope (R.exp x.fst) (x.snd * R.exp x.fst)
  ln x := withSlope (R.ln x.fst) (R.divide x.snd x.fst)
  sqrt x := withSlope (R.sqrt x.fst) (R.divide x.snd ((1 + 1) * R.sqrt x.fst))
  floor x := withSlope (R.floor x.fst) 0
  ceil x := withSlope (R.ceil x.fst) 0
  const_zero := by rw [R.const_zero]; exact TrivSqZeroExt.inl_zero K
  const_one := by rw [R.const_one]; exact TrivSqZeroExt.inl_one K
  const_two := by
    rw [R.const_two, TrivSqZeroExt.inl_add]
    rfl

/-- The point with the coordinate of `v` increased by `ε`. -/
def Point.nudge (p : Point K) (v : Var) : Point (DualNumber K) :=
  .ofFun fun u => if u = v then inl (p.get u) + DualNumber.eps else inl (p.get u)

/-- That coordinate has slope one, the others zero. -/
theorem Point.get_nudge (p : Point K) (u v : Var) :
    (p.nudge v).get u = withSlope (p.get u) (if u = v then 1 else 0) := by
  unfold nudge
  rw [get_ofFun]
  by_cases h : u = v
  · rw [if_pos h, if_pos h]
    rfl
  · rw [if_neg h, if_neg h]
    ext <;> simp

/-! ## §3. The rules. -/

section rules

variable (R : RingArithmetic K) (p : Point K)

/-- The value of a tangent: that of its base, with that of its slope. -/
def Tangent.sloped (t : Tangent) : DualNumber K :=
  withSlope (t.base.valueIn R.toArithmetic p) (t.slope.valueIn R.toArithmetic p)

/-- The values of the bases. -/
def baseValues (ts : List Tangent) : List K :=
  ts.map fun t => t.base.valueIn R.toArithmetic p

theorem sumOfSquares_sloped (ts : List Tangent) :
    R.dual.toArithmetic.sumOfSquares (ts.map (Tangent.sloped R p))
      = withSlope (R.toArithmetic.sumOfSquares (baseValues R p ts))
          ((Tangent.sumOfSquares ts).valueIn R.toArithmetic p) := by
  have hsquare : ∀ t : Tangent, t.sloped R p * t.sloped R p
      = withSlope (t.base.valueIn R.toArithmetic p * t.base.valueIn R.toArithmetic p)
          ((t.product t).valueIn R.toArithmetic p) :=
    fun t => withSlope_mul _ _ _ _
  unfold Tangent.sumOfSquares baseValues
  rw [RingArithmetic.sumOfSquares_eq, RingArithmetic.sumOfSquares_eq,
    RingArithmetic.value_nestedSum, List.map_map, List.map_map, ← withSlope_sum]
  exact congrArg List.sum (List.map_congr_left fun t _ => hsquare t)

theorem sumOfExps_sloped (ts : List Tangent) :
    R.dual.toArithmetic.sumOfExps (ts.map (Tangent.sloped R p))
      = withSlope (R.toArithmetic.sumOfExps (baseValues R p ts))
          ((Tangent.sumOfExps ts).valueIn R.toArithmetic p) := by
  have hexp : ∀ t : Tangent, R.dual.exp (t.sloped R p)
      = withSlope (R.exp (t.base.valueIn R.toArithmetic p))
          (t.exponential.valueIn R.toArithmetic p) := by
    intro t
    -- the rule writes the exponential as a sum of one
    have hvalue : t.exponential.valueIn R.toArithmetic p
        = (0 + R.exp (t.base.valueIn R.toArithmetic p))
          * t.slope.valueIn R.toArithmetic p := rfl
    rw [hvalue, zero_add, mul_comm]
    simp [RingArithmetic.dual, Tangent.sloped]
  unfold Tangent.sumOfExps baseValues
  rw [RingArithmetic.sumOfExps_eq, RingArithmetic.sumOfExps_eq,
    RingArithmetic.value_nestedSum, List.map_map, List.map_map, ← withSlope_sum]
  exact congrArg List.sum (List.map_congr_left fun t _ => hexp t)

/-- **Each rule of the table is that of the dual numbers.** -/
theorem apply_sloped {op : Op} {ts : List Tangent} (shape : op.Shape ts) :
    op.apply R.dual.toArithmetic (ts.map (Tangent.sloped R p))
      = withSlope (op.apply R.toArithmetic (baseValues R p ts))
          ((nodeSlope op ts).valueIn R.toArithmetic p) := by
  cases shape with
  | add a b => exact withSlope_add _ _ _ _
  | subtract a b => exact withSlope_sub _ _ _ _
  | multiply a b => exact withSlope_mul _ _ _ _
  | negate a => exact withSlope_neg _ _
  | divide a b =>
    show R.dual.divide (a.sloped R p) (b.sloped R p) = withSlope (R.divide _ _) _
    simp only [RingArithmetic.dual, Tangent.sloped, fst_withSlope, snd_withSlope]
    rfl
  | sumSquares w ts => exact sumOfSquares_sloped R p ts
  | distance w ts =>
    -- the rule of the root divides by twice the root itself
    have htwo : ((multiply two (.node (.distance w) (ts.map Tangent.base))).valueIn
        R.toArithmetic p)
        = (1 + 1) * R.sqrt (R.toArithmetic.sumOfSquares (baseValues R p ts)) := by
      show R.const 2 * (Expr.node (.distance w) _).valueIn _ p = _
      rw [R.const_two, valueIn_node, List.map_map]
      rfl
    show R.dual.sqrt (R.dual.toArithmetic.sumOfSquares _)
      = withSlope (R.sqrt _) (R.divide _ ((multiply two _).valueIn _ p))
    rw [sumOfSquares_sloped, htwo]
    simp only [RingArithmetic.dual, fst_withSlope, snd_withSlope]
    rfl
  | sumExp ts => exact sumOfExps_sloped R p ts
  | logSumExp ts =>
    have hsum : (sumExp (ts.map Tangent.base)).valueIn R.toArithmetic p
        = R.toArithmetic.sumOfExps (baseValues R p ts) := by
      rw [valueIn_node, List.map_map]
      rfl
    show R.dual.ln (R.dual.toArithmetic.sumOfExps _)
      = withSlope (R.ln _) (R.divide _ ((sumExp _).valueIn _ p))
    rw [sumOfExps_sloped, hsum]
    simp only [RingArithmetic.dual, fst_withSlope, snd_withSlope]
    rfl
  | floor a =>
    show R.dual.floor (a.sloped R p) = withSlope (R.floor _) (R.const 0)
    rw [R.const_zero]
    simp only [RingArithmetic.dual, Tangent.sloped, fst_withSlope]
  | ceil a =>
    show R.dual.ceil (a.sloped R p) = withSlope (R.ceil _) (R.const 0)
    rw [R.const_zero]
    simp only [RingArithmetic.dual, Tangent.sloped, fst_withSlope]
  | mulAdd a b c =>
    show a.sloped R p * b.sloped R p + c.sloped R p = _
    unfold Tangent.sloped
    rw [withSlope_mul, withSlope_add]
    rfl

end rules

/-! ## §4. Trees. -/

/-- Over dual numbers, at the point with the coordinate of `v` increased by
`ε`, a tree has its value, with the value of its derivative by `v` as slope. -/
theorem valueIn_dual (R : RingArithmetic K) {e : Expr} (count : e.WellFormed)
    (v : Var) (p : Point K) :
    e.valueIn R.dual.toArithmetic (p.nudge v) = (tangentOf v e).sloped R p := by
  induction e with
  | const value =>
    show inl (R.const value) = withSlope (R.const value) (R.const 0)
    rw [R.const_zero]
    ext <;> simp
  | var u =>
    have hslope : ((Expr.var u).diff v).valueIn R.toArithmetic p
        = if u = v then 1 else 0 := by
      rw [diff_var]
      by_cases h : u = v
      · rw [if_pos h, if_pos h]
        exact R.const_one
      · rw [if_neg h, if_neg h]
        exact R.const_zero
    rw [valueIn_var, Point.get_nudge, ← hslope]
    rfl
  | node op operands ih =>
    obtain ⟨hcount, hwell⟩ := wellFormed_node.1 count
    have hoperands : operands.map (valueIn R.dual.toArithmetic (p.nudge v))
        = (operands.map (tangentOf v)).map (Tangent.sloped R p) := by
      rw [List.map_map]
      exact List.map_congr_left fun e he => ih e he (hwell e he)
    have hshape : op.Shape (operands.map (tangentOf v)) :=
      Op.shape_of_accepts (by rwa [List.length_map])
    have hvalue : (Expr.node op operands).valueIn R.toArithmetic p
        = op.apply R.toArithmetic (baseValues R p (operands.map (tangentOf v))) := by
      unfold baseValues
      rw [valueIn_node, List.map_map]
      rfl
    rw [valueIn_node, hoperands, apply_sloped R p hshape, ← hvalue,
      ← diff_node_tangentOf]
    rfl

/-- **One pass over dual numbers gives the derivative.**  Over any field, with
any inverse of zero and any functions for the operations that a field does not
have, the slope of the value is the value of the derivative, at every point. -/
theorem snd_valueIn_nudge {K : Type} [Field K] (F : FieldArithmetic K) {e : Expr}
    (count : e.WellFormed) (v : Var) (p : Point K) :
    (e.valueIn F.dual.toArithmetic (p.nudge v)).snd
      = (e.diff v).valueIn F.toArithmetic p := by
  rw [valueIn_dual F.toRingArithmetic count]
  exact snd_withSlope _ _

/-- By `y`, where a quotient by `y` is one by zero; the inverse of zero is
seven. -/
theorem snd_valueIn_nudge_singular :
    let e := multiply (.node .logSumExp [.var .x, .var .y]) (divide (.var .z) (.var .y))
    let F := FieldArithmetic.rational 7
    let p : Point ℚ := ⟨3, 0, 4⟩
    e.WellFormed
      ∧ (e.valueIn F.dual.toArithmetic (p.nudge .y)).snd
          = (e.diff .y).valueIn F.toArithmetic p
      ∧ (e.diff .y).valueIn F.toArithmetic p = -532 / 5 := by
  intro e F p
  have count : e.WellFormed := by
    simp [e, wellFormed_node, Op.arity, Arity.accepts, WellFormed.var]
  exact ⟨count, snd_valueIn_nudge F count .y p, by decide +kernel⟩

end Trivariate
