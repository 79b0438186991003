/-
  Trivariate.Proofs.Calculus.Derivative
  ─────────────────────────────────────
  **DIFFERENTIATION OF TREES IS DIFFERENTIATION.**

  At a point that is regular for a tree, the value of the tree as a function
  of one coordinate has a derivative, and the tree's derivative has it as its
  value.  A tangent is true when its slope has the derivative of its base as
  value; each rule makes true slopes from true tangents, and the tree follows
  by induction.

  Main results:

      HasSlope.node           every rule of the table is true
      hasDerivAt_diff         the derivative of a tree, with what is needed to
                              differentiate again
-/
import Trivariate.Proofs.Calculus.Real

namespace Trivariate

open Trivariate.Expr
open Topology

/-! ## §1. One coordinate. -/

namespace Point

variable {α : Type}

/-- The point with one coordinate replaced. -/
def set (p : Point α) : Var → α → Point α
  | .x, a => { p with x := a }
  | .y, a => { p with y := a }
  | .z, a => { p with z := a }

theorem set_get (p : Point α) (v : Var) : p.set v (p.get v) = p := by
  cases v <;> rfl

theorem get_set (p : Point α) (u v : Var) (a : α) :
    (p.set v a).get u = if u = v then a else p.get u := by
  cases u <;> cases v <;> rfl

end Point

/-! ## §2. True tangents. -/

/-- The value of a tree along the line through `p` on which `v` varies. -/
noncomputable def Expr.along (e : Expr) (p : Point ℝ) (v : Var) (t : ℝ) : ℝ :=
  e.valueIn .real (p.set v t)

theorem Expr.along_get (e : Expr) (p : Point ℝ) (v : Var) :
    e.along p v (p.get v) = e.valueIn .real p := by
  unfold along
  rw [Point.set_get]

/-- The slope has the derivative of the base as its value. -/
def HasSlope (p : Point ℝ) (v : Var) (t : Tangent) : Prop :=
  HasDerivAt (t.base.along p v) (t.slope.valueIn .real p) (p.get v)

section rules

variable {p : Point ℝ} {v : Var}

/-- The line's values of an operation are those of its operands, combined. -/
theorem along_node (op : Op) (ts : List Tangent) (t : ℝ) :
    (Expr.node op (ts.map Tangent.base)).along p v t
      = op.apply .real (ts.map fun u => u.base.along p v t) := by
  unfold Expr.along
  rw [valueIn_node, List.map_map]
  rfl

theorem HasSlope.product {a b : Tangent} (ha : HasSlope p v a)
    (hb : HasSlope p v b) :
    HasDerivAt (fun t => a.base.along p v t * b.base.along p v t)
      ((a.product b).valueIn .real p) (p.get v) := by
  have h := HasDerivAt.mul ha hb
  rw [Expr.along_get, Expr.along_get] at h
  exact h

theorem HasSlope.quotient {a b : Tangent} (ha : HasSlope p v a)
    (hb : HasSlope p v b) (hne : b.base.valueIn .real p ≠ 0) :
    HasDerivAt (fun t => a.base.along p v t / b.base.along p v t)
      ((a.quotient b).valueIn .real p) (p.get v) := by
  have h := HasDerivAt.div ha hb (by rwa [Expr.along_get])
  rw [Expr.along_get, Expr.along_get] at h
  refine h.congr_deriv ?_
  rw [sq]
  rfl

theorem HasSlope.exponential {a : Tangent} (ha : HasSlope p v a) :
    HasDerivAt (fun t => Real.exp (a.base.along p v t))
      (a.exponential.valueIn .real p) (p.get v) := by
  have h := HasDerivAt.exp ha
  rw [Expr.along_get] at h
  refine h.congr_deriv ?_
  show _ = (0 + Real.exp (a.base.valueIn .real p)) * a.slope.valueIn .real p
  rw [zero_add]

/-- A sum is differentiated term by term. -/
theorem hasDerivAt_sum {f : Tangent → ℝ → ℝ} {f' : Tangent → ℝ} {x : ℝ}
    {ts : List Tangent} (h : ∀ t ∈ ts, HasDerivAt (f t) (f' t) x) :
    HasDerivAt (fun y => (ts.map fun t => f t y).sum) (ts.map f').sum x := by
  induction ts with
  | nil => exact hasDerivAt_const x 0
  | cons t ts ih =>
    obtain ⟨hhead, htail⟩ := List.forall_mem_cons.1 h
    exact hhead.add (ih htail)

theorem hasDerivAt_sumOfSquares {ts : List Tangent}
    (h : ∀ t ∈ ts, HasSlope p v t) :
    HasDerivAt
      (fun x => Arithmetic.real.sumOfSquares (ts.map fun t => t.base.along p v x))
      ((Tangent.sumOfSquares ts).valueIn .real p) (p.get v) := by
  unfold Tangent.sumOfSquares
  rw [← FieldArithmetic.toArithmetic_real, RingArithmetic.value_nestedSum]
  simp only [RingArithmetic.sumOfSquares_eq, List.map_map]
  exact hasDerivAt_sum fun t ht => (h t ht).product (h t ht)

theorem hasDerivAt_sumOfExps {ts : List Tangent}
    (h : ∀ t ∈ ts, HasSlope p v t) :
    HasDerivAt
      (fun x => Arithmetic.real.sumOfExps (ts.map fun t => t.base.along p v x))
      ((Tangent.sumOfExps ts).valueIn .real p) (p.get v) := by
  unfold Tangent.sumOfExps
  rw [← FieldArithmetic.toArithmetic_real, RingArithmetic.value_nestedSum]
  simp only [RingArithmetic.sumOfExps_eq, List.map_map]
  exact hasDerivAt_sum fun t ht => (h t ht).exponential

/-- Away from the integers the floor is constant around a point. -/
theorem hasDerivAt_floor {f : ℝ → ℝ} {f' x : ℝ} (hf : HasDerivAt f f' x)
    (hne : ∀ n : ℤ, f x ≠ n) : HasDerivAt (fun t => (⌊f t⌋ : ℝ)) 0 x := by
  -- a neighbourhood of the value has no integer in it
  have hstep : Set.Ioo (⌊f x⌋ : ℝ) (⌊f x⌋ + 1) ∈ 𝓝 (f x) :=
    Ioo_mem_nhds (lt_of_le_of_ne (Int.floor_le _) (hne _).symm)
      (Int.lt_floor_add_one _)
  have hconst : (fun t => (⌊f t⌋ : ℝ)) =ᶠ[𝓝 x] fun _ => (⌊f x⌋ : ℝ) := by
    filter_upwards [hf.continuousAt hstep] with t ht
    rw [Int.floor_eq_iff.2 ⟨ht.1.le, ht.2⟩]
  exact (hasDerivAt_const x _).congr_of_eventuallyEq hconst

theorem hasDerivAt_ceil {f : ℝ → ℝ} {f' x : ℝ} (hf : HasDerivAt f f' x)
    (hne : ∀ n : ℤ, f x ≠ n) : HasDerivAt (fun t => (⌈f t⌉ : ℝ)) 0 x := by
  have hneg : ∀ n : ℤ, -f x ≠ n := by
    intro n hn
    exact hne (-n) (by rw [Int.cast_neg, ← hn, neg_neg])
  -- the ceiling of a number is minus the floor of its negation
  have h := (hasDerivAt_floor hf.neg hneg).neg
  rw [neg_zero] at h
  refine h.congr_of_eventuallyEq (Filter.Eventually.of_forall ?_)
  intro t
  show (⌈f t⌉ : ℝ) = -(⌊-f t⌋ : ℝ)
  rw [Int.floor_neg, Int.cast_neg, neg_neg]

/-- **Every rule is true**: at a regular node it makes a true slope from true
tangents. -/
theorem HasSlope.node {op : Op} {ts : List Tangent} (shape : op.Shape ts)
    (regular : RegularNode p op (ts.map Tangent.base))
    (each : ∀ t ∈ ts, HasSlope p v t) :
    HasSlope p v ⟨.node op (ts.map Tangent.base), nodeSlope op ts⟩ := by
  have hline : (Expr.node op (ts.map Tangent.base)).along p v
      = fun t => op.apply .real (ts.map fun u => u.base.along p v t) :=
    funext (along_node op ts)
  unfold HasSlope
  simp only [hline]
  -- at the point itself the operands on the line have their values
  have hbases : (ts.map Tangent.base).map (valueIn .real p)
      = ts.map fun u => u.base.along p v (p.get v) := by
    rw [List.map_map]
    exact List.map_congr_left fun u _ => (u.base.along_get p v).symm
  cases shape with
  | add a b => exact HasDerivAt.add (each a (by simp)) (each b (by simp))
  | subtract a b => exact HasDerivAt.sub (each a (by simp)) (each b (by simp))
  | multiply a b => exact (each a (by simp)).product (each b (by simp))
  | divide a b => exact (each a (by simp)).quotient (each b (by simp)) regular
  | negate a => exact HasDerivAt.neg (each a (by simp))
  | sumSquares w ts => exact hasDerivAt_sumOfSquares each
  | distance w ts =>
    have hsum := hasDerivAt_sumOfSquares each
    have hne : Arithmetic.real.sumOfSquares
        ((ts.map Tangent.base).map (valueIn .real p)) ≠ 0 := regular
    rw [hbases] at hne
    -- the rule of the root divides by twice the root itself
    refine (hsum.sqrt hne).congr_deriv ?_
    show _ = _ / (Numeric.toReal 2
      * (Expr.node (.distance w) (ts.map Tangent.base)).valueIn .real p)
    rw [Numeric.toReal_two, valueIn_node, hbases]
    rfl
  | sumExp ts => exact hasDerivAt_sumOfExps each
  | logSumExp ts =>
    have hsum := hasDerivAt_sumOfExps each
    have hne := ne_of_gt (sumOfExps_pos (p := p) regular)
    rw [hbases] at hne
    refine (hsum.log hne).congr_deriv ?_
    show _ = _ / (Expr.node .sumExp (ts.map Tangent.base)).valueIn .real p
    rw [valueIn_node, hbases]
    rfl
  | floor a =>
    refine (hasDerivAt_floor (each a (by simp)) ?_).congr_deriv ?_
    · rw [Expr.along_get]
      exact regular
    · exact Numeric.toReal_zero.symm
  | ceil a =>
    refine (hasDerivAt_ceil (each a (by simp)) ?_).congr_deriv ?_
    · rw [Expr.along_get]
      exact regular
    · exact Numeric.toReal_zero.symm
  | mulAdd a b c =>
    have hab := (each a (by simp)).product (each b (by simp))
    exact HasDerivAt.add hab (each c (by simp))

end rules

/-! ## §3. The derivative of a tree. -/

theorem hasSlope_diff {e : Expr} {p : Point ℝ} (v : Var) (count : e.WellFormed)
    (regular : e.RegularAt p) : HasSlope p v ⟨e, e.diff v⟩ := by
  induction e with
  | const value =>
    refine (hasDerivAt_const (p.get v) (Numeric.toReal value)).congr_deriv ?_
    exact Numeric.toReal_zero.symm
  | var u =>
    have hline : (Expr.var u).along p v = fun t => if u = v then t else p.get u :=
      funext fun t => Point.get_set p u v t
    unfold HasSlope
    simp only [hline, diff_var]
    by_cases h : u = v
    · simp only [if_pos h]
      exact (hasDerivAt_id _).congr_deriv Numeric.toReal_one.symm
    · simp only [if_neg h]
      exact (hasDerivAt_const _ _).congr_deriv Numeric.toReal_zero.symm
  | node op operands ih =>
    obtain ⟨hcount, hwell⟩ := wellFormed_node.1 count
    obtain ⟨hhere, hbelow⟩ := everywhere_node.1 regular
    -- each operand with its derivative is a true tangent by induction
    have hshape : op.Shape (operands.map (tangentOf v)) :=
      Op.shape_of_accepts (by rwa [List.length_map])
    have hnode : HasSlope p v
        ⟨.node op ((operands.map (tangentOf v)).map Tangent.base),
          nodeSlope op (operands.map (tangentOf v))⟩ := by
      refine HasSlope.node hshape (by rwa [map_base_tangentOf]) ?_
      intro t ht
      obtain ⟨e, he, rfl⟩ := List.mem_map.1 ht
      exact ih e he (hwell e he) (hbelow e he)
    rwa [map_base_tangentOf, ← diff_node_tangentOf] at hnode

/-- **The derivative of a tree is its derivative**: at a regular point of a
well-formed tree with finite constants, the value as a function of `v` has the
value of `e.diff v` as its derivative.  The point is regular for the
derivative too, which is well formed with finite constants again. -/
theorem hasDerivAt_diff {e : Expr} {p : Point ℝ} (v : Var)
    (count : e.WellFormed) (finite : e.FiniteConstants)
    (regular : e.RegularAt p) :
    HasDerivAt (fun t => e.valueIn .real (p.set v t))
        ((e.diff v).valueIn .real p) (p.get v)
      ∧ (e.diff v).RegularAt p
      ∧ (e.diff v).WellFormed
      ∧ (e.diff v).FiniteConstants := by
  refine ⟨hasSlope_diff v count regular, ?_, ?_, ?_⟩
  · exact Everywhere.diff (regularNode_differentiable p) v regular (.inl trivial)
  · exact wellFormed_diff v count
  · exact Everywhere.diff finiteConstants_differentiable v finite (.inr count)

/-- Twice the floor of `z` by the distance of `x` and `y`, by `x` at
`(3, 4, 1/2)`. -/
theorem hasDerivAt_diff_floor_by_distance :
    let e := divide (multiply two (.node .floor [.var .z]))
      (.node (.distance .two) [.var .x, .var .y])
    let p : Point ℝ := ⟨3, 4, 1 / 2⟩
    e.WellFormed ∧ e.FiniteConstants ∧ e.RegularAt p
      ∧ HasDerivAt (fun t => e.valueIn .real (p.set .x t))
          ((e.diff .x).valueIn .real p) 3
      ∧ (e.diff .x).RegularAt p ∧ (e.diff .x).WellFormed
      ∧ (e.diff .x).FiniteConstants := by
  intro e p
  have count : e.WellFormed := by
    simp [e, wellFormed_node, Op.arity, Arity.accepts, Width.toNat,
      WellFormed.const, WellFormed.var]
  have finite : e.FiniteConstants := by
    have htwo : (2 : Float).isFinite = true := rfl
    simp [e, FiniteConstants, Demand.onConstants, htwo]
  have regular : e.RegularAt p := by
    have hdistance : (Expr.node (.distance .two) [.var .x, .var .y]).valueIn .real p
        = 5 := by
      show Real.sqrt (0 + 3 * 3 + 4 * 4) = 5
      rw [show (0 + 3 * 3 + 4 * 4 : ℝ) = 5 ^ 2 by norm_num]
      exact Real.sqrt_sq (by norm_num)
    have hsum : Arithmetic.real.sumOfSquares
        ([.var .x, .var .y].map (valueIn .real p)) ≠ 0 := by
      show (0 + 3 * 3 + 4 * 4 : ℝ) ≠ 0
      norm_num
    have hfloor : ∀ n : ℤ, (Expr.var .z).valueIn .real p ≠ n := by
      intro n hn
      have hhalf : (1 / 2 : ℝ) = n := hn
      have hodd : (1 : ℤ) = 2 * n := by
        have : (1 : ℝ) = 2 * n := by linarith
        exact_mod_cast this
      omega
    refine everywhere_pair ?_ (everywhere_pair trivial (.const trivial)
      (everywhere_single hfloor (.var trivial)))
      (everywhere_pair hsum (.var trivial) (.var trivial))
    show (Expr.node (.distance .two) [.var .x, .var .y]).valueIn .real p ≠ 0
    rw [hdistance]
    norm_num
  exact ⟨count, finite, regular, hasDerivAt_diff .x count finite regular⟩

end Trivariate
