/-
  Trivariate.Proofs.Algebra.Ring
  ──────────────────────────────
  **EXPRESSIONS OVER A COMMUTATIVE RING.**

  Much of what is true of derivatives needs no limits.  Sums and products are
  those of a commutative ring; a quotient, an exponential and the rest are any
  functions at all, and a constant stands for any number, if only zero, one and
  two stand for those of the ring.  Nothing is undefined: whatever a quotient by
  zero is, it is a number like others.

  Main results:

      Arithmetic.IsHom.valueIn_map     a map that keeps the operations keeps
                                       values
      RingArithmetic.value_nestedSum   the value of a sum nested to the right
-/
import Mathlib.Algebra.BigOperators.Group.List.Basic
import Mathlib.Algebra.Field.Basic
import Mathlib.Data.Rat.Floor
import Mathlib.Data.Rat.Sqrt
import Mathlib.Tactic.Ring
import Trivariate.Proofs.Expr.Rules

namespace Trivariate

/-! ## §1. Points. -/

namespace Point

variable {α β : Type}

/-- The point with these coordinates. -/
def ofFun (f : Var → α) : Point α := ⟨f .x, f .y, f .z⟩

@[simp] theorem get_ofFun (f : Var → α) (v : Var) : (ofFun f).get v = f v := by
  cases v <;> rfl

/-- The point with each coordinate mapped. -/
def map (f : α → β) (p : Point α) : Point β := ofFun fun v => f (p.get v)

@[simp] theorem get_map (f : α → β) (p : Point α) (v : Var) :
    (p.map f).get v = f (p.get v) :=
  get_ofFun _ v

theorem ext_get {p q : Point α} (h : ∀ v, p.get v = q.get v) : p = q :=
  congrArg ofFun (funext h)

end Point

/-! ## §2. Maps between arithmetics. -/

/-- The map keeps every operation. -/
structure Arithmetic.IsHom {α β : Type} (A : Arithmetic α) (B : Arithmetic β)
    (f : α → β) : Prop where
  ofFloat (x : Float) : f (A.ofFloat x) = B.ofFloat x
  add (a b : α) : f (A.add a b) = B.add (f a) (f b)
  subtract (a b : α) : f (A.subtract a b) = B.subtract (f a) (f b)
  multiply (a b : α) : f (A.multiply a b) = B.multiply (f a) (f b)
  divide (a b : α) : f (A.divide a b) = B.divide (f a) (f b)
  negate (a : α) : f (A.negate a) = B.negate (f a)
  exp (a : α) : f (A.exp a) = B.exp (f a)
  ln (a : α) : f (A.ln a) = B.ln (f a)
  sqrt (a : α) : f (A.sqrt a) = B.sqrt (f a)
  floor (a : α) : f (A.floor a) = B.floor (f a)
  ceil (a : α) : f (A.ceil a) = B.ceil (f a)
  emptySum : f A.emptySum = B.emptySum
  undefined : f A.undefined = B.undefined

namespace Arithmetic.IsHom

variable {α β : Type} {A : Arithmetic α} {B : Arithmetic β} {f : α → β}
  (h : IsHom A B f)

include h

theorem map_foldl (values : List α) : ∀ start : α,
    f (values.foldl A.add start) = (values.map f).foldl B.add (f start) := by
  induction values with
  | nil => intro start; rfl
  | cons a values ih =>
    intro start
    rw [List.map_cons, List.foldl_cons, List.foldl_cons, ih, h.add]

theorem map_sum (values : List α) : f (A.sum values) = B.sum (values.map f) := by
  unfold Arithmetic.sum
  rw [h.map_foldl, h.emptySum]

theorem map_sumOfSquares (values : List α) :
    f (A.sumOfSquares values) = B.sumOfSquares (values.map f) := by
  unfold Arithmetic.sumOfSquares
  rw [h.map_sum, List.map_map, List.map_map]
  exact congrArg B.sum (List.map_congr_left fun a _ => h.multiply a a)

theorem map_sumOfExps (values : List α) :
    f (A.sumOfExps values) = B.sumOfExps (values.map f) := by
  unfold Arithmetic.sumOfExps
  rw [h.map_sum, List.map_map, List.map_map]
  exact congrArg B.sum (List.map_congr_left fun a _ => h.exp a)

/-- The value of every operation is kept, also on a count it does not take. -/
theorem map_apply (op : Op) (values : List α) :
    f (op.apply A values) = op.apply B (values.map f) := by
  -- the cases are the rows of the table of operations
  fun_cases Op.apply A op values with
  | case1 a b => exact h.add a b
  | case2 a b => exact h.subtract a b
  | case3 a b => exact h.multiply a b
  | case4 a b => exact h.divide a b
  | case5 a => exact h.negate a
  | case6 w values => exact h.map_sumOfSquares values
  | case7 w values =>
    show f (A.sqrt (A.sumOfSquares values)) = B.sqrt (B.sumOfSquares _)
    rw [h.sqrt, h.map_sumOfSquares]
  | case8 values => exact h.map_sumOfExps values
  | case9 values =>
    show f (A.ln (A.sumOfExps values)) = B.ln (B.sumOfExps _)
    rw [h.ln, h.map_sumOfExps]
  | case10 a => exact h.floor a
  | case11 a => exact h.ceil a
  | case12 a b c =>
    show f (A.add (A.multiply a b) c) = B.add (B.multiply _ _) _
    rw [h.add, h.multiply]
  | case13 op values =>
    rw [h.undefined, Op.apply_eq_undefined B ?_]
    rw [List.length_map]
    by_contra hrule
    -- what has a rule has a row of its own
    rcases Bool.or_eq_true_iff.1 (eq_true_of_ne_false hrule) with hsums | hcount
    · cases op <;> simp_all [Op.ofSums]
    · cases Op.shape_of_accepts hcount <;> simp_all

/-- A map that keeps the operations keeps the value of every tree. -/
theorem valueIn_map (e : Expr) (p : Point α) :
    f (e.valueIn A p) = e.valueIn B (p.map f) := by
  induction e with
  | const value => exact h.ofFloat value
  | var v => exact (Point.get_map f p v).symm
  | node op operands ih =>
    rw [Expr.valueIn_node, Expr.valueIn_node, h.map_apply, List.map_map]
    exact congrArg (op.apply B) (List.map_congr_left ih)

end Arithmetic.IsHom

/-! ## §3. Rings and fields. -/

/-- What it takes, beside a commutative ring, to evaluate expressions in it: the
numbers of the constants, and any functions for the operations that a ring does
not have. -/
structure RingArithmetic (K : Type) [CommRing K] where
  const : Float → K
  divide : K → K → K
  exp : K → K
  ln : K → K
  sqrt : K → K
  floor : K → K
  ceil : K → K
  const_zero : const 0 = 0
  const_one : const 1 = 1
  const_two : const 2 = 1 + 1

/-- The arithmetic of the ring. -/
def RingArithmetic.toArithmetic {K : Type} [CommRing K] (R : RingArithmetic K) :
    Arithmetic K where
  ofFloat := R.const
  add := (· + ·)
  subtract := (· - ·)
  multiply := (· * ·)
  divide := R.divide
  negate := (- ·)
  exp := R.exp
  ln := R.ln
  sqrt := R.sqrt
  floor := R.floor
  ceil := R.ceil
  emptySum := 0
  undefined := 0

/-- The arithmetic of a field: a quotient is a product with the inverse, and the
inverse of zero is any fixed number. -/
structure FieldArithmetic (K : Type) [Field K] extends RingArithmetic K where
  inverseOfZero : K
  divide_of_ne_zero (a : K) {b : K} (hb : b ≠ 0) : divide a b = a * b⁻¹
  divide_zero (a : K) : divide a 0 = a * inverseOfZero

/-- A factor can be moved into a quotient or out of it. -/
theorem FieldArithmetic.mul_divide_comm {K : Type} [Field K] (F : FieldArithmetic K)
    (a b c : K) : a * F.divide b c = b * F.divide a c := by
  by_cases hc : c = 0
  · rw [hc, F.divide_zero, F.divide_zero]
    ring
  · rw [F.divide_of_ne_zero b hc, F.divide_of_ne_zero a hc]
    ring

/-! ## §4. The rational numbers. -/

/-- The rational number that a finite float stands for; what is not finite gets
zero. -/
def Numeric.toRational (x : Float) : ℚ :=
  match x.toModel.unpack with
  | .finite sign mantissa exponent _ =>
      (sign.apply mantissa : ℤ) * (2 : ℚ) ^ exponent
  | _ => 0

/-- The field of the rational numbers, with the first terms of their series for
the exponential and the logarithm, and the root rounded down to what has one. -/
def FieldArithmetic.rational (inverseOfZero : ℚ) : FieldArithmetic ℚ where
  const := Numeric.toRational
  divide a b := a * if b = 0 then inverseOfZero else b⁻¹
  exp a := 1 + a
  ln a := a - 1
  sqrt := Rat.sqrt
  floor a := ⌊a⌋
  ceil a := ⌈a⌉
  const_zero := by decide +kernel
  const_one := by decide +kernel
  const_two := by decide +kernel
  inverseOfZero := inverseOfZero
  divide_of_ne_zero a b hb := by rw [if_neg hb]
  divide_zero a := by rw [if_pos rfl]

/-! ## §5. Sums. -/

namespace RingArithmetic

variable {K : Type} [CommRing K] (R : RingArithmetic K)

theorem sum_eq (values : List K) : R.toArithmetic.sum values = values.sum :=
  List.sum_eq_foldl.symm

theorem sumOfSquares_eq (values : List K) :
    R.toArithmetic.sumOfSquares values = (values.map fun a => a * a).sum :=
  R.sum_eq _

theorem sumOfExps_eq (values : List K) :
    R.toArithmetic.sumOfExps values = (values.map R.exp).sum :=
  R.sum_eq _

/-- A sum nested to the right has the sum of its terms as its value. -/
theorem value_nestedSum (p : Point K) (term : Tangent → Expr) (ts : List Tangent) :
    (Tangent.nestedSum term ts).valueIn R.toArithmetic p
      = (ts.map fun t => (term t).valueIn R.toArithmetic p).sum := by
  induction ts with
  | nil => exact R.const_zero
  | cons t ts ih =>
    cases ts with
    | nil => simp [Tangent.nestedSum]
    | cons u us =>
      show (term t).valueIn R.toArithmetic p
        + (Tangent.nestedSum term (u :: us)).valueIn R.toArithmetic p = _
      rw [ih]
      rfl

end RingArithmetic

end Trivariate
