/-
  Trivariate.Proofs.Numeric.Special
  ─────────────────────────────────
  **NaN AND THE ZEROS UNDER THE OPERATIONS.**

  An operation unpacks its operands, and for NaN and zeros it is a table: a NaN
  gives NaN beside whatever operand, and a zero gives a zero or NaN, in a
  product with anything and in a quotient by anything.  What a table gives is
  stored without rounding.

  Main results:

      isNaN_add, ...      NaN operands give NaN
      vanishes_mul, ...   zeros and NaN are not left by the operations
      negZero_add         negative zero adds nothing, not even its sign
-/
import Trivariate.Proofs.Numeric.Readback

namespace Trivariate.Numeric

open Float.Model (Format UnpackedFloat)
open Float.Model.UnpackedFloat

/-! ## §1. NaN operands. -/

theorem isNaN_iff_unpack {x : Float} :
    x.isNaN = true ↔ x.toModel.unpack = .notANumber := by
  show x.toModel.unpack.isNaN = true ↔ _
  cases x.toModel.unpack with
  | notANumber => exact ⟨fun _ => rfl, fun _ => rfl⟩
  | _ => exact ⟨Bool.noConfusion, UnpackedFloat.noConfusion⟩

theorem isNaN_nan : nan.isNaN = true := by decide +kernel

/-- The float that a table of two operands gives. -/
def tabulated (table : UnpackedFloat → UnpackedFloat → UnpackedFloat) (x y : Float) :
    Float :=
  .ofModel (.pack (table x.toModel.unpack y.toModel.unpack))

section isNaN

variable {x y : Float}

/-- A table with NaN in the row and in the column of NaN gives NaN for a NaN
operand. -/
theorem isNaN_tabulated {table : UnpackedFloat → UnpackedFloat → UnpackedFloat}
    (row : ∀ u, table .notANumber u = .notANumber)
    (column : ∀ u, table u .notANumber = .notANumber)
    (h : x.isNaN = true ∨ y.isNaN = true) : (tabulated table x y).isNaN = true := by
  have htable : table x.toModel.unpack y.toModel.unpack = .notANumber := by
    rcases h with h | h
    · rw [isNaN_iff_unpack.1 h, row]
    · rw [isNaN_iff_unpack.1 h, column]
  unfold tabulated
  rw [htable]
  exact isNaN_nan

theorem isNaN_add (h : x.isNaN = true ∨ y.isNaN = true) : (x + y).isNaN = true := by
  show (tabulated (UnpackedFloat.add Format.binary64) x y).isNaN = true
  exact isNaN_tabulated (fun _ => rfl) (fun u => by cases u <;> rfl) h

theorem isNaN_sub (h : x.isNaN = true ∨ y.isNaN = true) : (x - y).isNaN = true := by
  show (tabulated (UnpackedFloat.sub Format.binary64) x y).isNaN = true
  exact isNaN_tabulated (fun _ => rfl) (fun u => by cases u <;> rfl) h

theorem isNaN_mul (h : x.isNaN = true ∨ y.isNaN = true) : (x * y).isNaN = true := by
  show (tabulated (UnpackedFloat.mul Format.binary64) x y).isNaN = true
  exact isNaN_tabulated (fun _ => rfl) (fun u => by cases u <;> rfl) h

theorem isNaN_div (h : x.isNaN = true ∨ y.isNaN = true) : (x / y).isNaN = true := by
  show (tabulated (UnpackedFloat.div Format.binary64) x y).isNaN = true
  exact isNaN_tabulated (fun _ => rfl) (fun u => by cases u <;> rfl) h

theorem isNaN_neg (h : x.isNaN = true) : (-x).isNaN = true := by
  show (Float.ofModel (.pack x.toModel.unpack.neg)).isNaN = true
  rw [isNaN_iff_unpack.1 h]
  exact isNaN_nan

theorem isNaN_sqrt (h : x.isNaN = true) : x.sqrt.isNaN = true := by
  show (Float.ofModel (.pack (x.toModel.unpack.sqrt Format.binary64))).isNaN = true
  rw [isNaN_iff_unpack.1 h]
  exact isNaN_nan

end isNaN

/-! ## §2. Zeros. -/

/-- A zero of either sign, or NaN. -/
def Vanishes (x : Float) : Prop :=
  x = 0 ∨ x = -0.0 ∨ x.isNaN = true

/-- What zeros and NaN unpack to. -/
inductive Null : UnpackedFloat → Prop where
  | zero (s : Sign) : Null (.zero s)
  | notANumber : Null .notANumber

theorem Null.vanishes {u : UnpackedFloat} (h : Null u) :
    Vanishes (.ofModel (.pack u)) := by
  cases h with
  | zero s =>
    cases s with
    | positive => exact .inl (by decide +kernel)
    | negative => exact .inr (.inl (by decide +kernel))
  | notANumber => exact .inr (.inr isNaN_nan)

theorem Vanishes.null {x : Float} (h : Vanishes x) : Null x.toModel.unpack := by
  rcases h with rfl | rfl | h
  · exact .zero .positive
  · exact .zero .negative
  · rw [isNaN_iff_unpack.1 h]
    exact .notANumber

namespace Null

variable {u w : UnpackedFloat}

theorem add (hu : Null u) (hw : Null w) : Null (u.add Format.binary64 w) := by
  cases hu with
  | notANumber => exact .notANumber
  | zero s =>
    cases hw with
    | notANumber => exact .notANumber
    | zero t => cases s <;> cases t <;> exact .zero _

theorem sub (hu : Null u) (hw : Null w) : Null (u.sub Format.binary64 w) := by
  cases hu with
  | notANumber => exact .notANumber
  | zero s =>
    cases hw with
    | notANumber => exact .notANumber
    | zero t => cases s <;> cases t <;> exact .zero _

theorem neg (hu : Null u) : Null u.neg := by
  cases hu with
  | notANumber => exact .notANumber
  | zero s => exact .zero _

/-- Beside a zero an infinity gives NaN, and so does NaN. -/
theorem mul_left (hu : Null u) (w : UnpackedFloat) :
    Null (u.mul Format.binary64 w) := by
  cases hu with
  | notANumber => exact .notANumber
  | zero s =>
    cases w with
    | infinity t => exact .notANumber
    | notANumber => exact .notANumber
    | zero t => exact .zero _
    | finite t m e hm => exact .zero _

theorem mul_right (u : UnpackedFloat) (hw : Null w) :
    Null (u.mul Format.binary64 w) := by
  cases hw with
  | notANumber => cases u <;> exact .notANumber
  | zero t =>
    cases u with
    | infinity s => exact .notANumber
    | notANumber => exact .notANumber
    | zero s => exact .zero _
    | finite s m e hm => exact .zero _

/-- Below a zero a zero gives NaN, and so does NaN. -/
theorem div (hu : Null u) (w : UnpackedFloat) : Null (u.div Format.binary64 w) := by
  cases hu with
  | notANumber => exact .notANumber
  | zero s =>
    cases w with
    | infinity t => exact .zero _
    | notANumber => exact .notANumber
    | zero t => exact .notANumber
    | finite t m e hm => exact .zero _

end Null

section vanishes

variable {x y : Float}

theorem vanishes_add (hx : Vanishes x) (hy : Vanishes y) : Vanishes (x + y) :=
  (hx.null.add hy.null).vanishes

theorem vanishes_sub (hx : Vanishes x) (hy : Vanishes y) : Vanishes (x - y) :=
  (hx.null.sub hy.null).vanishes

theorem vanishes_neg (hx : Vanishes x) : Vanishes (-x) :=
  hx.null.neg.vanishes

/-- A zero times anything is a zero or NaN. -/
theorem vanishes_mul_left (hx : Vanishes x) (y : Float) : Vanishes (x * y) :=
  (hx.null.mul_left _).vanishes

theorem vanishes_mul_right (x : Float) (hy : Vanishes y) : Vanishes (x * y) :=
  (hy.null.mul_right _).vanishes

/-- A zero by anything is a zero or NaN. -/
theorem vanishes_div (hx : Vanishes x) (y : Float) : Vanishes (x / y) :=
  (hx.null.div _).vanishes

end vanishes

/-! ## §3. Negative zero. -/

/-- Negative zero adds nothing, not even its sign. -/
theorem negZero_add (x : Float) : -0.0 + x = x := by
  have hzero : (-0.0 : Float).toModel.unpack = .zero .negative := rfl
  have hsum : UnpackedFloat.add Format.binary64 (.zero .negative) x.toModel.unpack
      = x.toModel.unpack := by
    -- of two zeros the sum is negative only when both are
    cases x.toModel.unpack with
    | zero s => cases s <;> rfl
    | _ => rfl
  show Float.ofModel (.pack (UnpackedFloat.add Format.binary64
    (-0.0 : Float).toModel.unpack x.toModel.unpack)) = x
  rw [hzero, hsum, pack_unpack]

end Trivariate.Numeric
