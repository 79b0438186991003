/-
  Trivariate.Proofs.Numeric.Comparison
  ────────────────────────────────────
  **FLOATS THAT COMPARE EQUAL.**

  Comparing unpacks two floats and looks at sign, exponent and mantissa; of zeros
  it does not look at the sign, and NaN compares equal to nothing.  So to compare
  equal is to be no NaN and to be the same float once the sign of a zero is
  forgotten.

  Main results:

      compare_eq_iff   which unpacked floats compare equal
      beq_iff          which floats do
      beq_iff_plain    that is, floats that are the same but for a zero's sign
-/
import Trivariate.Proofs.Numeric.Special

namespace Trivariate.Numeric

open Float.Model (UnpackedFloat)
open Float.Model.UnpackedFloat

/-! ## §1. Zeros. -/

/-- Zero, of either sign. -/
def IsZero (x : Float) : Prop :=
  x = 0 ∨ x = -0.0

theorem isZero_iff_unpack {x : Float} :
    IsZero x ↔ ∃ s, x.toModel.unpack = .zero s := by
  constructor
  · rintro (rfl | rfl)
    · exact ⟨.positive, rfl⟩
    · exact ⟨.negative, rfl⟩
  · rintro ⟨s, hs⟩
    rw [eq_of_unpack hs]
    cases s with
    | positive => exact .inl (by decide +kernel)
    | negative => exact .inr (by decide +kernel)

/-- The float, with zero in the place of negative zero. -/
def plain (x : Float) : Float :=
  if x = -0.0 then 0 else x

theorem plain_of_not_isZero {x : Float} (h : ¬ IsZero x) : plain x = x :=
  if_neg fun hx => h (.inr hx)

theorem plain_of_isZero {x : Float} (h : IsZero x) : plain x = 0 := by
  rcases h with rfl | rfl
  · exact if_neg (by decide +kernel)
  · exact if_pos rfl

theorem isZero_plain {x : Float} : IsZero (plain x) ↔ IsZero x := by
  by_cases hx : IsZero x
  · rw [plain_of_isZero hx]
    exact ⟨fun _ => hx, fun _ => .inl rfl⟩
  · rw [plain_of_not_isZero hx]

theorem isNaN_plain (x : Float) : (plain x).isNaN = x.isNaN := by
  unfold plain
  split
  next h =>
    rw [h]
    decide +kernel
  next => rfl

/-- Once the signs of zeros are forgotten, floats are the same if they were or if
both are zeros. -/
theorem plain_eq_plain_iff {x y : Float} :
    plain x = plain y ↔ x = y ∨ (IsZero x ∧ IsZero y) := by
  by_cases hx : IsZero x
  · by_cases hy : IsZero y
    · rw [plain_of_isZero hx, plain_of_isZero hy]
      exact ⟨fun _ => .inr ⟨hx, hy⟩, fun _ => rfl⟩
    · rw [plain_of_isZero hx, plain_of_not_isZero hy]
      constructor
      · intro h
        exact absurd (.inl h.symm) hy
      · rintro (rfl | ⟨-, h⟩)
        · exact absurd hx hy
        · exact absurd h hy
  · constructor
    · intro h
      rw [plain_of_not_isZero hx] at h
      by_cases hy : IsZero y
      · rw [plain_of_isZero hy] at h
        exact absurd (.inl h) hx
      · rw [plain_of_not_isZero hy] at h
        exact .inl h
    · rintro (rfl | ⟨h, -⟩)
      · rfl
      · exact absurd h hx

/-! ## §2. Comparing. -/

theorem compare_sign_eq {s t : Sign} : compare s t = .eq ↔ s = t := by
  constructor
  · intro h
    cases s <;> cases t <;> first | rfl | nomatch h
  · rintro rfl
    cases s <;> rfl

/-- Unpacked floats compare equal when they are the same and not NaN, or when
both are zeros. -/
theorem compare_eq_iff {u w : UnpackedFloat} :
    u.compare w = some .eq
      ↔ (u = w ∧ u ≠ .notANumber) ∨ ∃ s t, u = .zero s ∧ w = .zero t := by
  cases u with
  | notANumber => cases w <;> simp [UnpackedFloat.compare]
  | infinity s =>
    cases w with
    | infinity t => simp [UnpackedFloat.compare, compare_sign_eq]
    | _ => cases s <;> simp [UnpackedFloat.compare]
  | zero s =>
    cases w with
    | zero t => simp [UnpackedFloat.compare]
    | notANumber => simp [UnpackedFloat.compare]
    | infinity t => cases t <;> simp [UnpackedFloat.compare]
    | finite t n f hn => cases t <;> simp [UnpackedFloat.compare]
  | finite s m e hm =>
    cases w with
    | zero t => cases s <;> simp [UnpackedFloat.compare]
    | notANumber => cases s <;> simp [UnpackedFloat.compare]
    | infinity t => cases s <;> cases t <;> simp [UnpackedFloat.compare]
    | finite t n f hn =>
      -- of one sign, by exponent and then by mantissa
      cases s <;> cases t <;> simp [UnpackedFloat.compare, and_comm]

theorem toModel_unpack_inj {x y : Float} :
    x.toModel.unpack = y.toModel.unpack ↔ x = y := by
  constructor
  · intro h
    rw [eq_of_unpack h, pack_unpack]
  · rintro rfl
    rfl

/-- Floats compare equal when they are the same and not NaN, or when both are
zeros. -/
theorem beq_iff {x y : Float} :
    (x == y) = true ↔ x.isNaN = false ∧ (x = y ∨ (IsZero x ∧ IsZero y)) := by
  have hnan : x.isNaN = false ↔ x.toModel.unpack ≠ .notANumber := by
    rw [← Bool.not_eq_true, isNaN_iff_unpack]
  have hzero : IsZero x → x.toModel.unpack ≠ .notANumber := by
    intro hx
    obtain ⟨s, hs⟩ := isZero_iff_unpack.1 hx
    rw [hs]
    exact UnpackedFloat.noConfusion
  have hcompare : (x == y) = true
      ↔ x.toModel.unpack.compare y.toModel.unpack = some .eq := by
    show (x.toModel.unpack.compare y.toModel.unpack == some .eq) = true ↔ _
    exact beq_iff_eq
  rw [hcompare, compare_eq_iff, toModel_unpack_inj, hnan, isZero_iff_unpack,
    isZero_iff_unpack]
  rw [isZero_iff_unpack] at hzero
  constructor
  · rintro (⟨hxy, hx⟩ | ⟨s, t, hs, ht⟩)
    · exact ⟨hx, .inl hxy⟩
    · exact ⟨hzero ⟨s, hs⟩, .inr ⟨⟨s, hs⟩, t, ht⟩⟩
  · rintro ⟨hx, hxy | ⟨⟨s, hs⟩, t, ht⟩⟩
    · exact .inl ⟨hxy, hx⟩
    · exact .inr ⟨s, t, hs, ht⟩

/-- Floats compare equal when they are no NaN and the same but for the sign of a
zero. -/
theorem beq_iff_plain {x y : Float} :
    (x == y) = true ↔ x.isNaN = false ∧ plain x = plain y := by
  rw [beq_iff, plain_eq_plain_iff]

end Trivariate.Numeric
