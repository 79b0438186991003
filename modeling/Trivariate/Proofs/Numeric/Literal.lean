/-
  Trivariate.Proofs.Numeric.Literal
  ─────────────────────────────────
  **NO LITERAL IS NaN.**

  A literal is rounded from a decimal, or it is an infinity.  Rounding gives
  a zero or a finite magnitude; a magnitude too large for its exponent field
  is stored as an infinity; and turning the sign changes nothing else.

  Main results:

      isNaN_pack       only what is NaN is stored as NaN
      isNaN_literal?   no literal has the value NaN
-/
import Trivariate.Numeric.Literal
import Trivariate.Proofs.Numeric.Fields

namespace Trivariate.Numeric

open Float.Model (Format UnpackedFloat)
open Float.Model.UnpackedFloat

/-! ## §1. Storing. -/

theorem isNaN_ofFields (s : Sign) {E : BitVec 11} (F : BitVec 52) (hE : E ≠ -1#11) :
    (unpack Format.binary64 (ofFields s E F)).isNaN = false := by
  rcases unpack_special s E F with ⟨h, -⟩ | ⟨h, -⟩ | ⟨-, -, h⟩ | ⟨-, hm⟩
  · exact absurd h hE
  · exact absurd h hE
  · rw [h]
    rfl
  · rw [unpack_fields s hE hm]
    rfl

/-- A float that is stored and unpacked is NaN if it was. -/
theorem isNaN_pack (u : UnpackedFloat) : (Float.Model.pack u).unpack.isNaN = u.isNaN := by
  cases u with
  | notANumber => decide
  | infinity s => cases s <;> decide
  | zero s => cases s <;> decide
  | finite s m e hm =>
    show (unpack Format.binary64 (pack Format.binary64 (.finite s m e hm))).isNaN = false
    unfold pack
    dsimp only
    split
    next =>
      -- too large, and so an infinity
      cases s <;> decide
    next hsmall =>
      split
      next =>
        refine isNaN_ofFields s _ ?_
        intro hE
        have hval := congrArg BitVec.toNat hE
        rw [BitVec.toNat_ofNat, Nat.mod_eq_of_lt (by omega)] at hval
        have hmax : (-1#11 : BitVec 11).toNat = 2047 := by decide
        have hbits : 2 ^ Format.binary64.exponentBits = 2048 := rfl
        omega
      next => exact isNaN_ofFields s _ (by decide)

/-! ## §2. Rounding. -/

theorem isNaN_roundWithAccuracy (s : Sign) (m : Nat) (e : Int) (a : Accuracy) :
    (roundWithAccuracy Format.binary64 s m e a).isNaN = false := by
  unfold roundWithAccuracy
  dsimp only
  split
  next => rfl
  next => rfl

theorem isNaN_nearestFloat (digits : Nat) (exponent : Int) :
    (nearestFloat digits exponent).isNaN = false := by
  show (Float.Model.pack (UnpackedFloat.ofScientific Format.binary64
    digits exponent)).unpack.isNaN = false
  rw [isNaN_pack]
  -- the quick ways out for exponents beyond all floats, then product or quotient
  unfold UnpackedFloat.ofScientific
  split
  next => rfl
  next =>
    split
    next => rfl
    next =>
      split
      next => rfl
      next =>
        split
        next => exact isNaN_roundWithAccuracy ..
        next => exact isNaN_roundWithAccuracy ..

/-! ## §3. Literals. -/

theorem isNaN_withSign (negative : Bool) (x : Float) :
    (withSign negative x).isNaN = x.isNaN := by
  cases negative with
  | false => rfl
  | true =>
    show (Float.Model.pack x.toModel.unpack.neg).unpack.isNaN = x.toModel.unpack.isNaN
    rw [isNaN_pack]
    cases x.toModel.unpack with
    | _ => rfl

/-- What a decimal spells is rounded, wherever its point stands. -/
theorem isNaN_readDecimal? {cs : List Char} {x : Float} (h : readDecimal? cs = some x) :
    x.isNaN = false := by
  have hrounded : ∃ digits exponent, nearestFloat digits exponent = x := by
    unfold readDecimal? at h
    dsimp only at h
    split at h
    all_goals
      split at h
      next => exact absurd h (by simp)
      next =>
        obtain ⟨exponent, -, hx⟩ := Option.map_eq_some_iff.1 h
        exact ⟨_, _, hx⟩
  obtain ⟨digits, exponent, hx⟩ := hrounded
  rw [← hx]
  exact isNaN_nearestFloat digits exponent

/-- No literal has the value NaN. -/
theorem isNaN_literal? {text : String} {x : Float} (h : literal? text = some x) :
    x.isNaN = false := by
  unfold literal? at h
  cases hsplit : splitSign text.toList with
  | mk negative body =>
    rw [hsplit] at h
    obtain ⟨magnitude, hmagnitude, hx⟩ := Option.map_eq_some_iff.1 h
    rw [← hx, isNaN_withSign]
    by_cases hbody : body = "Infinity".toList
    · rw [if_pos hbody] at hmagnitude
      injection hmagnitude with hinf
      rw [← hinf]
      decide +kernel
    · rw [if_neg hbody] at hmagnitude
      exact isNaN_readDecimal? hmagnitude

end Trivariate.Numeric
