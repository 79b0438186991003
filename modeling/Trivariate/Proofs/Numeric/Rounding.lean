/-
  Trivariate.Proofs.Numeric.Rounding
  ──────────────────────────────────
  **WHAT NEEDS NO ROUNDING IS NOT ROUNDED.**

  A stored magnitude written with more trailing zeros rounds to itself, and so
  the exact decimal of a float has that float as its nearest one.  A decimal
  with places is a quotient by a power of ten: enough zeros are put behind the
  numerator that the division leaves no remainder.

  Main results:

      roundWithAccuracy_shifted   trailing zeros are dropped exactly
      toFloat_exactDecimal        the exact decimal of a float reads back
      toFloat_shortestDecimal     the shortest decimal of a float reads back
-/
import Trivariate.Proofs.Numeric.Fields

namespace Trivariate.Numeric

open Float.Model (Format UnpackedFloat totalExponent)
open Float.Model.UnpackedFloat

/-! ## §1. Leading bits. -/

theorem log2_mul_two_pow {m : Nat} (k : Nat) (h : 0 < m) :
    (m * 2 ^ k).log2 = m.log2 + k := by
  -- the two powers of two around `m`, both moved by `k`
  have hlo := Nat.mul_le_mul_right (2 ^ k) (Nat.log2_self_le (n := m) (by omega))
  have hhi := Nat.mul_lt_mul_of_pos_right (Nat.lt_log2_self (n := m)) (Nat.two_pow_pos k)
  rw [← Nat.pow_add] at hlo hhi
  refine (Nat.log2_eq_iff ?_).2 ⟨hlo, ?_⟩
  · exact Nat.ne_of_gt (Nat.mul_pos h (Nat.two_pow_pos k))
  · rw [show m.log2 + k + 1 = m.log2 + 1 + k by omega]
    exact hhi

theorem log2_mul_le {a b : Nat} (ha : 0 < a) (hb : 0 < b) :
    (a * b).log2 ≤ a.log2 + b.log2 + 1 := by
  have hab : a * b < 2 ^ (a.log2 + 1 + (b.log2 + 1)) := by
    rw [Nat.pow_add]
    exact Nat.mul_lt_mul'' Nat.lt_log2_self Nat.lt_log2_self
  have hlog := (Nat.log2_lt (Nat.ne_of_gt (Nat.mul_pos ha hb))).2 hab
  omega

theorem totalExponent_shifted {m : Nat} (e : Int) (k : Nat) (h : 0 < m) :
    totalExponent (m * 2 ^ k) (e - k) = totalExponent m e := by
  unfold totalExponent
  rw [log2_mul_two_pow k h]
  omega

/-! ## §2. Exact rounding. -/

/-- Shifting out zeros leaves no residue. -/
theorem shiftRight_shifted (m k : Nat) :
    ExtendedMantissa.ofMantissaAndAccuracy (m * 2 ^ k) .exact >>> k
      = ⟨m, false, false⟩ := by
  induction k generalizing m with
  | zero =>
    rw [Nat.pow_zero, Nat.mul_one]
    rfl
  | succ k ih =>
    -- the last of the shifts takes the one zero that is left
    show ExtendedMantissa.shiftRightOne
        (ExtendedMantissa.ofMantissaAndAccuracy (m * 2 ^ (k + 1)) .exact >>> k) = _
    rw [Nat.pow_succ, Nat.mul_comm (2 ^ k) 2, ← Nat.mul_assoc, ih]
    simp [ExtendedMantissa.shiftRightOne]

theorem shiftToTargetExponent_shifted {m : Nat} {e : Int} (h : Stored m e)
    (k : Nat) :
    shiftToTargetExponent Format.binary64 (m * 2 ^ k) (e - k) .exact
      = (⟨m, false, false⟩, e) := by
  have hk : (e - (e - k)).toNat = k := by omega
  unfold shiftToTargetExponent shiftToExponent
  simp only [totalExponent_shifted e k h.pos, h.target, hk]
  rw [shiftRight_shifted]
  congr 1
  omega

/-- A stored magnitude with `k` more trailing zeros rounds to itself. -/
theorem roundWithAccuracy_shifted {m : Nat} {e : Int} (h : Stored m e)
    (s : Sign) (k : Nat) :
    roundWithAccuracy Format.binary64 s (m * 2 ^ k) (e - k) .exact
      = .finite s m e h.pos := by
  have hagain := shiftToTargetExponent_shifted h 0
  rw [Nat.pow_zero, Nat.mul_one, Int.natCast_zero, Int.sub_zero] at hagain
  unfold roundWithAccuracy
  simp only [shiftToTargetExponent_shifted h k]
  -- the mantissa is not changed by rounding, and so is in place already
  show (let r := shiftToTargetExponent Format.binary64 m e .exact
    if h : r.1.mantissa = 0 then _ else UnpackedFloat.finite s r.1.mantissa r.2 _) = _
  simp only [hagain]
  rw [dif_neg (Nat.ne_of_gt h.pos)]

/-! ## §3. Exact decimals. -/

theorem expBits_binary64 : (2 : Int) ^ Format.binary64.exponentBits = 2048 := rfl

theorem ofScientific_product {m k : Nat} (h : Stored m k) :
    UnpackedFloat.ofScientific Format.binary64 (m * 2 ^ k) 0
      = .finite .positive m k h.pos := by
  have hpos : 0 < m * 2 ^ k := Nat.mul_pos h.pos (Nat.two_pow_pos k)
  -- a whole number is rounded with 53 zeros behind it
  have hround := roundWithAccuracy_shifted h .positive (k + 53)
  rw [show (k : Int) - (k + 53 : Nat) = -53 by omega, Nat.pow_add,
    ← Nat.mul_assoc] at hround
  unfold UnpackedFloat.ofScientific
  rw [expBits_binary64, dif_neg (Nat.ne_of_gt hpos), if_neg (by decide),
    if_neg (by omega), if_pos (Int.le_refl 0)]
  show roundWithAccuracy Format.binary64 .positive
      ((m * 2 ^ k) <<< 53 * 1) (-53 + 0) .exact = _
  rw [Nat.mul_one, Nat.shiftLeft_eq, Int.add_zero, hround]

/-- The leading bits of numerator and denominator bound that of the quotient
`m / 2 ^ n`. -/
theorem log2_numerator_le {m : Nat} (n : Nat) (h : 0 < m) :
    (m * 5 ^ n).log2 + n ≤ m.log2 + (10 ^ n).log2 + 1 := by
  have h5 : 0 < m * 5 ^ n := Nat.mul_pos h (Nat.pow_pos (by decide))
  rw [← log2_mul_two_pow n h5, Nat.mul_assoc, ← Nat.mul_pow]
  exact log2_mul_le h (Nat.pow_pos (by decide))

/-- The division by `10 ^ n` is exact: it asks for at least `n` more bits than
the numerator has. -/
theorem divCore_exact {m n : Nat} (h : Stored m (-(n : Int))) :
    ∃ j : Nat, divCore Format.binary64 (m * 5 ^ n) 0 (10 ^ n) 0
      = (m * 2 ^ j, -(n : Int) - j, .exact) := by
  have hlog := log2_numerator_le n h.pos
  have htarget := h.target
  rw [targetExponent_binary64] at htarget
  unfold totalExponent at htarget
  -- the quotient is asked for with `j` bits more than the magnitude has
  have hle : min (0 - 0) (Format.binary64.targetExponent
      (totalExponent (m * 5 ^ n) 0 - totalExponent (10 ^ n) 0)) ≤ -(n : Int) := by
    rw [targetExponent_binary64]
    unfold totalExponent
    omega
  obtain ⟨j, hj⟩ := Int.le.dest hle
  refine ⟨j, ?_⟩
  -- five for every place, and two from the shift, are ten
  have hnum : (m * 5 ^ n) <<< (n + j) = m * 2 ^ j * 10 ^ n := by
    rw [Nat.shiftLeft_eq, Nat.pow_add, show (10 : Nat) = 5 * 2 from rfl,
      Nat.mul_pow, Nat.mul_comm (2 ^ n), Nat.mul_mul_mul_comm]
  have hdiv : m * 2 ^ j * 10 ^ n / 10 ^ n = m * 2 ^ j :=
    Nat.mul_div_cancel _ (Nat.pow_pos (by decide))
  unfold divCore
  rw [show min (0 - 0) (Format.binary64.targetExponent
      (totalExponent (m * 5 ^ n) 0 - totalExponent (10 ^ n) 0))
    = -(n : Int) - j by omega]
  simp only [show (0 - 0 - (-(n : Int) - j)).toNat = n + j by omega, hnum, hdiv,
    Nat.mul_mod_left]
  rfl

theorem ofScientific_quotient {m n : Nat} (hn : 0 < n)
    (h : Stored m (-(n : Int))) :
    UnpackedFloat.ofScientific Format.binary64 (m * 5 ^ n) (-(n : Int))
      = .finite .positive m (-(n : Int)) h.pos := by
  have hpos : 0 < m * 5 ^ n := Nat.mul_pos h.pos (Nat.pow_pos (by decide))
  have hmin : -1074 ≤ -(n : Int) := (stored_iff.1 h).2.2.1
  obtain ⟨j, hj⟩ := divCore_exact h
  unfold UnpackedFloat.ofScientific
  rw [expBits_binary64, dif_neg (Nat.ne_of_gt hpos), if_neg (by omega),
    if_neg (by omega), if_neg (by omega)]
  simp only [Int.neg_neg, Int.toNat_natCast]
  unfold UnpackedFloat.div
  simp only [hj]
  exact roundWithAccuracy_shifted h .positive j

/-- The positive float of a stored magnitude. -/
def magnitude {m : Nat} {e : Int} (h : Stored m e) : Float :=
  .ofModel (.pack (.finite .positive m e h.pos))

theorem toFloat_exactDecimal {m : Nat} {e : Int} (h : Stored m e) :
    (exactDecimal m e).toFloat = magnitude h := by
  cases e with
  | ofNat k =>
    show Float.ofModel (.pack (UnpackedFloat.ofScientific Format.binary64
      (m * 2 ^ k) (-(0 : Nat)))) = _
    rw [Int.natCast_zero, Int.neg_zero, ofScientific_product h]
    rfl
  | negSucc k =>
    show Float.ofModel (.pack (UnpackedFloat.ofScientific Format.binary64
      (m * 5 ^ (k + 1)) (-(k + 1 : Nat)))) = _
    rw [ofScientific_quotient (Nat.succ_pos k) h]
    rfl

/-- Whether or not the search finds a shorter one, the shortest decimal reads
back. -/
theorem toFloat_shortestDecimal {m : Nat} {e : Int} (h : Stored m e) :
    (shortestDecimal (magnitude h) m e).toFloat = magnitude h := by
  show ((shortest? (magnitude h) (exactDecimal m e)).getD
    (exactDecimal m e)).toFloat = _
  cases hfound : shortest? (magnitude h) (exactDecimal m e) with
  | none => exact toFloat_exactDecimal h
  | some r => exact toFloat_of_shortest? hfound

end Trivariate.Numeric
