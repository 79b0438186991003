/-
  Trivariate.Numeric.Decimal
  ──────────────────────────
  **POSITIONAL DECIMALS.**

  A decimal is a natural number of digits with a count of places after the
  point: `digits / 10 ^ places`.  Here are its value as a float, its written
  form, and the removal of trailing zeros after the point.

  The written form never has an exponent and has a point only where there is
  a place after it:

      ⟨15, 0⟩  15        ⟨15, 1⟩  1.5        ⟨15, 4⟩  0.0015

  Main result:

      Decimal.ofDigitChars_whole_fraction   the written digits are the
                                            decimal's
-/

namespace Trivariate.Numeric

/-- A power of naturals is the core library's, whatever else is imported. -/
instance (priority := high) natPower : Pow Nat Nat := instPowNat

/-! ## §1. Values. -/

/-- The float nearest to `digits * 10 ^ exponent`, ties to the even
neighbour; infinity beyond the largest finite float. -/
def nearestFloat (digits : Nat) (exponent : Int) : Float :=
  .ofModel (Float.Model.ofScientific digits exponent)

/-- The number `digits / 10 ^ places`. -/
structure Decimal where
  digits : Nat
  places : Nat
  deriving Repr, DecidableEq

/-- The float nearest to the decimal. -/
def Decimal.toFloat (d : Decimal) : Float :=
  nearestFloat d.digits (-d.places)

/-! ## §2. Trailing zeros. -/

/-- The decimal `digits / 10 ^ places` without trailing zeros after the
point. -/
def Decimal.trimmed (digits : Nat) : Nat → Decimal
  | 0 => ⟨digits, 0⟩
  | places + 1 =>
      if digits % 10 = 0 then trimmed (digits / 10) places
      else ⟨digits, places + 1⟩

/-! ## §3. The written form. -/

/-- The digits before the point. -/
def Decimal.whole (d : Decimal) : List Char :=
  Nat.toDigits 10 (d.digits / 10 ^ d.places)

/-- The digits after the point, one for each place. -/
def Decimal.fraction (d : Decimal) : List Char :=
  (Nat.toDigits 10 (d.digits % 10 ^ d.places)).leftpad d.places '0'

/-- The digits before the point, and behind a point the digits after it. -/
def Decimal.toChars (d : Decimal) : List Char :=
  if d.places = 0 then d.whole else d.whole ++ '.' :: d.fraction

theorem Decimal.isDigit_of_mem_whole (d : Decimal) {c : Char}
    (h : c ∈ d.whole) : c.isDigit = true :=
  Nat.isDigit_of_mem_toDigits (by decide) (by decide) h

theorem Decimal.isDigit_of_mem_fraction (d : Decimal) {c : Char}
    (h : c ∈ d.fraction) : c.isDigit = true := by
  rw [fraction, List.leftpad, List.mem_append, List.mem_replicate] at h
  rcases h with ⟨_, rfl⟩ | h
  · decide
  · exact Nat.isDigit_of_mem_toDigits (by decide) (by decide) h

/-- There are as many digits after the point as there are places. -/
theorem Decimal.length_fraction {d : Decimal} (h : d.places ≠ 0) :
    d.fraction.length = d.places := by
  have hlt : d.digits % 10 ^ d.places < 10 ^ d.places :=
    Nat.mod_lt _ (Nat.pow_pos (by decide))
  have hle := (Nat.length_toDigits_le_iff (by decide) (by omega)).2 hlt
  rw [fraction, List.length_leftpad]
  omega

/-- Together the digits before and after the point are those of the decimal. -/
theorem Decimal.ofDigitChars_whole_fraction {d : Decimal} (h : d.places ≠ 0) :
    Nat.ofDigitChars 10 (d.whole ++ d.fraction) 0 = d.digits := by
  have hfraction :
      Nat.ofDigitChars 10 d.fraction 0 = d.digits % 10 ^ d.places := by
    rw [fraction, List.leftpad, Nat.ofDigitChars_append,
      Nat.ofDigitChars_replicate_zero, Nat.mul_zero,
      Nat.ofDigitChars_ten_toDigits]
  rw [Nat.ofDigitChars_append, Nat.ofDigitChars_eq_ofDigitChars_zero,
    length_fraction h, hfraction, whole, Nat.ofDigitChars_ten_toDigits]
  exact Nat.div_add_mod _ _

example : Decimal.toChars ⟨15, 4⟩ = ['0', '.', '0', '0', '1', '5'] := by decide

example : Decimal.toChars ⟨15, 0⟩ = ['1', '5'] := by decide

end Trivariate.Numeric
