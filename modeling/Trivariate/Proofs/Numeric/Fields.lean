/-
  Trivariate.Proofs.Numeric.Fields
  ────────────────────────────────
  **BINARY64 NUMBERS AND THEIR BIT FIELDS.**

  A float is a sign, an exponent field of 11 bits and a fraction of 52 bits.
  Every argument about unpacking and packing goes through these fields: once
  a float is written as its fields, both directions are computed by cases on
  the exponent field.

  Main results:

      pack_unpack        packing what was unpacked gives the float back
      unpack_pack        the magnitude of a float survives under any sign
      stored_of_unpack   the magnitudes that floats have
-/
import Mathlib
import Trivariate.Numeric.Numeral

namespace Trivariate.Numeric

open Float.Model (Format UnpackedFloat totalExponent)
open Float.Model.UnpackedFloat

/-! ## §1. Stored magnitudes. -/

theorem targetExponent_binary64 (total : Int) :
    Format.binary64.targetExponent total = max (total - 53) (-1074) := rfl

/-- `mantissa * 2 ^ exponent` as binary64 stores it: the exponent is the one
that the leading bit asks for, and no larger than the largest. -/
structure Stored (mantissa : Nat) (exponent : Int) : Prop where
  pos : 0 < mantissa
  target : Format.binary64.targetExponent (totalExponent mantissa exponent)
    = exponent
  le_max : exponent ≤ 971

/-- A stored mantissa has at most 53 bits, and fewer only at the smallest
exponent. -/
theorem stored_iff {m : Nat} {e : Int} :
    Stored m e ↔
      0 < m ∧ m < 2 ^ 53 ∧ -1074 ≤ e ∧ e ≤ 971 ∧ (2 ^ 52 ≤ m ∨ e = -1074) := by
  constructor
  · rintro ⟨hpos, ht, hmax⟩
    rw [targetExponent_binary64] at ht
    unfold totalExponent at ht
    have hlt : m < 2 ^ 53 := (Nat.log2_lt (by omega)).1 (by omega)
    refine ⟨hpos, hlt, by omega, hmax, ?_⟩
    -- above the smallest exponent the leading bit alone decides it
    by_cases he : e = -1074
    · exact .inr he
    · have hlog : 52 ≤ m.log2 := by omega
      exact .inl ((Nat.le_log2 (by omega)).1 hlog)
  · rintro ⟨hpos, hlt, hmin, hmax, hfull⟩
    refine ⟨hpos, ?_, hmax⟩
    rw [targetExponent_binary64]
    unfold totalExponent
    have hlog : m.log2 < 53 := (Nat.log2_lt (by omega)).2 hlt
    rcases hfull with hm | he
    · have hlog' : 52 ≤ m.log2 := (Nat.le_log2 (by omega)).2 hm
      omega
    · omega

/-! ## §2. The three fields. -/

/-- The bits of a float with these fields. -/
abbrev ofFields (s : Sign) (E : BitVec 11) (F : BitVec 52) :
    BitVec Format.binary64.numBits :=
  packComponents Format.binary64 s E F

theorem unpackSign_ofFields (s : Sign) (E : BitVec 11) (F : BitVec 52) :
    Sign.ofBitVec (unpackSign (ofFields s E F)) = s := by
  have hbit : unpackSign (ofFields s E F) = s.toBitVec := by
    -- a single bit, above both other fields
    ext i hi
    have h0 : i = 0 := by omega
    subst h0
    simp only [unpackSign, BitVec.getElem_cast, BitVec.getElem_extract,
      packComponents]
    rw [BitVec.getLsbD_append, if_neg (by decide), BitVec.getLsbD_append,
      if_neg (by decide)]
    rfl
  rw [hbit]
  cases s <;> rfl

/-- Every bit pattern has fields. -/
theorem exists_fields (b : BitVec Format.binary64.numBits) :
    ∃ s E F, b = ofFields s E F := by
  refine ⟨Sign.ofBitVec (unpackSign b), unpackExponent b, unpackMantissa b, ?_⟩
  have hsign : (Sign.ofBitVec (unpackSign b)).toBitVec = unpackSign b := by
    generalize unpackSign b = s
    revert s
    decide
  unfold ofFields packComponents
  rw [hsign]
  ext i hi
  have hi' : i < Format.binary64.numBits := hi
  simp only [unpackSign, unpackExponent, unpackMantissa,
    BitVec.getElem_append, BitVec.getElem_cast, BitVec.getElem_extract]
  -- the fraction has the bits below 52, the exponent those below 63
  by_cases hF : i < 52
  · rw [dif_pos hF, Nat.zero_add, BitVec.getLsbD_eq_getElem]
  · rw [dif_neg hF]
    by_cases hE : i - 52 < 11
    · rw [dif_pos hE, Nat.add_sub_cancel' (by omega), BitVec.getLsbD_eq_getElem]
    · rw [dif_neg hE, show 52 + 11 + (i - 52 - 11) = i by omega,
        BitVec.getLsbD_eq_getElem]

/-! ## §3. Magnitudes of fields. -/

/-- The mantissa: the fraction, with a leading bit on all but the smallest
numbers. -/
def fieldMantissa (E : BitVec 11) (F : BitVec 52) : Nat :=
  if E = 0#11 then F.toNat else 2 ^ 52 + F.toNat

/-- The exponent of the mantissa's last bit. -/
def fieldExponent (E : BitVec 11) : Int :=
  if E = 0#11 then -1074 else (E.toNat : Int) - 1075

theorem toNat_leadingBit (F : BitVec 52) :
    (1#1 ++ F).toNat = 2 ^ 52 + F.toNat := by
  rw [BitVec.toNat_append, BitVec.toNat_ofNat, Nat.shiftLeft_eq,
    Nat.mod_eq_of_lt (by decide), Nat.one_mul, Nat.or_comm,
    Nat.or_two_pow_eq_add_of_lt F.isLt, Nat.add_comm]

section fields

variable {E : BitVec 11} {F : BitVec 52}

theorem stored_fields (hE : E ≠ -1#11) (h : 0 < fieldMantissa E F) :
    Stored (fieldMantissa E F) (fieldExponent E) := by
  have hEn : E.toNat ≠ 2047 := fun h => hE (BitVec.eq_of_toNat_eq h)
  have hElt := E.isLt
  have hFlt := F.isLt
  rw [stored_iff]
  unfold fieldMantissa fieldExponent at *
  -- an exponent field of zero is the smallest exponent, without a leading bit
  by_cases h0 : E = 0#11
  · rw [if_pos h0] at h ⊢
    rw [if_pos h0]
    omega
  · have hE0 : E.toNat ≠ 0 := fun h => h0 (BitVec.eq_of_toNat_eq h)
    rw [if_neg h0, if_neg h0]
    omega

theorem unpack_fields (s : Sign) (hE : E ≠ -1#11) (h : 0 < fieldMantissa E F) :
    unpack Format.binary64 (ofFields s E F)
      = .finite s (fieldMantissa E F) (fieldExponent E) h := by
  have hbias : (Format.binary64.exponentBias : Int) = 1023 := rfl
  unfold unpack
  simp only [unpackMantissa_packComponents, unpackExponent_packComponents,
    unpackSign_ofFields, if_neg hE]
  unfold fieldMantissa fieldExponent at *
  by_cases h0 : E = 0#11
  · rw [if_pos h0] at h
    have hF : F ≠ 0#52 := by
      rintro rfl
      exact absurd h (by decide)
    rw [if_pos h0, dif_neg hF]
    simp only [h0, hbias]
    rfl
  · simp only [if_neg h0, toNat_leadingBit, hbias]
    rfl

theorem pack_fields (s : Sign) (hE : E ≠ -1#11) (h : 0 < fieldMantissa E F) :
    pack Format.binary64 (.finite s (fieldMantissa E F) (fieldExponent E) h)
      = ofFields s E F := by
  have hEn : E.toNat ≠ 2047 := fun h => hE (BitVec.eq_of_toNat_eq h)
  have hElt := E.isLt
  have hFlt := F.isLt
  have hbias : (Format.binary64.exponentBias : Int) = 1023 := rfl
  unfold pack
  simp only [hbias]
  unfold fieldMantissa fieldExponent at *
  by_cases h0 : E = 0#11
  · -- a mantissa below the leading bit is packed as it is
    simp only [if_pos h0] at *
    have hlog : F.toNat.log2 < 52 := (Nat.log2_lt (by omega)).2 hFlt
    rw [if_neg (by decide), if_neg (by show ¬ _ = 53; omega), h0,
      BitVec.ofNat_toNat, BitVec.setWidth_eq]
  · -- the leading bit is dropped, and the bias restores the field
    have hE0 : E.toNat ≠ 0 := fun h => h0 (BitVec.eq_of_toNat_eq h)
    have hlog : (2 ^ 52 + F.toNat).log2 = 52 :=
      (Nat.log2_eq_iff (by omega)).2 ⟨by omega, by omega⟩
    have hexp : ((E.toNat : Int) - 1075 + 1023 + (52 : Nat)).toNat = E.toNat := by
      omega
    simp only [if_neg h0, hlog]
    rw [hexp, if_neg (by show ¬ 2048 ≤ _; omega), if_pos (by decide),
      BitVec.ofNat_toNat, BitVec.setWidth_eq]
    congr 1
    apply BitVec.eq_of_toNat_eq
    rw [BitVec.toNat_ofNat]
    omega

end fields

/-- The float of some fields is special, or it is finite. -/
theorem unpack_special (s : Sign) (E : BitVec 11) (F : BitVec 52) :
    (E = -1#11 ∧ F = 0#52 ∧ unpack Format.binary64 (ofFields s E F) = .infinity s)
    ∨ (E = -1#11 ∧ F ≠ 0#52 ∧ unpack Format.binary64 (ofFields s E F) = .notANumber)
    ∨ (E = 0#11 ∧ F = 0#52 ∧ unpack Format.binary64 (ofFields s E F) = .zero s)
    ∨ (E ≠ -1#11 ∧ 0 < fieldMantissa E F) := by
  unfold unpack
  simp only [unpackMantissa_packComponents, unpackExponent_packComponents,
    unpackSign_ofFields]
  by_cases hE : E = -1#11
  · by_cases hF : F = 0#52
    · exact .inl ⟨hE, hF, by rw [if_pos hE, if_pos hF]⟩
    · exact .inr (.inl ⟨hE, hF, by rw [if_pos hE, if_neg hF]⟩)
  · refine .inr (.inr ?_)
    by_cases h0 : E = 0#11
    · by_cases hF : F = 0#52
      · exact .inl ⟨h0, hF, by rw [if_neg hE, if_pos h0, dif_pos hF]⟩
      · refine .inr ⟨hE, ?_⟩
        unfold fieldMantissa
        rw [if_pos h0]
        exact Nat.pos_of_ne_zero fun h => hF (BitVec.eq_of_toNat_eq h)
    · refine .inr ⟨hE, ?_⟩
      unfold fieldMantissa
      rw [if_neg h0]
      omega

/-! ## §4. Unpacking and packing. -/

theorem pack_unpack (x : Float.Model) : Float.Model.pack x.unpack = x := by
  obtain ⟨bits, hvalid⟩ := x
  obtain ⟨s, E, F, hb⟩ := exists_fields bits.toBitVec
  have hpack : pack Format.binary64 (unpack Format.binary64 bits.toBitVec)
      = bits.toBitVec := by
    rw [hb]
    rcases unpack_special s E F with ⟨rfl, rfl, h⟩ | ⟨hE, hF, h⟩ | ⟨rfl, rfl, h⟩ | ⟨hE, hm⟩
    · rw [h]
      rfl
    · rw [h]
      -- only one NaN is a float, which is what `Format.Valid` says
      have hnan := hvalid.eq_packedNaN
      rw [hb] at hnan
      simp only [unpackMantissa_packComponents, unpackExponent_packComponents] at hnan
      exact (hnan hE hF).symm
    · rw [h]
      rfl
    · rw [unpack_fields s hE hm, pack_fields]
      exact hE
  unfold Float.Model.pack Float.Model.unpack
  congr 1
  rw [hpack]

/-- A finite float has the bits of some fields with its magnitude. -/
theorem fields_of_unpack {x : Float.Model} {s : Sign} {m : Nat} {e : Int}
    {h : 0 < m} (hx : x.unpack = .finite s m e h) :
    ∃ E F, E ≠ -1#11 ∧ fieldMantissa E F = m ∧ fieldExponent E = e := by
  obtain ⟨t, E, F, hb⟩ := exists_fields x.toBits.toBitVec
  unfold Float.Model.unpack at hx
  rw [hb] at hx
  -- an infinity, a NaN and a zero are not finite
  rcases unpack_special t E F with ⟨-, -, hu⟩ | ⟨-, -, hu⟩ | ⟨-, -, hu⟩ | ⟨hE, hm⟩
  · exact absurd (hu.symm.trans hx) (by simp)
  · exact absurd (hu.symm.trans hx) (by simp)
  · exact absurd (hu.symm.trans hx) (by simp)
  · rw [unpack_fields t hE hm] at hx
    injection hx with _ hm he
    exact ⟨E, F, hE, hm, he⟩

theorem stored_of_unpack {x : Float.Model} {s : Sign} {m : Nat} {e : Int}
    {h : 0 < m} (hx : x.unpack = .finite s m e h) : Stored m e := by
  obtain ⟨E, F, hE, rfl, rfl⟩ := fields_of_unpack hx
  exact stored_fields hE h

theorem unpack_pack {x : Float.Model} {s : Sign} {m : Nat} {e : Int}
    {h : 0 < m} (hx : x.unpack = .finite s m e h) (t : Sign) :
    (Float.Model.pack (.finite t m e h)).unpack = .finite t m e h := by
  obtain ⟨E, F, hE, rfl, rfl⟩ := fields_of_unpack hx
  show unpack Format.binary64 (pack Format.binary64 _) = _
  rw [pack_fields t hE h, unpack_fields t hE h]

end Trivariate.Numeric
