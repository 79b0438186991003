/-
  Trivariate.Proofs.Numeric.Readback
  ──────────────────────────────────
  **WHAT IS WRITTEN FOR A FLOAT IS READ AS THAT FLOAT.**

  A float that is not NaN is written as a sign and either a decimal or the
  name of infinity.  The decimal reads back, and the sign restores the float
  bit for bit, so that the two zeros stay apart.  NaN is read as NaN where it
  is a number at all, in coordinates.

  Main results:

      numeral_shape            the two forms of a written float
      mem_numeral              the characters of a written float
      literal?_constantText    a constant of an expression reads back
      readNumber_valueText     so does a value of a report
      constantText_inj         different constants have different texts
-/
import Trivariate.Proofs.Numeric.Language
import Trivariate.Proofs.Numeric.Rounding

namespace Trivariate.Numeric

open Float.Model (UnpackedFloat)
open Float.Model.UnpackedFloat

/-! ## §1. Signs. -/

/-- Whether a minus is written. -/
def isNegative : Sign → Bool
  | .negative => true
  | .positive => false

/-- A float from what it unpacks to. -/
theorem eq_of_unpack {x : Float} {u : UnpackedFloat}
    (h : x.toModel.unpack = u) : x = .ofModel (.pack u) := by
  rw [← h, pack_unpack]

/-- A finite float is its magnitude under its sign. -/
theorem withSign_magnitude {x : Float} {s : Sign} {m : Nat} {e : Int}
    {h : 0 < m} (hx : x.toModel.unpack = .finite s m e h) :
    withSign (isNegative s) (magnitude (stored_of_unpack hx)) = x := by
  refine Eq.trans ?_ (eq_of_unpack hx).symm
  cases s with
  | positive => rfl
  | negative =>
    show Float.ofModel
      (.pack (Float.Model.pack (.finite .positive m e h)).unpack.neg) = _
    rw [unpack_pack hx .positive]
    rfl

/-! ## §2. The two forms. -/

theorem isDigit_head_toChars (d : Decimal) :
    ∃ c cs, d.toChars = c :: cs ∧ c.isDigit = true := by
  have hwhole : d.whole ≠ [] := Nat.toDigits_ne_nil
  obtain ⟨c, cs, hcs⟩ := List.exists_cons_of_ne_nil hwhole
  have hc : c.isDigit = true := d.isDigit_of_mem_whole (hcs ▸ List.mem_cons_self)
  unfold Decimal.toChars
  rw [hcs]
  by_cases hp : d.places = 0
  · exact ⟨c, cs, by rw [if_pos hp], hc⟩
  · exact ⟨c, cs ++ '.' :: d.fraction, by rw [if_neg hp]; rfl, hc⟩

/-- A float that is not NaN is written as a sign and a decimal that reads as
its magnitude, or as a sign and the name of infinity. -/
theorem numeral_shape (infinityName : String) {x : Float} (h : x.isNaN = false) :
    ∃ s, (∃ d : Decimal, numeral infinityName x = signChars s ++ d.toChars
            ∧ withSign (isNegative s) d.toFloat = x)
        ∨ (numeral infinityName x = signChars s ++ infinityName.toList
            ∧ withSign (isNegative s) infinity = x) := by
  unfold numeral
  cases hx : x.toModel.unpack with
  | notANumber =>
    have hnan : x.isNaN = true := by
      show x.toModel.unpack.isNaN = true
      rw [hx]
      rfl
    exact absurd (h.symm.trans hnan) (by decide)
  | infinity s =>
    refine ⟨s, .inr ⟨rfl, ?_⟩⟩
    rw [eq_of_unpack hx]
    cases s <;> decide +kernel
  | zero s =>
    refine ⟨s, .inl ⟨⟨0, 0⟩, by cases s <;> rfl, ?_⟩⟩
    rw [eq_of_unpack hx]
    cases s <;> decide +kernel
  | finite s m e hm =>
    have hst := stored_of_unpack hx
    have habs : x.abs = magnitude hst := by
      show Float.ofModel (.pack x.toModel.unpack.abs) = _
      rw [hx]
      rfl
    refine ⟨s, .inl ⟨shortestDecimal x.abs m e, rfl, ?_⟩⟩
    rw [habs, toFloat_shortestDecimal, withSign_magnitude hx]

/-- A float is written with digits, a sign, a point, the letters of `NaN` and
those of the name of infinity. -/
theorem mem_numeral {infinityName : String} {x : Float} {c : Char}
    (h : c ∈ numeral infinityName x) :
    c.isDigit = true ∨ c ∈ ['-', '.', 'N', 'a'] ++ infinityName.toList := by
  have hsign : ∀ s : Sign, c ∈ signChars s → c ∈ ['-', '.', 'N', 'a'] := by
    intro s hs
    cases s with
    | negative => rw [List.mem_singleton.1 hs]; decide
    | positive => exact absurd hs List.not_mem_nil
  have hdecimal : ∀ d : Decimal, c ∈ d.toChars →
      c.isDigit = true ∨ c ∈ ['-', '.', 'N', 'a'] := by
    intro d hd
    unfold Decimal.toChars at hd
    split at hd
    next => exact .inl (d.isDigit_of_mem_whole hd)
    next =>
      rcases List.mem_append.1 hd with hw | hf
      · exact .inl (d.isDigit_of_mem_whole hw)
      · rcases List.mem_cons.1 hf with rfl | hf
        · exact .inr (by decide)
        · exact .inl (d.isDigit_of_mem_fraction hf)
  rw [List.mem_append]
  by_cases hnan : x.isNaN = true
  · have hletters : ['N', 'a', 'N'] ⊆ ['-', '.', 'N', 'a'] := by decide
    rw [numeral_of_nan hnan] at h
    exact .inr (.inl (hletters h))
  · obtain ⟨s, ⟨d, hchars, -⟩ | ⟨hchars, -⟩⟩ :=
      numeral_shape infinityName (by simpa using hnan)
    · rw [hchars] at h
      rcases List.mem_append.1 h with h | h
      · exact .inr (.inl (hsign s h))
      · exact (hdecimal d h).imp_right .inl
    · rw [hchars] at h
      rcases List.mem_append.1 h with h | h
      · exact .inr (.inl (hsign s h))
      · exact .inr (.inr h)

/-! ## §3. What reads back. -/

/-- What stands under a written sign is spelled there, with its sign. -/
theorem signed_signChars {Spells : List Char → Float → Prop} (s : Sign) {cs : List Char}
    {x : Float} (h : Spells cs x) :
    Signed withSign Spells (signChars s ++ cs) (withSign (isNegative s) x) := by
  cases s with
  | negative => exact .minus h
  | positive => exact .bare h

theorem spellsDecimal_toChars (d : Decimal) : SpellsDecimal d.toChars d.toFloat :=
  readDecimal?_eq_some.1 (readDecimal?_toChars d)

theorem literal?_constantText {x : Float} (h : x.isNaN = false) :
    literal? (constantText x) = some x := by
  have hchars : (constantText x).toList = numeral "Infinity" x :=
    String.toList_ofList
  rw [literal?_eq_some, hchars]
  obtain ⟨s, ⟨d, hd, hx⟩ | ⟨hinf, hx⟩⟩ := numeral_shape "Infinity" h
  · rw [hd, ← hx]
    exact signed_signChars s (.decimal (spellsDecimal_toChars d))
  · rw [hinf, ← hx]
    exact signed_signChars s .infinity

/-- There is one NaN. -/
theorem eq_nan_of_isNaN {x : Float} (h : x.isNaN = true) : x = nan := by
  unfold Float.isNaN Float.Model.isNaN UnpackedFloat.isNaN at h
  split at h
  next hu => exact eq_of_unpack hu
  next => exact absurd h (by simp)

/-- Every float reads back from what is written for it, a NaN as NaN. -/
theorem readNumber_valueText (x : Float) :
    readNumber (valueText x).toList = .ok x := by
  have hchars : (valueText x).toList = numeral "inf" x := String.toList_ofList
  rw [hchars]
  by_cases hnan : x.isNaN = true
  · rw [numeral_of_nan hnan, eq_nan_of_isNaN hnan]
    rfl
  · rw [readNumber_eq_ok]
    obtain ⟨s, ⟨d, hd, hx⟩ | ⟨hinf, hx⟩⟩ :=
      numeral_shape "inf" (by simpa using hnan)
    · rw [hd, ← hx]
      exact signed_signChars s (.decimal (spellsDecimal_toChars d))
    · rw [hinf, ← hx]
      exact signed_signChars s (.infinity (.inl rfl))

/-! ## §4. Different floats are written differently. -/

theorem constantText_of_nan {x : Float} (h : x.isNaN = true) :
    constantText x = "NaN" := by
  unfold constantText
  rw [numeral_of_nan h]

/-- What is written for a constant reads back, unless it is NaN. -/
theorem literal?_constantText_eq (x : Float) :
    literal? (constantText x) = if x.isNaN then none else some x := by
  by_cases hnan : x.isNaN = true
  · rw [if_pos hnan, constantText_of_nan hnan]
    decide +kernel
  · rw [if_neg hnan]
    exact literal?_constantText (by simpa using hnan)

/-- The text of a constant tells which float it is: the zeros have texts of
their own, and NaN has one that no literal has. -/
theorem constantText_inj {x y : Float} :
    constantText x = constantText y ↔ x = y := by
  constructor
  · intro h
    have hread : literal? (constantText x) = literal? (constantText y) := by rw [h]
    rw [literal?_constantText_eq, literal?_constantText_eq] at hread
    by_cases hx : x.isNaN = true
    · by_cases hy : y.isNaN = true
      · rw [eq_nan_of_isNaN hx, eq_nan_of_isNaN hy]
      · rw [if_pos hx, if_neg hy] at hread
        exact absurd hread (by simp)
    · by_cases hy : y.isNaN = true
      · rw [if_neg hx, if_pos hy] at hread
        exact absurd hread (by simp)
      · rw [if_neg hx, if_neg hy] at hread
        injection hread
  · intro h
    rw [h]

end Trivariate.Numeric
