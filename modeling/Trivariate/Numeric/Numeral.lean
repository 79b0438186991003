/-
  Trivariate.Numeric.Numeral
  ──────────────────────────
  **THE WRITTEN FORM OF A FLOAT.**

  A finite float is written with the fewest digits that read back, never with
  an exponent and without a point on whole numbers; negative zero keeps its
  sign.  A NaN has no sign.  How an infinity is spelled depends on where the
  number stands: `Infinity` inside an expression, `inf` in a value or a
  point.

  Main result:

      numeral_of_nan   every NaN is written NaN, whatever the spelling
-/
import Trivariate.Numeric.Shortest

namespace Trivariate.Numeric

open Float.Model (UnpackedFloat)

/-! ## §1. Signs and special values. -/

/-- The float that is not a number. -/
def nan : Float := .ofModel (.pack .notANumber)

/-- Positive infinity. -/
def infinity : Float := .ofModel (.pack (.infinity .positive))

/-- A minus sign before what is negative, nothing before the rest. -/
def signChars : UnpackedFloat.Sign → List Char
  | .negative => ['-']
  | .positive => []

/-! ## §2. Writing. -/

/-- The characters of a float in which an infinity is spelled
`infinityName`. -/
def numeral (infinityName : String) (x : Float) : List Char :=
  match x.toModel.unpack with
  | .notANumber => ['N', 'a', 'N']
  | .infinity sign => signChars sign ++ infinityName.toList
  | .zero sign => signChars sign ++ ['0']
  | .finite sign mantissa exponent _ =>
      signChars sign ++ (shortestDecimal x.abs mantissa exponent).toChars

/-- A constant as it stands in an expression. -/
def constantText (x : Float) : String :=
  .ofList (numeral "Infinity" x)

/-- A value or a coordinate as it stands in a report. -/
def valueText (x : Float) : String :=
  .ofList (numeral "inf" x)

theorem numeral_of_nan {infinityName : String} {x : Float}
    (h : x.isNaN = true) : numeral infinityName x = ['N', 'a', 'N'] := by
  unfold Float.isNaN Float.Model.isNaN UnpackedFloat.isNaN at h
  unfold numeral
  split at h
  next hu => rw [hu]
  next => exact absurd h (by simp)

example : constantText (-0.0) = "-0" ∧ constantText 100 = "100" := by
  decide +kernel

example : constantText (-infinity) = "-Infinity" ∧ valueText infinity = "inf" := by
  decide +kernel

example : valueText (0.1 + 0.2) = "0.30000000000000004" := by decide +kernel

end Trivariate.Numeric
