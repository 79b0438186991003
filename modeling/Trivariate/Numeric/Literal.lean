/-
  Trivariate.Numeric.Literal
  ──────────────────────────
  **NUMBERS READ FROM TEXT.**

  A decimal is digits, with a point before, between or behind them, and an
  optional exponent.  Two readers are built on it.  A literal of an
  expression is a signed decimal or a signed `Infinity`, and nothing else: no
  literal is NaN.  A coordinate may also be `inf`, `infinity` or `nan` in any
  letter case, and its reader says why a text is no number.

  Digits are the ASCII digits only.  Reading gives the nearest float.

  Main result:

      readDecimal?_toChars   what is written for a decimal is read as its
                             nearest float
-/
import Trivariate.Numeric.Numeral

namespace Trivariate.Numeric

/-! ## §1. Signs. -/

/-- Whether the text starts with a minus sign, and what follows its sign. -/
def splitSign : List Char → Bool × List Char
  | '-' :: cs => (true, cs)
  | '+' :: cs => (false, cs)
  | cs => (false, cs)

/-- The float with its sign turned when `negative`. -/
def withSign (negative : Bool) (x : Float) : Float :=
  if negative then -x else x

/-! ## §2. Decimals. -/

/-- The number that one or more digits spell. -/
def readCount? (cs : List Char) : Option Nat :=
  if cs ≠ [] ∧ cs.all Char.isDigit then some (Nat.ofDigitChars 10 cs 0) else none

/-- An exponent: nothing, which counts as zero, or `e` or `E`, an optional
sign and digits. -/
def readExponent? : List Char → Option Int
  | [] => some 0
  | c :: cs =>
      if c = 'e' ∨ c = 'E' then
        let (negative, digits) := splitSign cs
        (readCount? digits).map fun n => if negative then -(n : Int) else n
      else none

/-- The float that an unsigned decimal spells: digits with at most one point
among them, at least one digit, then the exponent. -/
def readDecimal? (cs : List Char) : Option Float :=
  let whole := cs.takeWhile Char.isDigit
  let (fraction, rest) :=
    match cs.dropWhile Char.isDigit with
    | '.' :: after => (after.takeWhile Char.isDigit, after.dropWhile Char.isDigit)
    | rest => ([], rest)
  if whole = [] ∧ fraction = [] then none
  else (readExponent? rest).map fun exponent =>
    nearestFloat (Nat.ofDigitChars 10 (whole ++ fraction) 0)
      (exponent - fraction.length)

/-- Digits are taken up to their end, and what follows them is left. -/
theorem span_digits {ds : List Char} (rest : List Char)
    (h : ∀ c ∈ ds, c.isDigit = true)
    (hr : ∀ c, rest.head? = some c → c.isDigit = false) :
    (ds ++ rest).takeWhile Char.isDigit = ds
      ∧ (ds ++ rest).dropWhile Char.isDigit = rest := by
  rw [List.takeWhile_append_of_pos h, List.dropWhile_append_of_pos h]
  cases rest with
  | nil => simp
  | cons c cs => simp [hr c rfl]

/-- What is written for a decimal is read as its nearest float. -/
theorem readDecimal?_toChars (d : Decimal) :
    readDecimal? d.toChars = some d.toFloat := by
  have hwhole : d.whole ≠ [] := Nat.toDigits_ne_nil
  by_cases h : d.places = 0
  · -- no point: all the characters are digits before it
    have hspan := span_digits [] (fun _ => d.isDigit_of_mem_whole) (by simp)
    have hdigits : Nat.ofDigitChars 10 d.whole 0 = d.digits := by
      rw [Decimal.whole, h, Nat.pow_zero, Nat.div_one,
        Nat.ofDigitChars_ten_toDigits]
    rw [List.append_nil] at hspan
    simp [readDecimal?, Decimal.toChars, h, hspan, hwhole, hdigits,
      readExponent?, Decimal.toFloat]
  · -- the point ends the first digits, the end of the text the second
    have hspan := span_digits ('.' :: d.fraction)
      (fun _ => d.isDigit_of_mem_whole) (by simp)
    have hspan' := span_digits [] (fun _ => d.isDigit_of_mem_fraction) (by simp)
    rw [List.append_nil] at hspan'
    simp [readDecimal?, Decimal.toChars, h, hspan, hspan', hwhole,
      readExponent?, Decimal.ofDigitChars_whole_fraction h,
      Decimal.length_fraction h, Decimal.toFloat]

/-! ## §3. Literals of an expression. -/

/-- The value of a numeric literal: an optional sign, then a decimal or the
word `Infinity`. -/
def literal? (text : String) : Option Float :=
  let (negative, body) := splitSign text.toList
  let magnitude? :=
    if body = "Infinity".toList then some infinity else readDecimal? body
  magnitude?.map (withSign negative)

example : literal? "-.5e+1" = some (-5) ∧ literal? "1." = some 1
    ∧ literal? "+Infinity" = some infinity := by decide +kernel

example : literal? "" = none ∧ literal? "." = none ∧ literal? "1e" = none
    ∧ literal? "+-1" = none ∧ literal? "inf" = none ∧ literal? "NaN" = none := by
  decide +kernel

/-! ## §4. Coordinates. -/

/-- Why a text is no number. -/
inductive NumberFault where
  | empty
  | malformed
  deriving Repr, DecidableEq

def NumberFault.message : NumberFault → String
  | .empty => "cannot parse float from empty string"
  | .malformed => "invalid float literal"

/-- The unsigned number a text spells, special values in any letter case. -/
def readMagnitude? (cs : List Char) : Option Float :=
  let lowered := cs.map Char.toLower
  if lowered = "inf".toList ∨ lowered = "infinity".toList then some infinity
  else if lowered = "nan".toList then some nan
  else readDecimal? cs

/-- The number a coordinate spells: an optional sign, then a decimal, an
infinity or a NaN. -/
def readNumber : List Char → Except NumberFault Float
  | [] => .error .empty
  | c :: cs =>
      let (negative, body) := splitSign (c :: cs)
      match readMagnitude? body with
      | some x => .ok (withSign negative x)
      | none => .error .malformed

end Trivariate.Numeric
