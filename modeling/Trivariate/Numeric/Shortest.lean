/-
  Trivariate.Numeric.Shortest
  ───────────────────────────
  **THE FEWEST DIGITS THAT READ BACK.**

  Every finite float is a natural number times a power of two, and so has an
  exact decimal.  Its written form is the decimal with the fewest significant
  digits whose nearest float is the float again.  For each count of digits
  only the two neighbours of the exact value on that decimal grid come into
  question; the nearer is tried first, and of two equally near the upper one.

  Main result:

      toFloat_of_shortest?   what the search finds reads back
-/
import Trivariate.Numeric.Decimal

namespace Trivariate.Numeric

/-! ## §1. The exact decimal. -/

/-- The exact decimal of `mantissa * 2 ^ exponent`. -/
def exactDecimal (mantissa : Nat) : Int → Decimal
  | .ofNat k => ⟨mantissa * 2 ^ k, 0⟩
  | .negSucc k => ⟨mantissa * 5 ^ (k + 1), k + 1⟩

/-! ## §2. The search. -/

/-- The decimal `count * 10 ^ dropped / 10 ^ places`, trimmed. -/
def gridPoint (count dropped places : Nat) : Decimal :=
  if dropped ≤ places then .trimmed count (places - dropped)
  else ⟨count * 10 ^ (dropped - places), 0⟩

/-- The two neighbours of `d` with its last `dropped` digits dropped: the
nearer first, of two equally near the upper first. -/
def neighbours (d : Decimal) (dropped : Nat) : List Decimal :=
  let unit := 10 ^ dropped
  let lower := gridPoint (d.digits / unit) dropped d.places
  let upper := gridPoint (d.digits / unit + 1) dropped d.places
  if 2 * (d.digits % unit) < unit then [lower, upper] else [upper, lower]

/-- Seventeen significant digits tell any two floats apart. -/
def maxDigits : Nat := 17

/-- The first neighbour of `d`, over growing counts of significant digits,
whose nearest float is `target`. -/
def shortest? (target : Float) (d : Decimal) : Option Decimal :=
  let length := (Nat.toDigits 10 d.digits).length
  (List.range maxDigits).findSome? fun i =>
    (neighbours d (length - (i + 1))).find? (·.toFloat = target)

/-- The shortest decimal of `mantissa * 2 ^ exponent`, the magnitude of
`target`; the exact one should no short one read back. -/
def shortestDecimal (target : Float) (mantissa : Nat) (exponent : Int) :
    Decimal :=
  let exact := exactDecimal mantissa exponent
  (shortest? target exact).getD exact

/-! ## §3. What is found reads back. -/

theorem toFloat_of_shortest? {target : Float} {d r : Decimal}
    (h : shortest? target d = some r) : r.toFloat = target := by
  obtain ⟨_, _, _, _, h, _⟩ := List.findSome?_eq_some_iff.1 h
  simpa using List.find?_some h

example : shortestDecimal 0.1 0x1999999999999A (-56) = ⟨1, 1⟩ := by
  decide +kernel

/-- Halfway between two candidates the upper one is taken. -/
example : shortestDecimal (Float.ofBits 0x3E60000000000000) 0x10000000000000 (-77)
    = ⟨29802322387695313, 24⟩ := by
  decide +kernel

end Trivariate.Numeric
