/-
  Trivariate.Text.Blank
  ─────────────────────
  **BLANK CHARACTERS.**

  The characters that separate words: the Unicode property White_Space, 25
  code points in ten ranges.  Nothing else separates words (a zero-width
  space, for one, is part of a word).

  Main results:

      trim_eq_self      a text with no blank at its ends is left alone
      trim_blank_cons   a blank before a text does not count
-/

namespace Trivariate.Text

/-! ## §1. The table. -/

/-- Closed ranges of code points, ascending and apart. -/
def blankRanges : List (Nat × Nat) :=
  [(0x09, 0x0D), (0x20, 0x20), (0x85, 0x85), (0xA0, 0xA0), (0x1680, 0x1680),
   (0x2000, 0x200A), (0x2028, 0x2029), (0x202F, 0x202F), (0x205F, 0x205F),
   (0x3000, 0x3000)]

/-- A character that separates words. -/
def isBlank (c : Char) : Bool :=
  blankRanges.any fun r => r.1 ≤ c.toNat && c.toNat ≤ r.2

/-- The table holds 25 code points. -/
example : (blankRanges.map fun r => r.2 + 1 - r.1).sum = 25 := by decide

/-- Letters, parentheses and the zero-width space are not blank. -/
example : isBlank 'x' = false ∧ isBlank '(' = false
    ∧ isBlank '\u200b' = false := by decide

/-! ## §2. Trimming. -/

/-- The text without the blanks at its two ends. -/
def trim (cs : List Char) : List Char :=
  ((cs.dropWhile isBlank).reverse.dropWhile isBlank).reverse

/-- A text that begins and ends with a character that is not blank is left
alone. -/
theorem trim_eq_self {c d : Char} {cs ds : List Char}
    (hc : isBlank c = false) (hd : isBlank d = false)
    (h : c :: cs = ds ++ [d]) : trim (c :: cs) = c :: cs := by
  have hdrop : (c :: cs).dropWhile isBlank = c :: cs := by
    simp [List.dropWhile, hc]
  rw [trim, hdrop, h]
  simp [hd]

/-- A text without blanks is left alone. -/
theorem trim_of_no_blank {cs : List Char} (h : ∀ c ∈ cs, isBlank c = false) :
    trim cs = cs := by
  cases cs with
  | nil => rfl
  | cons c cs =>
    have hlast := List.dropLast_concat_getLast (List.cons_ne_nil c cs)
    exact trim_eq_self (h c List.mem_cons_self) (h _ (List.getLast_mem _)) hlast.symm

/-- A blank before a text does not count. -/
theorem trim_blank_cons {c : Char} (h : isBlank c = true) (cs : List Char) :
    trim (c :: cs) = trim cs := by
  simp [trim, List.dropWhile, h]

end Trivariate.Text
