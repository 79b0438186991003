/-
  Trivariate.Parse.Leaf
  ─────────────────────
  **WORDS THAT STAND FOR LEAVES.**

  In every notation a leaf is a variable's name or a numeric literal.  Flat
  text also has names for the constants zero, one and two.

  Main result:

      namedConstant?_eq_some   the five names, with what they name
-/
import Trivariate.Expr.Basic
import Trivariate.Numeric.Literal

namespace Trivariate.Parse

/-- The leaf that a word spells in every notation. -/
def leaf? (word : String) : Option Expr :=
  match Var.ofName? word with
  | some v => some (.var v)
  | none => (Numeric.literal? word).map .const

/-- The constant that a word names in flat text. -/
def namedConstant? (word : String) : Option Expr :=
  if word = "NULL" then some .zero
  else if word = "ONE" ∨ word = "one" then some .one
  else if word = "TWO" ∨ word = "two" then some .two
  else none

/-- The words that name a constant, each with the one it names: zero has one
name, and one and two have theirs in capital and in small letters. -/
theorem namedConstant?_eq_some {word : String} {e : Expr} :
    namedConstant? word = some e
      ↔ (word, e) ∈ [("NULL", Expr.zero), ("ONE", .one), ("one", .one),
          ("TWO", .two), ("two", .two)] := by
  unfold namedConstant?
  constructor
  · intro h
    split at h
    next hnull =>
      injection h with h
      simp [hnull, ← h]
    next =>
      split at h
      next hone =>
        injection h with h
        rcases hone with hone | hone <;> simp [hone, ← h]
      next =>
        split at h
        next htwo =>
          injection h with h
          rcases htwo with htwo | htwo <;> simp [htwo, ← h]
        next => exact absurd h (by simp)
  · intro h
    simp only [List.mem_cons, Prod.mk.injEq, List.not_mem_nil, or_false] at h
    rcases h with ⟨rfl, rfl⟩ | ⟨rfl, rfl⟩ | ⟨rfl, rfl⟩ | ⟨rfl, rfl⟩ | ⟨rfl, rfl⟩ <;> rfl

end Trivariate.Parse
