/-
  Trivariate.Proofs.Parse.Leaf
  ────────────────────────────
  **WHICH WORDS ARE LEAVES.**

  A leaf is a variable's name or a numeric literal.  No name is a literal, so
  a word is at most one of the two, and no token of an operation is either of
  them: `-` alone is no number.  Hence it does not matter in which order a
  reader of words asks for leaves and for operations.

  Main results:

      leaf?_eq_some         the words of each leaf
      leaf?_token           an operation's token is no leaf
      ofToken?_of_leaf?     and a leaf is no operation
-/
import Trivariate.Parse.Leaf

namespace Trivariate.Parse

open Trivariate.Numeric (literal?)

/-! ## §1. Names and literals. -/

theorem literal?_name (v : Var) : literal? v.name = none := by
  cases v <;> decide +kernel

theorem literal?_token (op : Op) : literal? op.token = none := by
  have h : ∀ op ∈ Op.all, literal? op.token = none := by decide +kernel
  exact h op op.mem_all

theorem ofName?_token (op : Op) : Var.ofName? op.token = none := by
  have h : ∀ op ∈ Op.all, Var.ofName? op.token = none := by decide
  exact h op op.mem_all

/-- A literal is not a variable's name. -/
theorem ofName?_of_literal? {word : String} {value : Float}
    (h : literal? word = some value) : Var.ofName? word = none := by
  cases hv : Var.ofName? word with
  | none => rfl
  | some v =>
    have hname : v.name = word := Var.ofName?_eq_some.1 hv
    rw [← hname, literal?_name] at h
    exact absurd h (by simp)

/-! ## §2. Leaves. -/

theorem leaf?_name (v : Var) : leaf? v.name = some (.var v) := by
  unfold leaf?
  rw [Var.ofName?_eq_some.2 rfl]

theorem leaf?_literal {word : String} {value : Float}
    (h : literal? word = some value) : leaf? word = some (.const value) := by
  unfold leaf?
  rw [ofName?_of_literal? h, h]
  rfl

/-- A word that is a leaf is a variable's name or a literal. -/
theorem leaf?_eq_some {word : String} {e : Expr} :
    leaf? word = some e ↔
      (∃ v : Var, v.name = word ∧ e = .var v)
        ∨ ∃ value, literal? word = some value ∧ e = .const value := by
  constructor
  · intro h
    unfold leaf? at h
    cases hv : Var.ofName? word with
    | some v =>
      rw [hv] at h
      injection h with h
      exact .inl ⟨v, Var.ofName?_eq_some.1 hv, h.symm⟩
    | none =>
      rw [hv] at h
      obtain ⟨value, hvalue, he⟩ := Option.map_eq_some_iff.1 h
      exact .inr ⟨value, hvalue, he.symm⟩
  · rintro (⟨v, rfl, rfl⟩ | ⟨value, h, rfl⟩)
    · exact leaf?_name v
    · exact leaf?_literal h

/-! ## §3. Words that are no leaf. -/

theorem leaf?_token (op : Op) : leaf? op.token = none := by
  unfold leaf?
  rw [ofName?_token, literal?_token]
  rfl

/-- A leaf is no operation's token. -/
theorem ofToken?_of_leaf? {word : String} {e : Expr} (h : leaf? word = some e) :
    Op.ofToken? word = none := by
  cases hop : Op.ofToken? word with
  | none => rfl
  | some op =>
    have htoken : op.token = word := Op.ofToken?_eq_some.1 hop
    rw [← htoken, leaf?_token] at h
    exact absurd h (by simp)

/-- The parentheses are neither leaves nor operations. -/
theorem leaf?_parenthesis :
    leaf? "(" = none ∧ leaf? ")" = none := by
  decide +kernel

theorem token_ne_parenthesis (op : Op) : op.token ≠ "(" ∧ op.token ≠ ")" := by
  have h : ∀ op ∈ Op.all, op.token ≠ "(" ∧ op.token ≠ ")" := by decide
  exact h op op.mem_all

end Trivariate.Parse
