/-
  Trivariate.Proofs.Expr.Accepted
  ───────────────────────────────
  **OPERATIONS WITH AS MANY OPERANDS AS THEY TAKE.**

  An accepted count leaves one shape of operand list to each operation.  A
  proof about well-formed nodes goes by cases on the shape and never looks at
  the rows of a table that do not apply.

  Main results:

      Op.shape_of_accepts   the shapes are all there is
      Op.arity_eq_fixed     which operations take a fixed number
-/
import Mathlib.Data.List.Basic
import Trivariate.Operation

namespace Trivariate

/-- An operation beside operands of a count it takes. -/
inductive Op.Shape {α : Type} : Op → List α → Prop where
  | add (a b : α) : Shape .add [a, b]
  | subtract (a b : α) : Shape .subtract [a, b]
  | multiply (a b : α) : Shape .multiply [a, b]
  | divide (a b : α) : Shape .divide [a, b]
  | negate (a : α) : Shape .negate [a]
  | sumSquares (w : Width) (xs : List α) (count : xs.length = w.toNat) :
      Shape (.sumSquares w) xs
  | distance (w : Width) (xs : List α) (count : xs.length = w.toNat) :
      Shape (.distance w) xs
  | sumExp (xs : List α) : Shape .sumExp xs
  | logSumExp (xs : List α) : Shape .logSumExp xs
  | floor (a : α) : Shape .floor [a]
  | ceil (a : α) : Shape .ceil [a]
  | mulAdd (a b c : α) : Shape .mulAdd [a, b, c]

theorem Arity.eq_of_accepts {n count : Nat}
    (h : (Arity.fixed n).accepts count = true) : count = n :=
  (beq_iff_eq.1 h).symm

theorem Op.shape_of_accepts {α : Type} {op : Op} {xs : List α}
    (h : op.arity.accepts xs.length = true) : op.Shape xs := by
  cases op with
  | sumSquares w => exact .sumSquares w xs (Arity.eq_of_accepts h)
  | distance w => exact .distance w xs (Arity.eq_of_accepts h)
  | sumExp => exact .sumExp xs
  | logSumExp => exact .logSumExp xs
  | mulAdd =>
    obtain ⟨a, b, c, rfl⟩ := List.length_eq_three.1 (Arity.eq_of_accepts h)
    exact .mulAdd a b c
  | negate =>
    obtain ⟨a, rfl⟩ := List.length_eq_one_iff.1 (Arity.eq_of_accepts h)
    exact .negate a
  | floor =>
    obtain ⟨a, rfl⟩ := List.length_eq_one_iff.1 (Arity.eq_of_accepts h)
    exact .floor a
  | ceil =>
    obtain ⟨a, rfl⟩ := List.length_eq_one_iff.1 (Arity.eq_of_accepts h)
    exact .ceil a
  | add =>
    obtain ⟨a, b, rfl⟩ := List.length_eq_two.1 (Arity.eq_of_accepts h)
    exact .add a b
  | subtract =>
    obtain ⟨a, b, rfl⟩ := List.length_eq_two.1 (Arity.eq_of_accepts h)
    exact .subtract a b
  | multiply =>
    obtain ⟨a, b, rfl⟩ := List.length_eq_two.1 (Arity.eq_of_accepts h)
    exact .multiply a b
  | divide =>
    obtain ⟨a, b, rfl⟩ := List.length_eq_two.1 (Arity.eq_of_accepts h)
    exact .divide a b

/-- Only the sum of exponentials and its logarithm take any number of
operands. -/
theorem Op.arity_eq_fixed {op : Op} (h : op ≠ .sumExp ∧ op ≠ .logSumExp)
    {count : Nat} (hcount : op.arity.accepts count = true) :
    op.arity = .fixed count := by
  cases harity : op.arity with
  | variadic =>
    cases op with
    | sumExp => exact absurd rfl h.1
    | logSumExp => exact absurd rfl h.2
    | _ => exact absurd harity (by simp [Op.arity])
  | fixed needed =>
    rw [harity] at hcount
    rw [Arity.eq_of_accepts hcount]

end Trivariate
