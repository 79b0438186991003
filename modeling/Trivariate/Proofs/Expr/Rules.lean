/-
  Trivariate.Proofs.Expr.Rules
  ────────────────────────────
  **WHERE AN OPERATION HAS A RULE.**

  Sums, and what is made of sums, are evaluated and differentiated by a rule
  for any number of operands; every other operation has a rule for the one
  count it takes.  Without a rule a value falls through to the arithmetic's
  `undefined` and a derivative to a NaN.

  The derivative of a sum of squares may be had by peeling: of the first
  operand the square is differentiated, of the others the sum of squares for
  their count.  What is differentiated on the way to a derivative need not be
  a part of the tree, then, but it has a rule too when the tree is well
  formed.  Which trees these are is said by `Differentiates`; that every call
  of the recursion is one of its steps is `deriveBy_congr`.

  Main results:

      apply_eq_undefined, nodeSlope_eq_nan   without a rule, and only then,
                                             value and derivative fall through
      valueIn_undefined       no value in a well-formed tree falls through
      diff_ne_nan             nor does its derivative
      wellFormed_of_reached   what is differentiated on the way is well formed
-/
import Mathlib.Logic.Relation
import Trivariate.Expr.Eval
import Trivariate.Proofs.Expr.Everywhere

namespace Trivariate

open Trivariate.Expr

/-! ## §1. Rules. -/

/-- Sums, and what is made of sums: they have a rule for any count. -/
def Op.ofSums : Op → Bool
  | .sumSquares _ => true
  | .distance _ => true
  | .sumExp => true
  | .logSumExp => true
  | _ => false

/-- Whether the operation has a rule for this many operands. -/
def Op.hasRule (op : Op) (count : Nat) : Bool :=
  op.ofSums || op.arity.accepts count

/-- An operation has a rule for every count it takes. -/
theorem Op.hasRule_of_accepts {op : Op} {count : Nat}
    (h : op.arity.accepts count = true) : op.hasRule count = true := by
  unfold Op.hasRule
  rw [h, Bool.or_true]

/-! ## §2. Values that fall through. -/

section apply

variable {α : Type} (A : Arithmetic α) {op : Op} {xs : List α}

/-- With a rule, the value does not depend on what stands for none. -/
theorem Op.apply_undefined (u : α) (h : op.hasRule xs.length = true) :
    op.apply { A with undefined := u } xs = op.apply A xs := by
  rcases Bool.or_eq_true_iff.1 h with hsums | hcount
  · cases op with
    | sumSquares w => rfl
    | distance w => rfl
    | sumExp => rfl
    | logSumExp => rfl
    | _ => exact Bool.noConfusion hsums
  · cases Op.shape_of_accepts hcount <;> rfl

/-- Without a rule, there is no value. -/
theorem Op.apply_eq_undefined (h : op.hasRule xs.length = false) :
    op.apply A xs = A.undefined := by
  -- the cases are the rows of the table of values
  fun_cases Op.apply A op xs with
  | case13 => rfl
  | _ => exact absurd h (by simp [Op.hasRule, Op.ofSums, Op.arity, Arity.accepts])

end apply

/-- A value does not depend on what stands for none, when every operation takes
as many operands as it has. -/
theorem Expr.valueIn_undefined {e : Expr} (h : e.WellFormed) {α : Type}
    (A : Arithmetic α) (u : α) (p : Point α) :
    e.valueIn { A with undefined := u } p = e.valueIn A p := by
  induction h with
  | const value => rfl
  | var v => rfl
  | @node op operands count _ ih =>
    have hvalues : operands.map (valueIn { A with undefined := u } p)
        = operands.map (valueIn A p) := List.map_congr_left ih
    rw [valueIn_node, valueIn_node, hvalues]
    refine Op.apply_undefined A u (Op.hasRule_of_accepts ?_)
    rwa [List.length_map]

/-! ## §3. Derivatives that fall through. -/

namespace Expr

theorem const_ne_nan {value : Float} (h : value.isNaN = false) :
    Expr.const value ≠ .const Numeric.nan := by
  intro heq
  injection heq with heq
  rw [heq] at h
  exact absurd h (by decide +kernel)

theorem node_ne_nan (op : Op) (operands : List Expr) :
    node op operands ≠ .const Numeric.nan :=
  Expr.noConfusion

theorem zero_ne_nan : zero ≠ .const Numeric.nan :=
  const_ne_nan (by decide +kernel)

/-- A nested sum of nodes is a node, or zero. -/
theorem nestedSum_ne_nan {term : Tangent → Expr}
    (h : ∀ t, term t ≠ .const Numeric.nan) (ts : List Tangent) :
    Tangent.nestedSum term ts ≠ .const Numeric.nan := by
  cases ts with
  | nil => exact zero_ne_nan
  | cons t ts =>
    cases ts with
    | nil => exact h t
    | cons u us => exact node_ne_nan _ _

theorem sumOfSquares_ne_nan (ts : List Tangent) :
    Tangent.sumOfSquares ts ≠ .const Numeric.nan :=
  nestedSum_ne_nan (fun _ => node_ne_nan _ _) ts

theorem sumOfExps_ne_nan (ts : List Tangent) :
    Tangent.sumOfExps ts ≠ .const Numeric.nan :=
  nestedSum_ne_nan (fun _ => node_ne_nan _ _) ts

/-- With a rule, the derivative of a node is not the constant NaN. -/
theorem nodeSlope_ne_nan {op : Op} {ts : List Tangent}
    (h : op.hasRule ts.length = true) :
    nodeSlope op ts ≠ .const Numeric.nan := by
  rcases Bool.or_eq_true_iff.1 h with hsums | hcount
  · cases op with
    | sumSquares w => exact sumOfSquares_ne_nan ts
    | distance w => exact node_ne_nan _ _
    | sumExp => exact sumOfExps_ne_nan ts
    | logSumExp => exact node_ne_nan _ _
    | _ => exact Bool.noConfusion hsums
  · cases Op.shape_of_accepts hcount with
    | sumSquares w ts => exact sumOfSquares_ne_nan ts
    | sumExp ts => exact sumOfExps_ne_nan ts
    | floor t => exact zero_ne_nan
    | ceil t => exact zero_ne_nan
    | _ => exact node_ne_nan _ _

/-- The derivative of a node is the constant NaN where there is no rule, and
only there. -/
theorem nodeSlope_eq_nan {op : Op} {ts : List Tangent} :
    nodeSlope op ts = .const Numeric.nan ↔ op.hasRule ts.length = false := by
  constructor
  · intro h
    by_contra hrule
    exact nodeSlope_ne_nan (eq_true_of_ne_false hrule) h
  · intro h
    -- the cases are the rows of the table of rules
    fun_cases Expr.nodeSlope op ts with
    | case13 => rfl
    | _ => exact absurd h (by simp [Op.hasRule, Op.ofSums, Op.arity, Arity.accepts])

/-- The derivative of a well-formed tree has been made by a rule. -/
theorem diff_ne_nan {e : Expr} (h : e.WellFormed) (v : Var) :
    e.diff v ≠ .const Numeric.nan := by
  cases h with
  | const value => exact zero_ne_nan
  | var u =>
    rw [diff_var]
    split
    · exact const_ne_nan (by decide +kernel)
    · exact zero_ne_nan
  | node count _ =>
    rw [diff_node_tangentOf]
    refine nodeSlope_ne_nan (Op.hasRule_of_accepts ?_)
    rwa [List.length_map]

end Expr

/-! ## §4. What is differentiated on the way. -/

/-- The operation that sums the squares of so many operands takes as many. -/
theorem Op.of_sumSquares? {count : Nat} {op : Op}
    (h : Op.sumSquares? count = some op) :
    (∃ w, op = .sumSquares w) ∧ op.arity.accepts count = true ∧ 2 ≤ count := by
  unfold Op.sumSquares? at h
  split at h
  case h_5 => exact absurd h (by simp)
  all_goals
    injection h with h
    subst h
    exact ⟨⟨_, rfl⟩, rfl, by decide⟩

namespace Expr

/-- On the way to the derivative of the first tree the second may be
differentiated: an operand, the square of an operand, the sum of squares of the
last operands, or the sum of exponentials under a logarithm. -/
inductive Differentiates : Expr → Expr → Prop where
  | operand {op : Op} {ds : List Expr} {d : Expr} (h : d ∈ ds) :
      Differentiates (.node op ds) d
  | square {op : Op} {ds : List Expr} {d : Expr} (h : d ∈ ds) :
      Differentiates (.node op ds) (.multiply d d)
  | squares {op rest : Op} {ds cs : List Expr} (h : cs <:+ ds)
      (hrest : Op.sumSquares? cs.length = some rest) :
      Differentiates (.node op ds) (.node rest cs)
  | exponentials {ds : List Expr} :
      Differentiates (.logSumExp ds) (.sumExp ds)

/-- What is differentiated for a well-formed tree is well formed. -/
theorem Differentiates.wellFormed {e d : Expr} (h : Differentiates e d)
    (he : e.WellFormed) : d.WellFormed := by
  cases h with
  | operand hd => exact (wellFormed_node.1 he).2 _ hd
  | square hd =>
    have hsquare := (wellFormed_node.1 he).2 _ hd
    exact .node rfl (by simp [hsquare])
  | squares hsuffix hrest =>
    refine .node (Op.of_sumSquares? hrest).2.1 ?_
    intro c hc
    exact (wellFormed_node.1 he).2 c (hsuffix.subset hc)
  | exponentials => exact .node rfl (wellFormed_node.1 he).2

/-- Also at the end of a chain of such trees. -/
theorem wellFormed_of_reached {e d : Expr}
    (h : Relation.ReflTransGen Differentiates e d) (he : e.WellFormed) :
    d.WellFormed := by
  induction h with
  | refl => exact he
  | tail _ step ih => exact step.wellFormed ih

end Expr

end Trivariate
