/-
  Trivariate.Proofs.Expr.Expansion
  ────────────────────────────────
  **OPERATIONS WRITTEN OUT IN OTHERS.**

  A multiply-add is a product and a sum, and a sum of squares is a sum of
  products.  To expand a tree is to put these in their place, everywhere in the
  tree.  Both operations have rules of differentiation of their own, and these
  give what the rules for sums and products give, node for node.  It stays so
  inside of quotients, distances and exponentials, whose rules copy operands:
  what is copied is expanded once, before or after.

  Main results:

      everywhere_rebuild   what nodes made anew have everywhere
      everywhere_expand    which operations an expanded tree has
      diff_expandNode      an expanded node has the derivative of the node
      expand_keepsRules    the rules themselves make nothing to expand
      diff_expand          differentiating and expanding can be exchanged
-/
import Trivariate.Proofs.Expr.Peeling
import Trivariate.Proofs.Expr.Rewriting

namespace Trivariate

open Trivariate.Expr

namespace Expr

/-! ## §1. Rebuilding. -/

/-- The tree with each of its nodes made anew, from the leaves up. -/
def rebuild (make : Op → List Expr → Expr) : Expr → Expr :=
  fold .const .var make

section rebuild

variable (make : Op → List Expr → Expr)

@[simp] theorem rebuild_const (value : Float) :
    (const value).rebuild make = .const value := rfl

@[simp] theorem rebuild_var (v : Var) : (var v).rebuild make = .var v := rfl

@[simp] theorem rebuild_node (op : Op) (es : List Expr) :
    (node op es).rebuild make = make op (es.map (rebuild make)) :=
  fold_node ..

end rebuild

/-- A rebuilt tree has on all nodes what is made of nodes with fitting operand
counts. -/
theorem everywhere_rebuild {make : Op → List Expr → Expr}
    {P : Op → List Expr → Prop} {e : Expr} (h : e.WellFormed)
    (makes : ∀ op es, op.arity.accepts es.length = true →
      (∀ d ∈ es, d.Everywhere (.onNodes P)) → (make op es).Everywhere (.onNodes P)) :
    (e.rebuild make).Everywhere (.onNodes P) := by
  induction h with
  | const value => exact .const trivial
  | var v => exact .var trivial
  | @node op es count _ ih =>
    rw [rebuild_node]
    refine makes op _ (by rwa [List.length_map]) ?_
    intro d hd
    obtain ⟨e, he, rfl⟩ := List.mem_map.1 hd
    exact ih e he

/-! ## §2. Expanding. -/

/-- The square of a tree, as a product. -/
def square (e : Expr) : Expr := multiply e e

/-- A node with its operation written out, if it is a multiply-add or a sum of
squares; squares are added up to the right. -/
def expandNode : Op → List Expr → Expr
  | .mulAdd, [a, b, c] => add (multiply a b) c
  | .sumSquares _, e :: es => rightSum ((e :: es).map square)
  | op, es => .node op es

/-- The tree with its multiply-adds and its sums of squares written out. -/
def expand : Expr → Expr := rebuild expandNode

@[simp] theorem expand_node (op : Op) (es : List Expr) :
    (node op es).expand = expandNode op (es.map expand) :=
  rebuild_node ..

/-! ## §3. What is left. -/

/-- An operation that is not written out, on a count it takes. -/
def Kept (op : Op) (es : List Expr) : Prop :=
  op.arity.accepts es.length = true ∧ op ≠ .mulAdd ∧ ∀ w, op ≠ .sumSquares w

theorem kept_add (a b : Expr) : Kept .add [a, b] :=
  ⟨rfl, Op.noConfusion, fun _ => Op.noConfusion⟩

theorem kept_multiply (a b : Expr) : Kept .multiply [a, b] :=
  ⟨rfl, Op.noConfusion, fun _ => Op.noConfusion⟩

/-- A node that is not written out is kept. -/
theorem kept_of_rest {op : Op} {es : List Expr}
    (count : op.arity.accepts es.length = true)
    (hmulAdd : ∀ a b c, op = .mulAdd → es = [a, b, c] → False)
    (hsumSquares : ∀ w d ds, op = .sumSquares w → es = d :: ds → False) :
    Kept op es := by
  refine ⟨count, ?_, ?_⟩
  · rintro rfl
    obtain ⟨a, b, c, rfl⟩ := List.length_eq_three.1 (Arity.eq_of_accepts count)
    exact hmulAdd a b c rfl rfl
  · rintro w rfl
    cases es with
    | nil => cases w <;> exact absurd count (by decide)
    | cons d ds => exact hsumSquares w d ds rfl rfl

section written

variable {P : Op → List Expr → Prop} (hadd : ∀ a b, P .add [a, b])
  (hmultiply : ∀ a b, P .multiply [a, b])

include hmultiply in
theorem everywhere_square {e : Expr} (h : e.Everywhere (.onNodes P)) :
    (square e).Everywhere (.onNodes P) :=
  everywhere_pair (hmultiply e e) h h

include hadd hmultiply in
/-- What a multiply-add is written out to. -/
theorem everywhere_productSum {a b c : Expr}
    (h : ∀ e ∈ [a, b, c], e.Everywhere (.onNodes P)) :
    (add (multiply a b) c).Everywhere (.onNodes P) := by
  have hproduct : (multiply a b).Everywhere (.onNodes P) :=
    everywhere_pair (hmultiply a b) (h a (by simp)) (h b (by simp))
  exact everywhere_pair (hadd _ c) hproduct (h c (by simp))

include hadd in
theorem everywhere_rightSum {es : List Expr}
    (h : ∀ e ∈ es, e.Everywhere (.onNodes P)) :
    (rightSum es).Everywhere (.onNodes P) := by
  induction es with
  | nil => exact .const trivial
  | cons e es ih =>
    obtain ⟨he, hes⟩ := List.forall_mem_cons.1 h
    cases es with
    | nil => exact he
    | cons d ds => exact everywhere_pair (hadd _ _) he (ih hes)

end written

/-- An expanded tree has no multiply-add and no sum of squares, and its operand
counts fit. -/
theorem everywhere_expand {e : Expr} (h : e.WellFormed) :
    e.expand.Everywhere (.onNodes Kept) := by
  refine everywhere_rebuild h ?_
  intro op es count hes
  fun_cases expandNode op es with
  | case1 a b c => exact everywhere_productSum kept_add kept_multiply hes
  | case2 w d ds =>
    refine everywhere_rightSum kept_add ?_
    intro s hs
    obtain ⟨c, hc, rfl⟩ := List.mem_map.1 hs
    exact everywhere_square kept_multiply (hes c hc)
  | case3 op es hmulAdd hsumSquares =>
    exact .node (kept_of_rest count hmulAdd hsumSquares) hes

/-! ## §4. Derivatives of expanded nodes. -/

theorem diff_square (v : Var) (e : Expr) :
    (square e).diff v = squareSlope v e := by
  unfold square
  rw [diff_node]
  rfl

/-- A sum nested to the right is differentiated term by term. -/
theorem diff_rightSum (v : Var) (es : List Expr) :
    (rightSum es).diff v = rightSum (es.map (diff v)) := by
  induction es with
  | nil => rfl
  | cons e es ih =>
    cases es with
    | nil => rfl
    | cons d ds =>
      show (add e (rightSum (d :: ds))).diff v = _
      rw [diff_node]
      show add (e.diff v) ((rightSum (d :: ds)).diff v) = _
      rw [ih]
      rfl

/-- The rule for an operation gives the derivative of what the operation is
written out to. -/
theorem diff_expandNode (v : Var) (op : Op) (es : List Expr) :
    (expandNode op es).diff v = (node op es).diff v := by
  fun_cases expandNode op es with
  | case1 a b c =>
    -- the rule for the product, inside of that for the sum
    rw [diff_node, diff_node]
    show add ((multiply a b).diff v) (c.diff v) = _
    rw [diff_node]
    rfl
  | case2 w d ds =>
    have hsquares : ((d :: ds).map square).map (diff v)
        = (d :: ds).map (squareSlope v) := by
      rw [List.map_map]
      exact List.map_congr_left fun e _ => diff_square v e
    calc (rightSum ((d :: ds).map square)).diff v
        = rightSum ((d :: ds).map (squareSlope v)) := by
          rw [diff_rightSum, hsquares]
      _ = Tangent.sumOfSquares ((d :: ds).map (tangentOf v)) :=
          (sumOfSquares_tangentOf v _).symm
      _ = (node (.sumSquares w) (d :: ds)).diff v := by
          rw [diff_node_tangentOf]
          rfl
  | case3 op es => rfl

/-! ## §5. The exchange. -/

/-- The rules make no multiply-add and no sum of squares. -/
theorem expand_keepsRules : KeepsRules expand where
  zero := rfl
  two := rfl
  nan := rfl
  add _ _ := rfl
  subtract _ _ := rfl
  multiply _ _ := rfl
  divide _ _ := rfl
  negate _ := rfl
  distance _ _ := expand_node ..
  sumExp _ := expand_node ..

/-- Differentiating and expanding can be exchanged, whatever the operand
counts. -/
theorem diff_expand (e : Expr) (v : Var) :
    e.expand.diff v = (e.diff v).expand := by
  induction e with
  | const value => rfl
  | var u =>
    show (var u).diff v = ((var u).diff v).expand
    rw [diff_var]
    split <;> rfl
  | node op es ih =>
    calc (node op es).expand.diff v
        = (expandNode op (es.map expand)).diff v := by rw [expand_node]
      _ = (node op (es.map expand)).diff v := diff_expandNode v op _
      _ = ((node op es).diff v).expand := expand_keepsRules.diff_node op ih

end Expr

end Trivariate
