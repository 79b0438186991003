/-
  Trivariate.Proofs.Value.Summation
  ─────────────────────────────────
  **SUMS ARE ADDED UP FROM THE LEFT.**

  Addition of floats is not associative, so that a sum of several terms has a
  value only with an order.  It is that of binary additions nested to the left.
  They begin with the first term, while a sum begins with the arithmetic's empty
  sum; this makes no difference where the empty sum adds nothing, as negative
  zero does among floats.  A multiply-add is rounded twice, like a product and a
  sum.  So all of these can be written in binary additions, everywhere in a tree,
  and its value stays the same to the last bit.

  Main results:

      valueIn_rebuild       nodes made anew with the same values keep all values
      valueIn_binaryNode    a node in binary additions has the node's value
      everywhere_binary     which operations are left
      evaluate_binary       a tree in binary additions has the tree's value
-/
import Trivariate.Proofs.Expr.Expansion
import Trivariate.Proofs.Numeric.Special

namespace Trivariate

open Trivariate.Expr

namespace Expr

/-! ## §1. Binary additions. -/

/-- The terms added up, nested to the left. -/
def leftSum (e : Expr) (es : List Expr) : Expr :=
  es.foldl add e

/-- The exponential of a tree, as the sum of one exponential. -/
def exponential (e : Expr) : Expr := sumExp [e]

/-- A node in binary additions: a multiply-add, a sum of squares and a sum of
exponentials are written out, the latter two with additions nested to the left.
An empty sum has no terms to add. -/
def binaryNode : Op → List Expr → Expr
  | .mulAdd, [a, b, c] => add (multiply a b) c
  | .sumSquares _, e :: es => leftSum (square e) (es.map square)
  | .sumExp, e :: es => leftSum (exponential e) (es.map exponential)
  | op, es => .node op es

/-- The tree in binary additions; distances and logarithms of sums stay as they
are, on operands in binary additions. -/
def binary : Expr → Expr := rebuild binaryNode

/-! ## §2. Values. -/

section value

variable {α : Type} (A : Arithmetic α) (p : Point α)

/-- Nodes made anew with the same values keep the values of all trees. -/
theorem valueIn_rebuild {make : Op → List Expr → Expr}
    (h : ∀ op es, (make op es).valueIn A p = (node op es).valueIn A p) (e : Expr) :
    (e.rebuild make).valueIn A p = e.valueIn A p := by
  induction e with
  | const value => rfl
  | var v => rfl
  | node op es ih =>
    rw [rebuild_node, h, valueIn_node, valueIn_node, List.map_map]
    exact congrArg (op.apply A) (List.map_congr_left ih)

theorem valueIn_leftSum (es : List Expr) : ∀ e : Expr,
    (leftSum e es).valueIn A p
      = (es.map (valueIn A p)).foldl A.add (e.valueIn A p) := by
  induction es with
  | nil => intro e; rfl
  | cons d ds ih =>
    intro e
    -- the first addition becomes the start of the others
    show (leftSum (add e d) ds).valueIn A p = _
    rw [ih]
    rfl

variable {A} (hA : ∀ a, A.add A.emptySum a = a)

include hA

/-- Where the empty sum adds nothing, a sum begins with its first term. -/
theorem sum_cons (a : α) (values : List α) :
    A.sum (a :: values) = values.foldl A.add a := by
  unfold Arithmetic.sum
  rw [List.foldl_cons, hA]

/-- The sum of some terms of the operands is that of the binary additions. -/
theorem valueIn_leftSum_terms (term : Expr → Expr) (f : α → α)
    (hterm : ∀ e, (term e).valueIn A p = f (e.valueIn A p)) (e : Expr) (es : List Expr) :
    (leftSum (term e) (es.map term)).valueIn A p
      = A.sum (((e :: es).map (valueIn A p)).map f) := by
  have hterms : (es.map term).map (valueIn A p) = (es.map (valueIn A p)).map f := by
    rw [List.map_map, List.map_map]
    exact List.map_congr_left fun e _ => hterm e
  rw [valueIn_leftSum, hterms, hterm, List.map_cons, List.map_cons, sum_cons hA]

theorem valueIn_exponential (e : Expr) :
    (exponential e).valueIn A p = A.exp (e.valueIn A p) := by
  show A.sum [A.exp (e.valueIn A p)] = _
  rw [sum_cons hA]
  rfl

/-- A node in binary additions has the value of the node. -/
theorem valueIn_binaryNode (op : Op) (es : List Expr) :
    (binaryNode op es).valueIn A p = (node op es).valueIn A p := by
  rw [valueIn_node]
  -- only in the sums is it used that the empty sum adds nothing
  fun_cases binaryNode op es with
  | case1 a b c => rfl
  | case2 w e es =>
    exact valueIn_leftSum_terms p hA square (fun a => A.multiply a a) (fun _ => rfl) e es
  | case3 e es =>
    exact valueIn_leftSum_terms p hA exponential A.exp (valueIn_exponential p hA) e es
  | case4 op es => exact valueIn_node ..

end value

/-! ## §3. What is left. -/

/-- An operation that is neither a multiply-add nor a sum of several terms, on a
count it takes. -/
def Binary (op : Op) (es : List Expr) : Prop :=
  Kept op es ∧ (op = .sumExp → es.length ≤ 1)

theorem binary_add (a b : Expr) : Binary .add [a, b] :=
  ⟨kept_add a b, Op.noConfusion⟩

theorem binary_multiply (a b : Expr) : Binary .multiply [a, b] :=
  ⟨kept_multiply a b, Op.noConfusion⟩

theorem binary_exponential (e : Expr) : Binary .sumExp [e] :=
  ⟨⟨rfl, Op.noConfusion, fun _ => Op.noConfusion⟩, fun _ => Nat.le_refl 1⟩

theorem everywhere_leftSum {P : Op → List Expr → Prop} (hadd : ∀ a b, P .add [a, b])
    (es : List Expr) : ∀ e : Expr, (∀ d ∈ e :: es, d.Everywhere (.onNodes P)) →
      (leftSum e es).Everywhere (.onNodes P) := by
  induction es with
  | nil => intro e h; exact h e (by simp)
  | cons d ds ih =>
    intro e h
    obtain ⟨he, hes⟩ := List.forall_mem_cons.1 h
    obtain ⟨hd, hds⟩ := List.forall_mem_cons.1 hes
    refine ih (add e d) (List.forall_mem_cons.2 ⟨?_, hds⟩)
    exact everywhere_pair (hadd e d) he hd

theorem everywhere_leftSum_terms {term : Expr → Expr} {e : Expr} {es : List Expr}
    (hterm : ∀ d ∈ e :: es, (term d).Everywhere (.onNodes Binary)) :
    (leftSum (term e) (es.map term)).Everywhere (.onNodes Binary) := by
  refine everywhere_leftSum binary_add _ _ ?_
  rw [← List.map_cons]
  intro s hs
  obtain ⟨d, hd, rfl⟩ := List.mem_map.1 hs
  exact hterm d hd

/-- A tree in binary additions has no multiply-add, no sum of squares and no sum
of several exponentials, and its operand counts fit. -/
theorem everywhere_binary {e : Expr} (h : e.WellFormed) :
    e.binary.Everywhere (.onNodes Binary) := by
  refine everywhere_rebuild h ?_
  intro op es count hes
  fun_cases binaryNode op es with
  | case1 a b c => exact everywhere_productSum binary_add binary_multiply hes
  | case2 w d ds =>
    exact everywhere_leftSum_terms fun c hc =>
      everywhere_square binary_multiply (hes c hc)
  | case3 d ds =>
    exact everywhere_leftSum_terms fun c hc =>
      everywhere_single (binary_exponential c) (hes c hc)
  | case4 op es hmulAdd hsumSquares hsumExp =>
    refine .node ⟨kept_of_rest count hmulAdd hsumSquares, ?_⟩ hes
    -- only the empty sum of exponentials is left in place
    rintro rfl
    cases es with
    | nil => exact Nat.zero_le 1
    | cons d ds => exact (hsumExp d ds rfl rfl).elim

/-! ## §4. Floats. -/

/-- A tree in binary additions has the same value as the tree, at every point and
to the last bit. -/
theorem evaluate_binary (e : Expr) (p : Point Float) :
    e.binary.evaluate p = e.evaluate p :=
  valueIn_rebuild .binary64 p (valueIn_binaryNode p Numeric.negZero_add) e

end Expr

end Trivariate
