/-
  Trivariate.Proofs.Expr.Growth
  ─────────────────────────────
  **HOW LARGE A DERIVATIVE IS.**

  A rule copies the operands of its node a few times and takes their derivatives
  once; only in a sum of squares, and so in a distance, it takes them twice.  A
  derivative is therefore at most quadratic in the size of the tree, but for a
  factor of two for each sum of squares or distance on the way to a leaf.  A sum of
  many terms is nested to the right: what is wide becomes deep, and the depth of a
  derivative is at most linear in the size of the tree.

  Main results:

      size_nodeSlope_le      the size of what a rule makes
      depth_nodeSlope_le     its depth
      size_depth_diff_le     the size and the depth of a derivative
-/
import Mathlib.Algebra.Order.BigOperators.Group.List
import Mathlib.Data.List.MinMax
import Mathlib.Tactic.GCongr
import Mathlib.Tactic.Ring
import Trivariate.Proofs.Expr.Everywhere

namespace Trivariate

open Trivariate.Expr

/-! ## §1. Sizes. -/

namespace Expr

theorem size_node_sum (op : Op) (es : List Expr) :
    (node op es).size = 1 + (es.map size).sum :=
  size_node ..

theorem size_single (op : Op) (a : Expr) : (node op [a]).size = 1 + a.size :=
  size_node ..

theorem size_pair (op : Op) (a b : Expr) :
    (node op [a, b]).size = 1 + a.size + b.size := by
  rw [size_node]
  exact (Nat.add_assoc ..).symm

theorem size_const (value : Float) : (const value).size = 1 := rfl

theorem size_pos (e : Expr) : 0 < e.size := by
  cases e with
  | const value => exact Nat.one_pos
  | var v => exact Nat.one_pos
  | node op es =>
    rw [size_node_sum]
    omega

theorem depth_single (op : Op) (a : Expr) : (node op [a]).depth = 1 + a.depth := by
  rw [depth_node]
  exact congrArg (1 + ·) (Nat.max_zero _)

theorem depth_pair (op : Op) (a b : Expr) :
    (node op [a, b]).depth = 1 + max a.depth b.depth := by
  rw [depth_node]
  exact congrArg (fun n => 1 + max a.depth n) (Nat.max_zero _)

theorem depth_const (value : Float) : (const value).depth = 1 := rfl

/-- A tree is no deeper than it is large. -/
theorem depth_le_size (e : Expr) : e.depth ≤ e.size := by
  induction e with
  | const value => exact Nat.le_refl 1
  | var v => exact Nat.le_refl 1
  | node op es ih =>
    have hdeepest : (es.map depth).foldr max 0 ≤ (es.map size).sum := by
      refine List.max_le_of_forall_le _ _ ?_
      intro n hn
      obtain ⟨e, he, rfl⟩ := List.mem_map.1 hn
      calc e.depth ≤ e.size := ih e he
        _ ≤ (es.map size).sum :=
          List.single_le_sum (fun _ _ => Nat.zero_le _) _ (List.mem_map_of_mem he)
    rw [depth_node, size_node_sum]
    omega

end Expr

/-! ## §2. Sums of squares on the way to a leaf. -/

/-- One for a sum of squares and for a distance, which is made of one; zero for the
other operations. -/
def Op.squares : Op → Nat
  | .sumSquares _ => 1
  | .distance _ => 1
  | _ => 0

namespace Expr

/-- The largest number of sums of squares and distances on a way from the root to a
leaf. -/
def squareDepth : Expr → Nat :=
  fold (fun _ => 0) (fun _ => 0) fun op depths => op.squares + depths.foldr max 0

@[simp] theorem squareDepth_node (op : Op) (es : List Expr) :
    (node op es).squareDepth = op.squares + (es.map squareDepth).foldr max 0 :=
  fold_node ..

end Expr

/-! ## §3. The size of what a rule makes. -/

namespace Tangent

/-- The sizes of the operands, added up. -/
def baseSize (ts : List Tangent) : Nat :=
  (ts.map fun t => t.base.size).sum

/-- The sizes of their derivatives, added up. -/
def slopeSize (ts : List Tangent) : Nat :=
  (ts.map fun t => t.slope.size).sum

@[simp] theorem baseSize_cons (t : Tangent) (ts : List Tangent) :
    baseSize (t :: ts) = t.base.size + baseSize ts := rfl

@[simp] theorem slopeSize_cons (t : Tangent) (ts : List Tangent) :
    slopeSize (t :: ts) = t.slope.size + slopeSize ts := rfl

theorem size_node_base (op : Op) (ts : List Tangent) :
    (node op (ts.map Tangent.base)).size = 1 + baseSize ts := by
  rw [size_node_sum, List.map_map]
  rfl

theorem size_product (s t : Tangent) :
    (s.product t).size
      = 3 + s.slope.size + t.base.size + s.base.size + t.slope.size := by
  unfold product
  rw [size_pair, size_pair, size_pair]
  omega

theorem size_quotient (s t : Tangent) :
    (s.quotient t).size
      = 5 + s.slope.size + t.slope.size + s.base.size + 3 * t.base.size := by
  unfold quotient
  rw [size_pair, size_pair, size_pair, size_pair, size_pair]
  omega

theorem size_exponential (t : Tangent) :
    t.exponential.size = 2 + t.base.size + t.slope.size := by
  unfold exponential
  rw [size_pair, size_single]
  omega

/-- A sum is as large as its terms and one addition for each but the first. -/
theorem size_nestedSum_le {term : Tangent → Expr} {k l : Nat}
    (h : ∀ t, 1 + (term t).size ≤ k * t.slope.size + l * t.base.size)
    (ts : List Tangent) :
    (nestedSum term ts).size ≤ 1 + (k * slopeSize ts + l * baseSize ts) := by
  induction ts with
  | nil => exact Nat.le_add_right 1 _
  | cons t ts ih =>
    have ht := h t
    rw [slopeSize_cons, baseSize_cons, Nat.mul_add, Nat.mul_add]
    cases ts with
    | nil =>
      show (term t).size ≤ _
      omega
    | cons u us =>
      show (add (term t) (nestedSum term (u :: us))).size ≤ _
      rw [size_pair]
      omega

/-- The operands of a sum of squares are differentiated twice. -/
theorem size_sumOfSquares_le (ts : List Tangent) :
    (sumOfSquares ts).size ≤ 1 + (2 * slopeSize ts + 6 * baseSize ts) := by
  refine size_nestedSum_le (fun t => ?_) ts
  have hpos := t.base.size_pos
  rw [size_product]
  omega

theorem size_sumOfExps_le (ts : List Tangent) :
    (sumOfExps ts).size ≤ 1 + (1 * slopeSize ts + 4 * baseSize ts) := by
  refine size_nestedSum_le (fun t => ?_) ts
  have hpos := t.base.size_pos
  rw [size_exponential]
  omega

end Tangent

namespace Expr

open Tangent

/-- What a rule makes has the size of the operands' derivatives, taken twice for
sums of squares and distances, and of a few copies of the operands. -/
theorem size_nodeSlope_le (op : Op) (ts : List Tangent) :
    (nodeSlope op ts).size
      ≤ 2 ^ op.squares * (slopeSize ts + 3 * (1 + 2 * baseSize ts)) := by
  -- the cases are the rows of the table of rules
  fun_cases Expr.nodeSlope op ts with
  | case1 a b =>
    rw [size_pair]
    simp only [Op.squares, slopeSize_cons, baseSize_cons]
    omega
  | case2 a b =>
    rw [size_pair]
    simp only [Op.squares, slopeSize_cons, baseSize_cons]
    omega
  | case3 a b =>
    rw [size_product]
    simp only [Op.squares, slopeSize_cons, baseSize_cons]
    omega
  | case4 a b =>
    have hpos := b.base.size_pos
    rw [size_quotient]
    simp only [Op.squares, slopeSize_cons, baseSize_cons]
    omega
  | case5 a =>
    rw [size_single]
    simp only [Op.squares, slopeSize_cons, baseSize_cons]
    omega
  | case6 w ts =>
    have hsum := size_sumOfSquares_le ts
    simp only [Op.squares]
    omega
  | case7 w ts =>
    -- the quotient copies the node, on top of its sum of squares
    have hsum := size_sumOfSquares_le ts
    rw [size_pair, size_pair, size_node_base, size_const]
    simp only [Op.squares]
    omega
  | case8 ts =>
    have hsum := size_sumOfExps_le ts
    simp only [Op.squares]
    omega
  | case9 ts =>
    have hsum := size_sumOfExps_le ts
    rw [size_pair, size_node_base]
    simp only [Op.squares]
    omega
  | case10 t =>
    rw [size_const]
    simp only [Op.squares]
    omega
  | case11 t =>
    rw [size_const]
    simp only [Op.squares]
    omega
  | case12 a b c =>
    have hpos := c.base.size_pos
    rw [size_pair, size_product]
    simp only [Op.squares, slopeSize_cons, baseSize_cons]
    omega
  | case13 op ts =>
    calc (const Numeric.nan).size
        ≤ slopeSize ts + 3 * (1 + 2 * baseSize ts) := by
          rw [size_const]
          omega
      _ ≤ 2 ^ op.squares * (slopeSize ts + 3 * (1 + 2 * baseSize ts)) :=
          Nat.le_mul_of_pos_left _ (Nat.two_pow_pos _)

/-! ## §4. The depth of what a rule makes. -/

end Expr

namespace Tangent

/-- A sum is nested to the right, so its depth is that of a term beyond the number
of terms. -/
theorem depth_nestedSum_le {term : Tangent → Expr} {ts : List Tangent}
    (h : ∀ t ∈ ts, (term t).depth ≤ 2 + 3 * t.base.size) :
    (nestedSum term ts).depth ≤ 2 + 3 * baseSize ts := by
  induction ts with
  | nil => exact Nat.le_succ 1
  | cons t ts ih =>
    obtain ⟨ht, hts⟩ := List.forall_mem_cons.1 h
    cases ts with
    | nil => exact ht
    | cons u us =>
      -- both the first term and the rest leave room for one more addition
      have hsum := ih hts
      have htpos := t.base.size_pos
      have hupos := u.base.size_pos
      show (add (term t) (nestedSum term (u :: us))).depth ≤ _
      rw [depth_pair]
      simp only [baseSize_cons] at hsum ⊢
      omega

/-- The derivative of the operand is not deeper than three times its size. -/
def Shallow (t : Tangent) : Prop :=
  t.slope.depth ≤ 3 * t.base.size

theorem depth_product_le {s t : Tangent} (hs : s.Shallow) (ht : t.Shallow) :
    (s.product t).depth ≤ 2 + 3 * max s.base.size t.base.size := by
  have hsbase := s.base.depth_le_size
  have htbase := t.base.depth_le_size
  unfold product
  rw [depth_pair, depth_pair, depth_pair]
  unfold Shallow at hs ht
  omega

theorem depth_quotient_le {s t : Tangent} (hs : s.Shallow) (ht : t.Shallow) :
    (s.quotient t).depth ≤ 3 + 3 * max s.base.size t.base.size := by
  have hsbase := s.base.depth_le_size
  have htbase := t.base.depth_le_size
  unfold quotient
  rw [depth_pair, depth_pair, depth_pair, depth_pair, depth_pair]
  unfold Shallow at hs ht
  omega

theorem depth_sumOfSquares_le {ts : List Tangent} (h : ∀ t ∈ ts, t.Shallow) :
    (sumOfSquares ts).depth ≤ 2 + 3 * baseSize ts := by
  refine depth_nestedSum_le ?_
  intro t ht
  have hproduct := depth_product_le (h t ht) (h t ht)
  rwa [Nat.max_self] at hproduct

theorem depth_sumOfExps_le {ts : List Tangent} (h : ∀ t ∈ ts, t.Shallow) :
    (sumOfExps ts).depth ≤ 2 + 3 * baseSize ts := by
  refine depth_nestedSum_le ?_
  intro t ht
  have hbase := t.base.depth_le_size
  have hslope : t.slope.depth ≤ 3 * t.base.size := h t ht
  unfold exponential
  rw [depth_pair, depth_single]
  omega

theorem depth_node_base_le (op : Op) (ts : List Tangent) :
    (node op (ts.map Tangent.base)).depth ≤ 1 + baseSize ts :=
  (depth_le_size _).trans_eq (size_node_base op ts)

end Tangent

namespace Expr

open Tangent

/-- What a rule makes is not deeper than three times the size of the node, when it
is so with the derivatives of its operands. -/
theorem depth_nodeSlope_le (op : Op) {ts : List Tangent} (h : ∀ t ∈ ts, t.Shallow) :
    (nodeSlope op ts).depth ≤ 3 * (1 + baseSize ts) := by
  -- the cases are the rows of the table of rules
  fun_cases Expr.nodeSlope op ts with
  | case1 a b =>
    have ha : a.slope.depth ≤ 3 * a.base.size := h a (by simp)
    have hb : b.slope.depth ≤ 3 * b.base.size := h b (by simp)
    rw [depth_pair]
    simp only [baseSize_cons]
    omega
  | case2 a b =>
    have ha : a.slope.depth ≤ 3 * a.base.size := h a (by simp)
    have hb : b.slope.depth ≤ 3 * b.base.size := h b (by simp)
    rw [depth_pair]
    simp only [baseSize_cons]
    omega
  | case3 a b =>
    have hproduct := depth_product_le (h a (by simp)) (h b (by simp))
    simp only [baseSize_cons]
    omega
  | case4 a b =>
    have hquotient := depth_quotient_le (h a (by simp)) (h b (by simp))
    simp only [baseSize_cons]
    omega
  | case5 a =>
    have ha : a.slope.depth ≤ 3 * a.base.size := h a (by simp)
    rw [depth_single]
    simp only [baseSize_cons]
    omega
  | case6 w ts =>
    have hsum := depth_sumOfSquares_le h
    omega
  | case7 w ts =>
    have hsum := depth_sumOfSquares_le h
    have hself := depth_node_base_le (.distance w) ts
    rw [depth_pair, depth_pair, depth_const]
    omega
  | case8 ts =>
    have hsum := depth_sumOfExps_le h
    omega
  | case9 ts =>
    have hsum := depth_sumOfExps_le h
    have hself : (sumExp (ts.map base)).depth ≤ 1 + baseSize ts :=
      depth_node_base_le .sumExp ts
    rw [depth_pair]
    omega
  | case10 t =>
    rw [depth_const]
    omega
  | case11 t =>
    rw [depth_const]
    omega
  | case12 a b c =>
    have hproduct := depth_product_le (h a (by simp)) (h b (by simp))
    have hc : c.slope.depth ≤ 3 * c.base.size := h c (by simp)
    have ha := a.base.size_pos
    rw [depth_pair]
    simp only [baseSize_cons]
    omega
  | case13 op ts =>
    rw [depth_const]
    omega

/-! ## §5. Trees. -/

theorem baseSize_tangentOf (v : Var) (es : List Expr) :
    baseSize (es.map (tangentOf v)) = (es.map size).sum := by
  unfold baseSize
  rw [List.map_map]
  rfl

/-- What is quadratic for each operand is quadratic for all of them, for the square
of a sum is more than the squares of the terms. -/
theorem slopeSize_tangentOf_le {v : Var} {c : Nat} {es : List Expr}
    (h : ∀ e ∈ es, (e.diff v).size ≤ c * e.size ^ 2) :
    slopeSize (es.map (tangentOf v)) ≤ c * (es.map size).sum ^ 2 := by
  induction es with
  | nil => exact Nat.zero_le _
  | cons e es ih =>
    obtain ⟨he, hes⟩ := List.forall_mem_cons.1 h
    rw [List.map_cons, slopeSize_cons, List.map_cons, List.sum_cons]
    calc (e.diff v).size + slopeSize (es.map (tangentOf v))
        ≤ c * e.size ^ 2 + c * (es.map size).sum ^ 2 := Nat.add_le_add he (ih hes)
      _ ≤ c * e.size ^ 2 + c * (es.map size).sum ^ 2
            + 2 * c * (e.size * (es.map size).sum) := Nat.le_add_right _ _
      _ = c * (e.size + (es.map size).sum) ^ 2 := by ring

theorem size_diff_le (e : Expr) (v : Var) :
    (e.diff v).size ≤ 3 * 2 ^ e.squareDepth * e.size ^ 2 := by
  induction e with
  | const value =>
    show 1 ≤ 3 * 2 ^ 0 * 1 ^ 2
    decide
  | var u =>
    show ((var u).diff v).size ≤ 3 * 2 ^ 0 * 1 ^ 2
    rw [diff_var]
    split
    · decide
    · decide
  | node op es ih =>
    have hmax : ∀ d ∈ es, d.squareDepth ≤ (es.map squareDepth).foldr max 0 := fun d hd =>
      List.le_max_of_le' 0 (List.mem_map_of_mem hd) (Nat.le_refl _)
    rw [squareDepth_node, size_node_sum, diff_node_tangentOf]
    generalize (es.map squareDepth).foldr max 0 = most at hmax ⊢
    have heach : ∀ d ∈ es, (d.diff v).size ≤ 3 * 2 ^ most * d.size ^ 2 := by
      intro d hd
      refine (ih d hd).trans ?_
      have hmost := hmax d hd
      gcongr
      exact one_le_two
    have hslopes := slopeSize_tangentOf_le heach
    have hrule := size_nodeSlope_le op (es.map (tangentOf v))
    rw [baseSize_tangentOf] at hrule
    generalize (es.map size).sum = total at hslopes hrule ⊢
    calc (nodeSlope op (es.map (tangentOf v))).size
        ≤ 2 ^ op.squares * (slopeSize (es.map (tangentOf v)) + 3 * (1 + 2 * total)) := hrule
      _ ≤ 2 ^ op.squares * (3 * 2 ^ most * total ^ 2 + 3 * 2 ^ most * (1 + 2 * total)) := by
          gcongr
          exact Nat.le_mul_of_pos_right 3 (Nat.two_pow_pos most)
      _ = 3 * 2 ^ (op.squares + most) * (1 + total) ^ 2 := by ring

theorem depth_diff_le (e : Expr) (v : Var) : (e.diff v).depth ≤ 3 * e.size := by
  induction e with
  | const value => exact Nat.le_add_right 1 2
  | var u =>
    show ((var u).diff v).depth ≤ 3 * 1
    rw [diff_var]
    split
    · decide
    · decide
  | node op es ih =>
    have heach : ∀ t ∈ es.map (tangentOf v), t.Shallow := by
      rw [List.forall_mem_map]
      exact ih
    have hrule := depth_nodeSlope_le op heach
    rwa [baseSize_tangentOf, ← size_node_sum op, ← diff_node_tangentOf] at hrule

/-- The derivative of a tree by any variable has at most three times the square of
the tree's size, times two for each sum of squares or distance on a way to a leaf;
and it is at most three times as deep as the tree is large. -/
theorem size_depth_diff_le (e : Expr) (v : Var) :
    (e.diff v).size ≤ 3 * 2 ^ e.squareDepth * e.size ^ 2
      ∧ (e.diff v).depth ≤ 3 * e.size :=
  ⟨size_diff_le e v, depth_diff_le e v⟩

end Expr

end Trivariate
