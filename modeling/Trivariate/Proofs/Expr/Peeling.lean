/-
  Trivariate.Proofs.Expr.Peeling
  ──────────────────────────────
  **DIFFERENTIATION BY PEELING.**

  The derivative of a sum of squares may be had square by square: the first
  square is differentiated as a product, and what is left of the sum as the sum
  of squares for its count, when there is one, or else square by square again.
  A product of an operand with itself is no part of the tree and larger than
  the operand, and a sum that is left is rebuilt under another operation.  So
  this recursion does not follow the tree.

  It ends nevertheless: every call is about a tree that is less deep, or about
  one that is no deeper and has a lower rank.  What it gives is the derivative,
  also for operand counts that an operation does not take, and sums come out in
  closed form, one term an operand.

  Main results:

      lower_operand,
      lower_rank            which calls are lower than others
      deriveSquares_eq      squares are peeled off to the last one
      derive_eq_diff        peeling gives the derivative
      derive_closed_form    what it gives for sums, and what is made of sums
-/
import Trivariate.Proofs.Expr.Rules

namespace Trivariate.Expr

/-! ## §1. Peeling. -/

/-- The longest way from the root to a leaf in any of the trees, and one more:
the depth of a node over them. -/
def depthOver (es : List Expr) : Nat :=
  1 + (es.map depth).foldr max 0

theorem depthOver_cons (e : Expr) (es : List Expr) :
    depthOver (e :: es) = max (1 + e.depth) (depthOver es) := by
  unfold depthOver
  rw [List.map_cons, List.foldr_cons]
  omega

/-- Among the calls that are about trees of one depth, which come first: a call
makes only calls of a lower rank. -/
def rank : Expr → Nat
  | .node (.sumSquares _) es | .node .sumExp es => 3 * es.length + 1
  | .node .logSumExp es => 3 * es.length + 2
  | .node (.distance _) es => 3 * es.length + 3
  | _ => 0

theorem depth_lt_of_mem {op : Op} {es : List Expr} {e : Expr} (h : e ∈ es) :
    e.depth < (node op es).depth := by
  have hover : e.depth < depthOver es := by
    induction es with
    | nil => exact absurd h List.not_mem_nil
    | cons d ds ih =>
      rw [depthOver_cons]
      rcases List.mem_cons.1 h with rfl | h
      · omega
      · have hlt := ih h
        omega
  rwa [depth_node]

/-- An operand is lower than its node. -/
theorem lower_operand {op : Op} {es : List Expr} {e : Expr} (h : e ∈ es) :
    Prod.Lex (· < ·) (· < ·) (e.depth, e.rank) ((node op es).depth, (node op es).rank) :=
  .left _ _ (depth_lt_of_mem h)

/-- What is no deeper and of a lower rank is lower. -/
theorem lower_rank {d d' r r' : Nat} (hd : d ≤ d') (hr : r < r') :
    Prod.Lex (· < ·) (· < ·) (d, r) (d', r') :=
  .right' _ hd hr

mutual

/-- The derivative of the tree by `v`, with sums peeled. -/
def derive (v : Var) : Expr → Expr
  | .const _ => zero
  | .var u => if u = v then one else zero
  | .node op operands =>
      match op, operands with
      | .add, [a, b] => add (derive v a) (derive v b)
      | .subtract, [a, b] => subtract (derive v a) (derive v b)
      | .multiply, [a, b] => add (multiply (derive v a) b) (multiply a (derive v b))
      | .divide, [a, b] =>
          divide (subtract (multiply (derive v a) b) (multiply a (derive v b)))
            (multiply b b)
      | .negate, [a] => negate (derive v a)
      | .sumSquares _, es => deriveSquares v es
      | .distance w, es =>
          divide (deriveSum v es) (multiply two (.node (.distance w) es))
      | .sumExp, es => deriveExps v es
      | .logSumExp, es => divide (derive v (sumExp es)) (sumExp es)
      | .floor, [_] => zero
      | .ceil, [_] => zero
      | .mulAdd, [a, b, c] =>
          add (add (multiply (derive v a) b) (multiply a (derive v b))) (derive v c)
      | _, _ => .const Numeric.nan
  termination_by e => (e.depth, rank e)
  decreasing_by
    -- an operand is less deep, and a sum is handed on with a lower rank
    all_goals first
      | exact lower_operand (by simp)
      | exact lower_rank (by simp [depthOver]) (by simp [rank])

/-- The derivative of the square of `e`, as that of a product. -/
def deriveSquare (v : Var) (e : Expr) : Expr :=
  derive v (multiply e e)
  termination_by (1 + e.depth, 1)
  decreasing_by exact lower_rank (by simp) (by simp [rank])

/-- The derivative of the sum of the squares of the operands: that of the node
for their count, when there is one. -/
def deriveSum (v : Var) (es : List Expr) : Expr :=
  match _h : Op.sumSquares? es.length with
  | some op => derive v (.node op es)
  | none => deriveSquares v es
  termination_by (depthOver es, 3 * es.length + 2)
  decreasing_by
    · -- the operation for the count is that of a sum of squares
      obtain ⟨⟨w, rfl⟩, -, -⟩ := Op.of_sumSquares? _h
      exact lower_rank (by simp [depthOver]) (by simp [rank])
    · exact lower_rank (Nat.le_refl _) (by omega)

/-- The derivative of a sum of squares: the first square is peeled off. -/
def deriveSquares (v : Var) : List Expr → Expr
  | [] => zero
  | [e] => deriveSquare v e
  | e :: es => add (deriveSquare v e) (deriveSum v es)
  termination_by es => (depthOver es, 3 * es.length)
  decreasing_by
    all_goals
      refine lower_rank ?_ ?_
      · rw [depthOver_cons]
        omega
      · rw [List.length_cons]
        omega

/-- The derivative of a sum of exponentials: the first one is peeled off. -/
def deriveExps (v : Var) : List Expr → Expr
  | [] => zero
  | e :: es =>
      let first := multiply (sumExp [e]) (derive v e)
      if es.isEmpty then first else add first (deriveExps v es)
  termination_by es => (depthOver es, 3 * es.length)
  decreasing_by
    · refine .left _ _ ?_
      rw [depthOver_cons]
      omega
    · refine lower_rank ?_ ?_
      · rw [depthOver_cons]
        omega
      · rw [List.length_cons]
        omega

end

/-! ## §2. The closed form. -/

/-- The terms added up, nested to the right; no terms add up to zero. -/
def rightSum : List Expr → Expr
  | [] => zero
  | [e] => e
  | e :: es => add e (rightSum es)

/-- The derivative of `e * e`. -/
def squareSlope (v : Var) (e : Expr) : Expr :=
  add (multiply (e.diff v) e) (multiply e (e.diff v))

/-- The derivative of the exponential of `e`. -/
def expSlope (v : Var) (e : Expr) : Expr :=
  multiply (sumExp [e]) (e.diff v)

theorem nestedSum_tangentOf (v : Var) (term : Tangent → Expr) (es : List Expr) :
    Tangent.nestedSum term (es.map (tangentOf v))
      = rightSum (es.map fun e => term (tangentOf v e)) := by
  induction es with
  | nil => rfl
  | cons e es ih =>
    cases es with
    | nil => rfl
    | cons d ds =>
      show add _ (Tangent.nestedSum term ((d :: ds).map (tangentOf v))) = _
      rw [ih]
      rfl

theorem sumOfSquares_tangentOf (v : Var) (es : List Expr) :
    Tangent.sumOfSquares (es.map (tangentOf v)) = rightSum (es.map (squareSlope v)) :=
  nestedSum_tangentOf v (fun t => t.product t) es

theorem sumOfExps_tangentOf (v : Var) (es : List Expr) :
    Tangent.sumOfExps (es.map (tangentOf v)) = rightSum (es.map (expSlope v)) :=
  nestedSum_tangentOf v Tangent.exponential es

/-! ## §3. Sums are peeled to their end. -/

section sums

variable {v : Var} {e : Expr} {es : List Expr}

theorem deriveSquare_eq (h : derive v e = e.diff v) :
    deriveSquare v e = squareSlope v e := by
  rw [deriveSquare, derive, h]
  rfl

/-- A sum of squares that is left is differentiated as one, whether or not
there is an operation for its count. -/
theorem deriveSum_eq_squares (v : Var) (es : List Expr) :
    deriveSum v es = deriveSquares v es := by
  rw [deriveSum]
  split
  next op hsum =>
    obtain ⟨⟨w, rfl⟩, -, -⟩ := Op.of_sumSquares? hsum
    rw [derive]
  next => rfl

/-- Squares are peeled off to the last one. -/
theorem deriveSquares_eq (h : ∀ e ∈ es, derive v e = e.diff v) :
    deriveSquares v es = rightSum (es.map (squareSlope v)) := by
  induction es with
  | nil =>
    rw [deriveSquares]
    rfl
  | cons e es ih =>
    obtain ⟨he, hes⟩ := List.forall_mem_cons.1 h
    cases es with
    | nil =>
      rw [deriveSquares, deriveSquare_eq he]
      rfl
    | cons d ds =>
      rw [deriveSquares, deriveSum_eq_squares, ih hes, deriveSquare_eq he]
      · rfl
      · exact List.cons_ne_nil d ds

/-- Exponentials are peeled off to the last one. -/
theorem deriveExps_eq (h : ∀ e ∈ es, derive v e = e.diff v) :
    deriveExps v es = rightSum (es.map (expSlope v)) := by
  induction es with
  | nil =>
    rw [deriveExps]
    rfl
  | cons e es ih =>
    obtain ⟨he, hes⟩ := List.forall_mem_cons.1 h
    rw [deriveExps, he]
    cases es with
    | nil => rfl
    | cons d ds =>
      rw [ih hes]
      rfl

/-! ## §4. Nodes. -/

theorem derive_sumSquares (w : Width) (h : ∀ e ∈ es, derive v e = e.diff v) :
    derive v (.node (.sumSquares w) es) = rightSum (es.map (squareSlope v)) := by
  rw [derive, deriveSquares_eq h]

theorem derive_distance (w : Width) (h : ∀ e ∈ es, derive v e = e.diff v) :
    derive v (.node (.distance w) es)
      = divide (rightSum (es.map (squareSlope v)))
          (multiply two (.node (.distance w) es)) := by
  rw [derive, deriveSum_eq_squares, deriveSquares_eq h]

theorem derive_sumExp (h : ∀ e ∈ es, derive v e = e.diff v) :
    derive v (sumExp es) = rightSum (es.map (expSlope v)) := by
  rw [derive, deriveExps_eq h]

theorem derive_logSumExp (h : ∀ e ∈ es, derive v e = e.diff v) :
    derive v (logSumExp es)
      = divide (rightSum (es.map (expSlope v))) (sumExp es) := by
  rw [derive, derive_sumExp h]

/-- Sums, and what is made of sums, are differentiated for any count. -/
theorem derive_of_sums {op : Op} (hop : op.ofSums = true)
    (h : ∀ e ∈ es, derive v e = e.diff v) :
    derive v (.node op es) = nodeSlope op (es.map (tangentOf v)) := by
  cases op with
  | sumSquares w =>
    rw [derive_sumSquares w h, ← sumOfSquares_tangentOf]
    rfl
  | distance w =>
    show _ = divide _ (multiply two (.node (.distance w) _))
    rw [derive_distance w h, ← sumOfSquares_tangentOf, map_base_tangentOf]
  | sumExp =>
    rw [derive_sumExp h, ← sumOfExps_tangentOf]
    rfl
  | logSumExp =>
    show _ = divide _ (sumExp _)
    rw [derive_logSumExp h, ← sumOfExps_tangentOf, map_base_tangentOf]
  | _ => exact Bool.noConfusion hop

/-- The other operations are differentiated for the count that they take. -/
theorem derive_of_accepts {op : Op} (hcount : op.arity.accepts es.length = true)
    (h : ∀ e ∈ es, derive v e = e.diff v) :
    derive v (.node op es) = nodeSlope op (es.map (tangentOf v)) := by
  cases Op.shape_of_accepts hcount with
  | sumSquares w es => exact derive_of_sums rfl h
  | distance w es => exact derive_of_sums rfl h
  | sumExp es => exact derive_of_sums rfl h
  | logSumExp es => exact derive_of_sums rfl h
  | add a b => rw [derive, h a (by simp), h b (by simp)]; rfl
  | subtract a b => rw [derive, h a (by simp), h b (by simp)]; rfl
  | multiply a b => rw [derive, h a (by simp), h b (by simp)]; rfl
  | divide a b => rw [derive, h a (by simp), h b (by simp)]; rfl
  | negate a => rw [derive, h a (by simp)]; rfl
  | floor a => rw [derive]; rfl
  | ceil a => rw [derive]; rfl
  | mulAdd a b c => rw [derive, h a (by simp), h b (by simp), h c (by simp)]; rfl

/-- Without a rule the derivative falls through. -/
theorem derive_of_no_rule {op : Op} (h : op.hasRule es.length = false) :
    derive v (.node op es) = .const Numeric.nan := by
  rw [derive.eq_def]
  dsimp only
  -- the cases are the rows of the table of rules
  split
  case h_13 => rfl
  all_goals exact absurd h (by simp [Op.hasRule, Op.ofSums, Op.arity, Arity.accepts])

/-- A node is differentiated when its operands are. -/
theorem derive_node (op : Op) (h : ∀ e ∈ es, derive v e = e.diff v) :
    derive v (.node op es) = (node op es).diff v := by
  rw [diff_node_tangentOf]
  by_cases hrule : op.hasRule es.length = true
  · rcases Bool.or_eq_true_iff.1 hrule with hsums | hcount
    · exact derive_of_sums hsums h
    · exact derive_of_accepts hcount h
  · have hnone : op.hasRule es.length = false := by simpa using hrule
    rw [derive_of_no_rule hnone, nodeSlope_eq_nan.2 (by rwa [List.length_map])]

end sums

/-! ## §5. Trees. -/

/-- Peeling gives the derivative, whatever the operand counts. -/
theorem derive_eq_diff (v : Var) (e : Expr) : derive v e = e.diff v := by
  induction e with
  | const value => rw [derive]; rfl
  | var u => rw [derive]; rfl
  | node op es ih => exact derive_node op ih

/-- Peeling, which always ends, gives the derivative.  For any list of operands,
a sum of squares gives the derivatives of the squares, added up to the right,
and a distance divides them by twice itself; a sum of exponentials gives the
derivatives of the exponentials, and its logarithm divides them by the sum. -/
theorem derive_closed_form (v : Var) :
    (∀ e, derive v e = e.diff v)
      ∧ ∀ es : List Expr,
        (∀ w, derive v (.node (.sumSquares w) es) = rightSum (es.map (squareSlope v)))
          ∧ (∀ w, derive v (.node (.distance w) es)
            = divide (rightSum (es.map (squareSlope v)))
                (multiply two (.node (.distance w) es)))
          ∧ derive v (sumExp es) = rightSum (es.map (expSlope v))
          ∧ derive v (logSumExp es)
            = divide (rightSum (es.map (expSlope v))) (sumExp es) := by
  refine ⟨derive_eq_diff v, ?_⟩
  intro es
  have heach : ∀ e ∈ es, derive v e = e.diff v := fun e _ => derive_eq_diff v e
  exact ⟨fun w => derive_sumSquares w heach, fun w => derive_distance w heach,
    derive_sumExp heach, derive_logSumExp heach⟩

end Trivariate.Expr
