/-
  Trivariate.Proofs.Expr.Calls
  ────────────────────────────
  **WHAT PEELING CALLS ITSELF FOR.**

  One call of the recursion, with a function `f` in place of the calls that it
  makes.  What comes out depends on `f` only at the trees to which a step of
  `Differentiates` leads, and these are lower than the tree: so each recursive
  call is such a step.  Along the recursion, then, nothing is differentiated
  but what is reached by steps, and what is given for those trees determines
  the derivative.

  Main results:

      derive_eq_deriveBy   peeling is one call, with itself for the others
      deriveBy_congr       each call that is made is a step, and a lower tree
      eq_derive_of_rules   what follows the rules on all trees that are
                           reached is the derivative by peeling
-/
import Trivariate.Proofs.Expr.Peeling

namespace Trivariate.Expr

/-! ## §1. One call. -/

section call

variable (f : Expr → Expr)

/-- The derivative of a sum of squares, peeled to its end or to a sum that has
an operation, with `f` for the derivatives. -/
def squaresBy : List Expr → Expr
  | [] => zero
  | [e] => f (multiply e e)
  | e :: es =>
      add (f (multiply e e))
        (match Op.sumSquares? es.length with
        | some op => f (.node op es)
        | none => squaresBy es)

/-- The derivative of the sum of the squares under a root. -/
def sumBy (es : List Expr) : Expr :=
  match Op.sumSquares? es.length with
  | some op => f (.node op es)
  | none => squaresBy f es

/-- The derivative of a sum of exponentials, with `f` for the derivatives. -/
def expsBy : List Expr → Expr
  | [] => zero
  | e :: es =>
      let first := multiply (sumExp [e]) (f e)
      if es.isEmpty then first else add first (expsBy es)

/-- The derivative of the tree by `v`, with `f` for the derivatives that its rule
asks for. -/
def deriveBy (v : Var) : Expr → Expr
  | .const _ => zero
  | .var u => if u = v then one else zero
  | .node op operands =>
      match op, operands with
      | .add, [a, b] => add (f a) (f b)
      | .subtract, [a, b] => subtract (f a) (f b)
      | .multiply, [a, b] => add (multiply (f a) b) (multiply a (f b))
      | .divide, [a, b] =>
          divide (subtract (multiply (f a) b) (multiply a (f b))) (multiply b b)
      | .negate, [a] => negate (f a)
      | .sumSquares _, es => squaresBy f es
      | .distance w, es =>
          divide (sumBy f es) (multiply two (.node (.distance w) es))
      | .sumExp, es => expsBy f es
      | .logSumExp, es => divide (f (sumExp es)) (sumExp es)
      | .floor, [_] => zero
      | .ceil, [_] => zero
      | .mulAdd, [a, b, c] =>
          add (add (multiply (f a) b) (multiply a (f b))) (f c)
      | _, _ => .const Numeric.nan

end call

/-! ## §2. Peeling, call by call. -/

section peeled

variable (v : Var)

theorem deriveSum_eq (es : List Expr) :
    deriveSum v es
      = match Op.sumSquares? es.length with
        | some op => derive v (.node op es)
        | none => deriveSquares v es := by
  rw [deriveSum]
  split
  next op hop => rw [hop]
  next hop => rw [hop]

theorem deriveSquares_eq_squaresBy (es : List Expr) :
    deriveSquares v es = squaresBy (derive v) es := by
  induction es with
  | nil => rw [deriveSquares, squaresBy]
  | cons e es ih =>
    cases es with
    | nil => rw [deriveSquares, deriveSquare, squaresBy]
    | cons d ds =>
      rw [deriveSquares, deriveSquare, deriveSum_eq, squaresBy, ih]
      all_goals exact List.cons_ne_nil d ds

theorem deriveSum_eq_sumBy (es : List Expr) :
    deriveSum v es = sumBy (derive v) es := by
  rw [deriveSum_eq, sumBy, deriveSquares_eq_squaresBy]

theorem deriveExps_eq_expsBy (es : List Expr) :
    deriveExps v es = expsBy (derive v) es := by
  induction es with
  | nil => rw [deriveExps, expsBy]
  | cons e es ih => rw [deriveExps, expsBy, ih]

/-- Peeling is one call of itself, with itself for the calls that are made. -/
theorem derive_eq_deriveBy (e : Expr) : derive v e = deriveBy (derive v) v e := by
  -- the cases are the rows of the table of rules
  fun_cases deriveBy (derive v) v e with
  | case2 => rw [derive, if_pos rfl]
  | case3 u hu => rw [derive, if_neg hu]
  | case9 w es => rw [derive, deriveSquares_eq_squaresBy]
  | case10 w es => rw [derive, deriveSum_eq_sumBy]
  | case11 es => rw [derive, deriveExps_eq_expsBy]
  | case12 es => rw [derive.eq_def]
  | case16 op es => rw [derive] <;> assumption
  | _ => rw [derive]

end peeled

/-! ## §3. Lower trees. -/

/-- Lower in the order along which peeling ends. -/
def Lower (d e : Expr) : Prop :=
  Prod.Lex (· < ·) (· < ·) (d.depth, d.rank) (e.depth, e.rank)

theorem lower_wellFounded : WellFounded Lower :=
  InvImage.wf (fun e : Expr => (e.depth, e.rank)) (Prod.lex _ _).wf

section lower

variable {op : Op} {ds es : List Expr}

theorem depthOver_le_of_suffix (h : ds <:+ es) : depthOver ds ≤ depthOver es := by
  obtain ⟨cs, rfl⟩ := h
  induction cs with
  | nil => exact Nat.le_refl _
  | cons c cs ih =>
    rw [List.cons_append, depthOver_cons]
    omega

/-- The square of an operand is lower than a node of a rank. -/
theorem lower_square {d : Expr} (h : d ∈ es) (hrank : 0 < (node op es).rank) :
    Lower (multiply d d) (node op es) := by
  refine lower_rank ?_ hrank
  have hd : d.depth < (node op es).depth := depth_lt_of_mem h
  simp only [depth_node, List.map_cons, List.map_nil, List.foldr_cons, List.foldr_nil] at hd ⊢
  omega

/-- A sum of squares over the last operands is lower than a node of a higher
rank. -/
theorem lower_squares {rest : Op} (h : ds <:+ es)
    (hrest : Op.sumSquares? ds.length = some rest)
    (hrank : 3 * ds.length + 1 < (node op es).rank) :
    Lower (node rest ds) (node op es) := by
  obtain ⟨⟨w, rfl⟩, -, -⟩ := Op.of_sumSquares? hrest
  refine lower_rank ?_ hrank
  rw [depth_node, depth_node]
  exact depthOver_le_of_suffix h

end lower

/-! ## §4. The calls that are made. -/

section calls

variable {f g : Expr → Expr} {es : List Expr}

/-- Of a sum of squares, the squares and the sums of the last ones are asked
for. -/
theorem squaresBy_congr (hsquare : ∀ d ∈ es, f (multiply d d) = g (multiply d d))
    (hsum : ∀ ds op, ds <:+ es → ds.length < es.length →
      Op.sumSquares? ds.length = some op → f (.node op ds) = g (.node op ds)) :
    squaresBy f es = squaresBy g es := by
  induction es with
  | nil => rfl
  | cons e es ih =>
    have hhead := hsquare e List.mem_cons_self
    have htail := ih (fun d hd => hsquare d (List.mem_cons_of_mem e hd)) fun ds op hds hlt =>
      hsum ds op (hds.trans (List.suffix_cons e es)) (Nat.lt_succ_of_lt hlt)
    cases es with
    | nil => rw [squaresBy, squaresBy, hhead]
    | cons d ds =>
      unfold squaresBy
      rw [hhead]
      congr 1
      split
      next op hop => exact hsum _ op (List.suffix_cons e _) (by simp) hop
      next => exact htail

theorem sumBy_congr (hsquare : ∀ d ∈ es, f (multiply d d) = g (multiply d d))
    (hsum : ∀ ds op, ds <:+ es →
      Op.sumSquares? ds.length = some op → f (.node op ds) = g (.node op ds)) :
    sumBy f es = sumBy g es := by
  unfold sumBy
  split
  next op hop => exact hsum es op List.suffix_rfl hop
  next => exact squaresBy_congr hsquare fun ds op hds _ => hsum ds op hds

/-- Of a sum of exponentials, the operands are asked for. -/
theorem expsBy_congr (h : ∀ d ∈ es, f d = g d) : expsBy f es = expsBy g es := by
  induction es with
  | nil => rfl
  | cons e es ih =>
    obtain ⟨he, hes⟩ := List.forall_mem_cons.1 h
    rw [expsBy, expsBy, he, ih hes]

/-- Each call that is made for a tree is about a tree to which a step leads, and
which is lower. -/
theorem deriveBy_congr {v : Var} {e : Expr}
    (h : ∀ d, Differentiates e d → Lower d e → f d = g d) :
    deriveBy f v e = deriveBy g v e := by
  have hoperand : ∀ op es, e = .node op es → ∀ d ∈ es, f d = g d := by
    rintro op es rfl d hd
    exact h d (.operand hd) (lower_operand hd)
  -- the cases are the rows of the table of rules
  fun_cases deriveBy f v e with
  | case1 => rfl
  | case2 => rw [deriveBy, if_pos rfl]
  | case3 u hu => rw [deriveBy, if_neg hu]
  | case4 a b | case5 a b | case6 a b | case7 a b =>
    rw [deriveBy, hoperand _ _ rfl a (by simp), hoperand _ _ rfl b (by simp)]
  | case8 a => rw [deriveBy, hoperand _ _ rfl a (by simp)]
  | case9 w es =>
    rw [deriveBy]
    refine squaresBy_congr ?_ ?_
    · intro d hd
      exact h _ (.square hd) (lower_square hd (by simp [rank]))
    · intro ds op hds hlt hop
      refine h _ (.squares hds hop) (lower_squares hds hop ?_)
      show _ < 3 * es.length + 1
      omega
  | case10 w es =>
    rw [deriveBy, sumBy_congr (g := g)]
    · intro d hd
      exact h _ (.square hd) (lower_square hd (by simp [rank]))
    · intro ds op hds hop
      refine h _ (.squares hds hop) (lower_squares hds hop ?_)
      have hle := hds.length_le
      show _ < 3 * es.length + 3
      omega
  | case11 es => rw [deriveBy, expsBy_congr (hoperand _ _ rfl)]
  | case12 es =>
    rw [deriveBy, h _ .exponentials (lower_rank (Nat.le_refl _) (by simp [rank]))]
  | case13 a | case14 a => rw [deriveBy]
  | case15 a b c =>
    rw [deriveBy, hoperand _ _ rfl a (by simp), hoperand _ _ rfl b (by simp),
      hoperand _ _ rfl c (by simp)]
  | case16 op es => rw [deriveBy] <;> assumption

end calls

/-! ## §5. What is reached. -/

section reached

variable {f : Expr → Expr} {v : Var} {e : Expr}

/-- Whatever follows the rules on the trees that are reached from `e` gives the
derivative of `e` by peeling: no other tree is asked for on the way. -/
theorem eq_derive_of_rules
    (h : ∀ d, Relation.ReflTransGen Differentiates e d → f d = deriveBy f v d) :
    f e = derive v e := by
  induction e using lower_wellFounded.induction with
  | _ e ih =>
    calc f e = deriveBy f v e := h e .refl
      _ = deriveBy (derive v) v e := by
          refine deriveBy_congr ?_
          intro d hstep hlower
          exact ih d hlower fun c hc => h c (.head hstep hc)
      _ = derive v e := (derive_eq_deriveBy v e).symm

/-- For a well-formed tree it is enough to follow the rules on well-formed
trees. -/
theorem eq_derive_of_wellFormed (h : ∀ d : Expr, d.WellFormed → f d = deriveBy f v d)
    (he : e.WellFormed) : f e = derive v e :=
  eq_derive_of_rules fun d hd => h d (wellFormed_of_reached hd he)

end reached

end Trivariate.Expr
