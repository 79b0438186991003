/-
  Trivariate.Proofs.Expr.Everywhere
  ─────────────────────────────────
  **WHAT HOLDS AT EVERY NODE OF A TREE.**

  A demand says what is asked of each constant, each variable and each node.
  Differentiation copies operands and puts new nodes around them, so a demand
  survives it when it holds of the few kinds of node that the rules make.
  Those are listed once, in `Demand.Differentiable`; that a tree's derivative
  meets a demand is then one induction for all demands.

  Main results:

      everywhere_node         a demand on a node and on all below it
      Everywhere.nodeSlope    the rules make nothing but the listed nodes
      Everywhere.diff         a demand survives differentiation
      wellFormed_diff         derivatives of well-formed trees are well formed
      Everywhere.diffAlong    a demand survives any number of differentiations
-/
import Trivariate.Expr.Diff
import Trivariate.Proofs.Expr.Accepted

namespace Trivariate

open Trivariate.Expr

/-! ## §1. Demands. -/

/-- What is asked of each constant, variable and node of a tree. -/
structure Demand where
  const : Float → Prop
  var : Var → Prop
  node : Op → List Expr → Prop

namespace Demand

/-- Asks something of the constants alone. -/
def onConstants (P : Float → Prop) : Demand :=
  ⟨P, fun _ => True, fun _ _ => True⟩

/-- Asks something of the variables alone. -/
def onVars (P : Var → Prop) : Demand :=
  ⟨fun _ => True, P, fun _ _ => True⟩

/-- Asks something of the nodes alone. -/
def onNodes (P : Op → List Expr → Prop) : Demand :=
  ⟨fun _ => True, fun _ => True, P⟩

end Demand

/-- The demand is met by every constant, variable and node of the tree. -/
inductive Expr.Everywhere (D : Demand) : Expr → Prop where
  | const {value : Float} (here : D.const value) : Everywhere D (.const value)
  | var {v : Var} (here : D.var v) : Everywhere D (.var v)
  | node {op : Op} {operands : List Expr} (here : D.node op operands)
      (each : ∀ e ∈ operands, Everywhere D e) : Everywhere D (.node op operands)

namespace Expr

variable {D : Demand}

@[simp] theorem everywhere_const {value : Float} :
    Everywhere D (.const value) ↔ D.const value := by
  constructor
  · intro h
    cases h with
    | const here => exact here
  · exact .const

@[simp] theorem everywhere_var {v : Var} : Everywhere D (.var v) ↔ D.var v := by
  constructor
  · intro h
    cases h with
    | var here => exact here
  · exact .var

@[simp] theorem everywhere_node {op : Op} {operands : List Expr} :
    Everywhere D (.node op operands)
      ↔ D.node op operands ∧ ∀ e ∈ operands, Everywhere D e := by
  constructor
  · intro h
    cases h with
    | node here each => exact ⟨here, each⟩
  · intro h
    exact .node h.1 h.2

theorem wellFormed_node {op : Op} {operands : List Expr} :
    (node op operands).WellFormed
      ↔ op.arity.accepts operands.length = true
        ∧ ∀ e ∈ operands, e.WellFormed := by
  constructor
  · intro h
    cases h with
    | node count each => exact ⟨count, each⟩
  · intro h
    exact .node h.1 h.2

/-- A tree that meets a demand meets every weaker one. -/
theorem Everywhere.imp {D' : Demand} {e : Expr} (h : e.Everywhere D)
    (const : ∀ value, D.const value → D'.const value)
    (var : ∀ v, D.var v → D'.var v)
    (node : ∀ op es, D.node op es → D'.node op es) : e.Everywhere D' := by
  induction h with
  | const here => exact .const (const _ here)
  | var here => exact .var (var _ here)
  | node here _ ih => exact .node (node _ _ here) ih

/-- That operand counts fit is a demand on the nodes. -/
theorem wellFormed_iff_everywhere {e : Expr} :
    e.WellFormed
      ↔ e.Everywhere (.onNodes fun op es => op.arity.accepts es.length = true) := by
  induction e with
  | const value => exact ⟨fun _ => .const trivial, fun _ => .const value⟩
  | var v => exact ⟨fun _ => .var trivial, fun _ => .var v⟩
  | node op operands ih =>
    rw [wellFormed_node, everywhere_node]
    exact and_congr_right fun _ => forall₂_congr ih

/-- Trees that meet a demand with fitting operand counts are well formed. -/
theorem Everywhere.wellFormed {e : Expr} (h : e.Everywhere D)
    (count : ∀ op es, D.node op es → op.arity.accepts es.length = true) :
    e.WellFormed :=
  wellFormed_iff_everywhere.2
    (h.imp (fun _ _ => trivial) (fun _ _ => trivial) count)

/-- No constant is NaN: a NaN is written, but not read. -/
def NoNaN : Expr → Prop :=
  Everywhere (.onConstants fun value => value.isNaN = false)

/-- No operation takes any number of operands: these have no flat text. -/
def NoVariadic : Expr → Prop :=
  Everywhere (.onNodes fun op _ => op ≠ .sumExp ∧ op ≠ .logSumExp)

end Expr

/-! ## §2. Demands that survive differentiation. -/

/-- The demand is met by what the rules make out of nodes that meet it. -/
structure Demand.Differentiable (D : Demand) : Prop where
  zero : D.const 0
  one : D.const 1
  two : D.const 2
  add (a b : Expr) : D.node .add [a, b]
  subtract (a b : Expr) : D.node .subtract [a, b]
  multiply (a b : Expr) : D.node .multiply [a, b]
  negate (a : Expr) : D.node .negate [a]
  quotient {a b : Expr} (h : D.node .divide [a, b]) (c : Expr) :
    D.node .divide [c, .multiply b b]
  distance {w : Width} {es : List Expr} (h : D.node (.distance w) es)
    (c : Expr) : D.node .divide [c, .multiply (.const 2) (.node (.distance w) es)]
  exponential {es : List Expr} (h : D.node .sumExp es ∨ D.node .logSumExp es)
    (e : Expr) : D.node .sumExp [e]
  sumExp {es : List Expr} (h : D.node .logSumExp es) : D.node .sumExp es
  logarithm {es : List Expr} (h : D.node .logSumExp es) (c : Expr) :
    D.node .divide [c, .sumExp es]

/-- The rules make nodes with fitting operand counts, so a demand survives that
asks no more of a node. -/
theorem Demand.differentiable_of_accepts {D : Demand} (zero : D.const 0)
    (one : D.const 1) (two : D.const 2)
    (node : ∀ op es, op.arity.accepts es.length = true → D.node op es) :
    D.Differentiable where
  zero := zero
  one := one
  two := two
  add _ _ := node _ _ rfl
  subtract _ _ := node _ _ rfl
  multiply _ _ := node _ _ rfl
  negate _ := node _ _ rfl
  quotient _ _ := node _ _ rfl
  distance _ _ := node _ _ rfl
  exponential _ _ := node _ _ rfl
  sumExp _ := node _ _ rfl
  logarithm _ _ := node _ _ rfl

namespace Expr

variable {D : Demand}

theorem everywhere_single {op : Op} {a : Expr} (here : D.node op [a])
    (ha : a.Everywhere D) : (node op [a]).Everywhere D := by
  refine .node here ?_
  intro e he
  rw [List.mem_singleton.1 he]
  exact ha

theorem everywhere_pair {op : Op} {a b : Expr} (here : D.node op [a, b])
    (ha : a.Everywhere D) (hb : b.Everywhere D) :
    (node op [a, b]).Everywhere D := by
  refine .node here ?_
  intro e he
  rcases List.mem_cons.1 he with rfl | he
  · exact ha
  · rw [List.mem_singleton.1 he]
    exact hb

/-- An operand and its derivative meet the demand. -/
def MeetsBoth (D : Demand) (t : Tangent) : Prop :=
  t.base.Everywhere D ∧ t.slope.Everywhere D

theorem everywhere_nestedSum (hD : D.Differentiable) {term : Tangent → Expr}
    {ts : List Tangent} (h : ∀ t ∈ ts, (term t).Everywhere D) :
    (Tangent.nestedSum term ts).Everywhere D := by
  induction ts with
  | nil => exact .const hD.zero
  | cons t ts ih =>
    obtain ⟨hhead, htail⟩ := List.forall_mem_cons.1 h
    cases ts with
    | nil => exact hhead
    | cons u us => exact everywhere_pair (hD.add _ _) hhead (ih htail)

theorem everywhere_product (hD : D.Differentiable) {s t : Tangent}
    (hs : MeetsBoth D s) (ht : MeetsBoth D t) : (s.product t).Everywhere D :=
  everywhere_pair (hD.add _ _)
    (everywhere_pair (hD.multiply _ _) hs.2 ht.1)
    (everywhere_pair (hD.multiply _ _) hs.1 ht.2)

theorem everywhere_sumOfSquares (hD : D.Differentiable) {ts : List Tangent}
    (h : ∀ t ∈ ts, MeetsBoth D t) : (Tangent.sumOfSquares ts).Everywhere D :=
  everywhere_nestedSum hD fun t ht => everywhere_product hD (h t ht) (h t ht)

theorem everywhere_sumOfExps (hD : D.Differentiable) {ts : List Tangent}
    (hexp : ∀ e, D.node .sumExp [e]) (h : ∀ t ∈ ts, MeetsBoth D t) :
    (Tangent.sumOfExps ts).Everywhere D :=
  everywhere_nestedSum hD fun t ht =>
    everywhere_pair (hD.multiply _ _)
      (everywhere_single (hexp _) (h t ht).1) (h t ht).2

/-- A node's derivative meets the demand when the node does, its operands do
and their derivatives do.  For counts without a rule the NaN must be
allowed. -/
theorem everywhere_nodeSlope (hD : D.Differentiable) {op : Op} {ts : List Tangent}
    (here : D.node op (ts.map Tangent.base)) (each : ∀ t ∈ ts, MeetsBoth D t)
    (count : D.const Numeric.nan ∨ op.arity.accepts ts.length = true) :
    (nodeSlope op ts).Everywhere D := by
  have hbases : ∀ e ∈ ts.map Tangent.base, e.Everywhere D := by
    intro e he
    obtain ⟨t, ht, rfl⟩ := List.mem_map.1 he
    exact (each t ht).1
  -- the cases are the rows of the table of rules
  fun_cases Expr.nodeSlope op ts with
  | case1 a b =>
    exact everywhere_pair (hD.add _ _) (each a (by simp)).2 (each b (by simp)).2
  | case2 a b =>
    exact everywhere_pair (hD.subtract _ _)
      (each a (by simp)).2 (each b (by simp)).2
  | case3 a b => exact everywhere_product hD (each a (by simp)) (each b (by simp))
  | case4 a b =>
    have ha := each a (by simp)
    have hb := each b (by simp)
    refine everywhere_pair (hD.quotient here _) ?_ ?_
    · exact everywhere_pair (hD.subtract _ _)
        (everywhere_pair (hD.multiply _ _) ha.2 hb.1)
        (everywhere_pair (hD.multiply _ _) ha.1 hb.2)
    · exact everywhere_pair (hD.multiply _ _) hb.1 hb.1
  | case5 a => exact everywhere_single (hD.negate _) (each a (by simp)).2
  | case6 w ts => exact everywhere_sumOfSquares hD each
  | case7 w ts =>
    refine everywhere_pair (hD.distance here _) (everywhere_sumOfSquares hD each) ?_
    exact everywhere_pair (hD.multiply _ _) (.const hD.two) (.node here hbases)
  | case8 ts => exact everywhere_sumOfExps hD (hD.exponential (.inl here)) each
  | case9 ts =>
    refine everywhere_pair (hD.logarithm here _) ?_ ?_
    · exact everywhere_sumOfExps hD (hD.exponential (.inr here)) each
    · exact .node (hD.sumExp here) hbases
  | case10 t => exact .const hD.zero
  | case11 t => exact .const hD.zero
  | case12 a b c =>
    refine everywhere_pair (hD.add _ _) ?_ (each c (by simp)).2
    exact everywhere_product hD (each a (by simp)) (each b (by simp))
  | case13 op ts =>
    rcases count with hnan | hcount
    · exact .const hnan
    · -- an accepted count has a row of its own
      exfalso
      cases Op.shape_of_accepts hcount <;> simp_all

/-- A tree with its derivative. -/
def tangentOf (v : Var) (e : Expr) : Tangent := ⟨e, e.diff v⟩

theorem map_base_tangentOf (v : Var) (es : List Expr) :
    (es.map (tangentOf v)).map Tangent.base = es := by
  rw [List.map_map]
  exact List.map_id _

theorem diff_node_tangentOf (v : Var) (op : Op) (operands : List Expr) :
    (node op operands).diff v = nodeSlope op (operands.map (tangentOf v)) :=
  diff_node ..

/-- A demand survives differentiation. -/
theorem Everywhere.diff (hD : D.Differentiable) {e : Expr} (v : Var)
    (h : e.Everywhere D) (count : D.const Numeric.nan ∨ e.WellFormed) :
    (e.diff v).Everywhere D := by
  induction h with
  | const here => exact .const hD.zero
  | @var u here =>
    rw [diff_var]
    split
    · exact .const hD.one
    · exact .const hD.zero
  | @node op operands here each ih =>
    rw [diff_node_tangentOf]
    refine everywhere_nodeSlope hD (by rwa [map_base_tangentOf]) ?_ ?_
    · intro t ht
      obtain ⟨e, he, rfl⟩ := List.mem_map.1 ht
      have hcount := count.imp_right fun hw => (wellFormed_node.1 hw).2 e he
      exact ⟨each e he, ih e he hcount⟩
    · rw [List.length_map]
      exact count.imp_right fun hw => (wellFormed_node.1 hw).1

theorem accepted_differentiable :
    (Demand.onNodes fun op es =>
      op.arity.accepts es.length = true).Differentiable :=
  Demand.differentiable_of_accepts trivial trivial trivial fun _ _ h => h

/-- The rules keep operand counts. -/
theorem wellFormed_diff {e : Expr} (v : Var) (h : e.WellFormed) :
    (e.diff v).WellFormed :=
  wellFormed_iff_everywhere.2
    (Everywhere.diff accepted_differentiable v (wellFormed_iff_everywhere.1 h)
      (.inl trivial))

/-! ## §3. One derivative after another. -/

/-- The derivative by each of the variables in turn. -/
def diffAlong (e : Expr) (vs : List Var) : Expr :=
  vs.foldl (fun d v => d.diff v) e

/-- A demand survives any number of differentiations. -/
theorem Everywhere.diffAlong (hD : D.Differentiable) {e : Expr}
    (h : e.Everywhere D) (count : D.const Numeric.nan ∨ e.WellFormed)
    (vs : List Var) : (e.diffAlong vs).Everywhere D := by
  induction vs generalizing e with
  | nil => exact h
  | cons v vs ih =>
    exact ih (h.diff hD v count) (count.imp_right (wellFormed_diff v))

end Expr

end Trivariate
