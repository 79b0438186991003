/-
  Trivariate.Proofs.Value.Dependence
  ──────────────────────────────────
  **A VALUE DEPENDS ON THE VARIABLES THAT OCCUR.**

  A tree reads a point in the variables that occur in it, and nowhere else.
  Differentiation copies operands and makes new constants, but no new variables;
  so the derivatives of a tree, however many are taken, do not read a point
  anywhere else than the tree does.

  Main results:

      everywhere_onVars         a demand on the variables is one on those that occur
      valueIn_of_agree          the value at points that agree where the tree reads
      occurs_of_diffAlong       derivatives have no variables of their own
      evaluate_diffAlong_agree  their values at such points are the same
-/
import Trivariate.Proofs.Value.Absent

namespace Trivariate.Expr

/-! ## §1. Occurrences. -/

/-- The variable occurs in the tree. -/
def Occurs (v : Var) (e : Expr) : Prop :=
  ¬ e.Without v

section occurs

variable {v : Var}

@[simp] theorem occurs_const {value : Float} : ¬ Occurs v (.const value) := by
  simp [Occurs, Without, Demand.onVars]

@[simp] theorem occurs_var {u : Var} : Occurs v (.var u) ↔ u = v := by
  simp [Occurs, Without, Demand.onVars]

@[simp] theorem occurs_node {op : Op} {es : List Expr} :
    Occurs v (.node op es) ↔ ∃ e ∈ es, Occurs v e := by
  simp [Occurs, Without, Demand.onVars]

end occurs

/-- A demand on the variables is met by a tree when those that occur meet it. -/
theorem everywhere_onVars {P : Var → Prop} {e : Expr} :
    e.Everywhere (.onVars P) ↔ ∀ v, e.Occurs v → P v := by
  induction e with
  | const value => exact ⟨fun _ v hv => absurd hv occurs_const, fun _ => .const trivial⟩
  | var u =>
    rw [everywhere_var]
    constructor
    · rintro hu v hv
      exact occurs_var.1 hv ▸ hu
    · intro h
      exact h u (occurs_var.2 rfl)
  | node op es ih =>
    rw [everywhere_node]
    constructor
    · rintro ⟨-, each⟩ v hv
      obtain ⟨d, hd, hv⟩ := occurs_node.1 hv
      exact (ih d hd).1 (each d hd) v hv
    · intro h
      refine ⟨trivial, ?_⟩
      intro d hd
      refine (ih d hd).2 ?_
      intro v hv
      exact h v (occurs_node.2 ⟨d, hd, hv⟩)

/-! ## §2. Values. -/

/-- A tree has the same value at points that agree on the variables in it. -/
theorem valueIn_of_agree {α : Type} (A : Arithmetic α) {p q : Point α} {e : Expr}
    (h : ∀ v, e.Occurs v → p.get v = q.get v) : e.valueIn A p = e.valueIn A q := by
  induction e with
  | const value => rfl
  | var u => exact h u (occurs_var.2 rfl)
  | node op es ih =>
    have hvalues : es.map (valueIn A p) = es.map (valueIn A q) := by
      refine List.map_congr_left ?_
      intro d hd
      exact ih d hd fun v hv => h v (occurs_node.2 ⟨d, hd, hv⟩)
    rw [valueIn_node, valueIn_node, hvalues]

/-! ## §3. Derivatives. -/

/-- The rules make no variables. -/
theorem onVars_differentiable (P : Var → Prop) :
    (Demand.onVars P).Differentiable :=
  Demand.differentiable_of_accepts trivial trivial trivial fun _ _ _ => trivial

/-- What occurs in a derivative of any order occurs in the tree. -/
theorem occurs_of_diffAlong {e : Expr} {vs : List Var} {v : Var}
    (h : (e.diffAlong vs).Occurs v) : e.Occurs v := by
  have here : e.Everywhere (.onVars e.Occurs) := everywhere_onVars.2 fun _ hv => hv
  have below := here.diffAlong (onVars_differentiable _) (.inl trivial) vs
  exact everywhere_onVars.1 below v h

/-- The derivatives of a tree, by any variables in turn, have the same float as
their value at two points that agree on the variables in the tree; and they have
no variables that the tree has not. -/
theorem evaluate_diffAlong_agree (e : Expr) (vs : List Var) :
    (∀ p q : Point Float, (∀ v, e.Occurs v → p.get v = q.get v) →
        (e.diffAlong vs).evaluate p = (e.diffAlong vs).evaluate q)
      ∧ ∀ v, (e.diffAlong vs).Occurs v → e.Occurs v := by
  constructor
  · intro p q h
    exact valueIn_of_agree .binary64 fun v hv => h v (occurs_of_diffAlong hv)
  · intro v
    exact occurs_of_diffAlong

/-- A distance below a quotient and a logarithm of no exponentials, at points that
differ in the one variable that is not there. -/
theorem evaluate_diffAlong_agree_quotient :
    let e : Expr := .divide (.node (.distance .three) [.var .x, .var .z])
      (.node .mulAdd [.var .z, .logSumExp [], .const Numeric.infinity])
    let p : Point Float := ⟨-0.0, 1, Numeric.nan⟩
    let q : Point Float := ⟨-0.0, Numeric.infinity, Numeric.nan⟩
    (∀ v, e.Occurs v → p.get v = q.get v) ∧ ¬ p.get .y = q.get .y
      ∧ (e.diffAlong [.x, .y, .z]).evaluate p = (e.diffAlong [.x, .y, .z]).evaluate q := by
  intro e p q
  have hagree : ∀ v, e.Occurs v → p.get v = q.get v := by
    intro v hv
    cases v with
    | x => rfl
    | y => exact absurd hv (by simp [e])
    | z => rfl
  refine ⟨hagree, ?_, (evaluate_diffAlong_agree e [.x, .y, .z]).1 p q hagree⟩
  decide +kernel

end Trivariate.Expr
