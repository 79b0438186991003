/-
  Trivariate.Proofs.Expr.Equality
  ───────────────────────────────
  **TREES THAT COMPARE EQUAL.**

  Trees are compared node by node, and their constants as floats: a NaN equals
  nothing, and the sign of a zero is not seen.  So trees compare equal when there
  is no NaN in them and they are the same once negative zeros are made zeros.
  What does not depend on constants is then the same for both.  The derivatives
  compare equal, for the rules copy constants and make none but 0, 1 and 2 where
  operand counts fit.  Texts and values do show the sign of a zero; they are the
  same when there are no zeros, for then the trees are the same.

  Main results:

      fold_mapConst    what is computed from a tree with other constants
      diff_mapConst    replacing constants can be exchanged with differentiating
      beq_iff_plain    equal trees are the same but for the signs of zeros
      beq_laws         comparing is a partial equivalence; what it respects
-/
import Trivariate.Expr.Eval
import Trivariate.Expr.Render
import Trivariate.Proofs.Expr.Rewriting
import Trivariate.Proofs.Numeric.Comparison

namespace Trivariate.Expr

/-! ## §1. Other constants. -/

/-- The tree with its constants replaced. -/
def mapConst (f : Float → Float) : Expr → Expr :=
  fold (fun value => .const (f value)) .var .node

section mapConst

variable {f : Float → Float}

@[simp] theorem mapConst_const (value : Float) :
    (const value).mapConst f = .const (f value) := rfl

@[simp] theorem mapConst_var (v : Var) : (var v).mapConst f = .var v := rfl

@[simp] theorem mapConst_node (op : Op) (es : List Expr) :
    (node op es).mapConst f = .node op (es.map (mapConst f)) :=
  fold_node ..

/-- What a fold makes of other constants it could make of the constants. -/
theorem fold_mapConst {α : Type} (const : Float → α) (var : Var → α)
    (node : Op → List α → α) (e : Expr) :
    fold const var node (e.mapConst f) = fold (fun x => const (f x)) var node e := by
  induction e with
  | const value => rfl
  | var v => rfl
  | node op es ih =>
    rw [mapConst_node, fold_node, fold_node, List.map_map]
    exact congrArg (node op) (List.map_congr_left ih)

theorem size_mapConst (e : Expr) : (e.mapConst f).size = e.size :=
  fold_mapConst ..

theorem depth_mapConst (e : Expr) : (e.mapConst f).depth = e.depth :=
  fold_mapConst ..

theorem everywhere_mapConst {P : Float → Prop} {e : Expr} :
    (e.mapConst f).Everywhere (.onConstants P)
      ↔ e.Everywhere (.onConstants fun x => P (f x)) := by
  induction e with
  | const value => rw [mapConst_const, everywhere_const, everywhere_const]; rfl
  | var v => rw [mapConst_var, everywhere_var, everywhere_var]; rfl
  | node op es ih =>
    rw [mapConst_node, everywhere_node, everywhere_node, List.forall_mem_map]
    exact and_congr_right fun _ => forall₂_congr ih

/-- A tree is the same when its constants are replaced by themselves. -/
theorem mapConst_eq_self {e : Expr}
    (h : e.Everywhere (.onConstants fun x => f x = x)) : e.mapConst f = e := by
  induction e with
  | const value => exact congrArg const (everywhere_const.1 h)
  | var v => rfl
  | node op es ih =>
    have heach : ∀ d ∈ es, d.mapConst f = d := fun d hd =>
      ih d hd ((everywhere_node.1 h).2 d hd)
    rw [mapConst_node, List.map_congr_left heach, List.map_id']

variable (zero : f 0 = 0) (one : f 1 = 1) (two : f 2 = 2)
  (nan : f Numeric.nan = Numeric.nan)

include zero two nan in
theorem mapConst_keepsRules : KeepsRules (mapConst f) where
  zero := congrArg const zero
  two := congrArg const two
  nan := congrArg const nan
  add _ _ := rfl
  subtract _ _ := rfl
  multiply _ _ := rfl
  divide _ _ := rfl
  negate _ := rfl
  distance _ _ := mapConst_node ..
  sumExp _ := mapConst_node ..

include zero one two nan in
/-- Replacing constants can be exchanged with differentiating, when the constants
that the rules make are not replaced. -/
theorem diff_mapConst (e : Expr) (v : Var) :
    (e.mapConst f).diff v = (e.diff v).mapConst f := by
  induction e with
  | const value => exact (congrArg const zero).symm
  | var u =>
    rw [mapConst_var, diff_var]
    split
    · exact (congrArg const one).symm
    · exact (congrArg const zero).symm
  | node op es ih =>
    rw [mapConst_node]
    exact (mapConst_keepsRules zero two nan).diff_node op ih

end mapConst

/-! ## §2. The signs of zeros. -/

/-- The tree with zeros in the place of negative zeros. -/
def plain : Expr → Expr := mapConst Numeric.plain

/-- No constant is zero, of either sign. -/
def NoZero : Expr → Prop :=
  Everywhere (.onConstants fun value => ¬ Numeric.IsZero value)

theorem diff_plain (e : Expr) (v : Var) : e.plain.diff v = (e.diff v).plain :=
  diff_mapConst (by decide +kernel) (by decide +kernel) (by decide +kernel)
    (by decide +kernel) e v

theorem noNaN_plain {e : Expr} : e.plain.NoNaN ↔ e.NoNaN := by
  unfold plain NoNaN
  rw [everywhere_mapConst]
  simp only [Numeric.isNaN_plain]

theorem noZero_plain {e : Expr} : e.plain.NoZero ↔ e.NoZero := by
  unfold plain NoZero
  rw [everywhere_mapConst]
  simp only [Numeric.isZero_plain]

theorem plain_eq_self {e : Expr} (h : e.NoZero) : e.plain = e :=
  mapConst_eq_self (h.imp (fun _ => Numeric.plain_of_not_isZero)
    (fun _ => id) (fun _ _ => id))

theorem noNaN_const {value : Float} : (const value).NoNaN ↔ value.isNaN = false :=
  everywhere_const

theorem noNaN_var (v : Var) : (var v).NoNaN :=
  .var trivial

theorem noNaN_node {op : Op} {es : List Expr} :
    (node op es).NoNaN ↔ ∀ e ∈ es, e.NoNaN :=
  everywhere_node.trans (iff_of_eq (true_and _))

/-! ## §3. Comparing. -/

/-- Lists of operands compare equal as their members do. -/
theorem beqEach_iff_plain {es : List Expr}
    (h : ∀ e ∈ es, ∀ d, beq e d = true ↔ e.NoNaN ∧ e.plain = d.plain) :
    ∀ ds, beqEach es ds = true ↔ (∀ e ∈ es, e.NoNaN) ∧ es.map plain = ds.map plain := by
  induction es with
  | nil =>
    intro ds
    cases ds with
    | nil => simp [beqEach]
    | cons d ds => simp [beqEach]
  | cons e es ih =>
    intro ds
    obtain ⟨he, hes⟩ := List.forall_mem_cons.1 h
    cases ds with
    | nil => simp [beqEach]
    | cons d ds =>
      rw [beqEach, Bool.and_eq_true, he, ih hes, List.forall_mem_cons, List.map_cons,
        List.map_cons, List.cons.injEq]
      exact and_and_and_comm

/-- Trees compare equal when there is no NaN in them and they are the same but for
the signs of zeros. -/
theorem beq_iff_plain {a b : Expr} :
    (a == b) = true ↔ a.NoNaN ∧ a.plain = b.plain := by
  show beq a b = true ↔ _
  induction a generalizing b with
  | const x =>
    cases b with
    | const y =>
      show (x == y) = true
        ↔ (const x).NoNaN ∧ const (Numeric.plain x) = .const (Numeric.plain y)
      rw [Numeric.beq_iff_plain, noNaN_const, Expr.const.injEq]
    | _ => exact ⟨Bool.noConfusion, fun h => Expr.noConfusion h.2⟩
  | var u =>
    cases b with
    | var v =>
      show (u == v) = true ↔ (var u).NoNaN ∧ var u = .var v
      rw [beq_iff_eq, Expr.var.injEq, and_iff_right (noNaN_var u)]
    | _ => exact ⟨Bool.noConfusion, fun h => Expr.noConfusion h.2⟩
  | node f es ih =>
    cases b with
    | node g ds =>
      show (f == g && beqEach es ds) = true ↔ _ ∧ mapConst _ _ = mapConst _ _
      rw [Bool.and_eq_true, beq_iff_eq, beqEach_iff_plain fun e he d => ih e he,
        noNaN_node, mapConst_node, mapConst_node, Expr.node.injEq]
      exact and_left_comm
    | _ => exact ⟨Bool.noConfusion, fun h => Expr.noConfusion h.2⟩

/-- Comparing is symmetric and transitive. -/
instance : PartialEquivBEq Expr where
  symm {a b} h := by
    obtain ⟨ha, hab⟩ := beq_iff_plain.1 h
    exact beq_iff_plain.2 ⟨noNaN_plain.1 (hab ▸ noNaN_plain.2 ha), hab.symm⟩
  trans {a b c} h h' := by
    obtain ⟨ha, hab⟩ := beq_iff_plain.1 h
    exact beq_iff_plain.2 ⟨ha, hab.trans (beq_iff_plain.1 h').2⟩

/-- A tree equals itself when there is no NaN in it. -/
theorem beq_self_iff {a : Expr} : (a == a) = true ↔ a.NoNaN :=
  beq_iff_plain.trans (and_iff_left rfl)

/-! ## §4. What equal trees have in common. -/

section congr

variable {a b : Expr} (h : (a == b) = true)

include h

theorem size_of_beq : a.size = b.size := by
  calc a.size = a.plain.size := (size_mapConst a).symm
    _ = b.plain.size := by rw [(beq_iff_plain.1 h).2]
    _ = b.size := size_mapConst b

theorem depth_of_beq : a.depth = b.depth := by
  calc a.depth = a.plain.depth := (depth_mapConst a).symm
    _ = b.plain.depth := by rw [(beq_iff_plain.1 h).2]
    _ = b.depth := depth_mapConst b

/-- Without zeros, the trees are the same. -/
theorem eq_of_beq_of_noZero (ha : a.NoZero) : a = b := by
  have hab := (beq_iff_plain.1 h).2
  have hb : b.NoZero := noZero_plain.1 (hab ▸ noZero_plain.2 ha)
  calc a = a.plain := (plain_eq_self ha).symm
    _ = b.plain := hab
    _ = b := plain_eq_self hb

end congr

/-- The rules make no NaN where operand counts fit. -/
theorem noNaN_diff {e : Expr} (he : e.NoNaN) (hcount : e.WellFormed) (v : Var) :
    (e.diff v).NoNaN :=
  he.diff (Demand.differentiable_of_accepts rfl rfl rfl fun _ _ _ => trivial) v
    (.inr hcount)

theorem beq_diff {a b : Expr} (h : (a == b) = true) (ha : a.WellFormed) (v : Var) :
    (a.diff v == b.diff v) = true := by
  obtain ⟨hnan, hab⟩ := beq_iff_plain.1 h
  refine beq_iff_plain.2 ⟨noNaN_diff hnan ha v, ?_⟩
  rw [← diff_plain, ← diff_plain, hab]

/-- Comparing is symmetric and transitive, and a tree equals itself when no
constant in it is NaN, and only then.  Equal trees have one size and one depth;
their derivatives are equal when operand counts fit in one of them, and so in
both; and if one of them has no zeros, and so neither has, they have the same text
in every notation and the same value at every point. -/
theorem beq_laws :
    (∀ a b : Expr, (a == b) = true → (b == a) = true)
      ∧ (∀ a b c : Expr, (a == b) = true → (b == c) = true → (a == c) = true)
      ∧ (∀ a : Expr, (a == a) = true ↔ a.NoNaN)
      ∧ ∀ a b : Expr, (a == b) = true →
        a.size = b.size ∧ a.depth = b.depth
          ∧ (a.WellFormed → ∀ v, (a.diff v == b.diff v) = true)
          ∧ (a.NoZero → (∀ n, a.render n = b.render n)
              ∧ ∀ p, a.evaluate p = b.evaluate p) := by
  refine ⟨fun a b => BEq.symm, fun a b c => BEq.trans, fun a => beq_self_iff, ?_⟩
  intro a b h
  refine ⟨size_of_beq h, depth_of_beq h, beq_diff h, ?_⟩
  intro ha
  rw [eq_of_beq_of_noZero h ha]
  exact ⟨fun _ => rfl, fun _ => rfl⟩

/-- Quotients by zero and by negative zero, which are equal but for their texts and
values; and trees without zeros, with the same constant written in two ways. -/
theorem beq_laws_quotient :
    let a : Expr := .divide (.node (.distance .two) [.var .x, .two]) zero
    let b : Expr := .divide (.node (.distance .two) [.var .x, .two]) (.const (-0.0))
    let c : Expr := .logSumExp [.const 0.25, .var .z]
    let d : Expr := .logSumExp [.const (1 / 4), .var .z]
    ((a == b) = true ∧ a.WellFormed ∧ (a.diff .x == b.diff .x) = true
        ∧ ¬ a.evaluate ⟨3, 0, 0⟩ = b.evaluate ⟨3, 0, 0⟩)
      ∧ (c == d) = true ∧ c.NoZero ∧ (∀ n, c.render n = d.render n)
        ∧ ∀ p, c.evaluate p = d.evaluate p := by
  intro a b c d
  have hab : (a == b) = true := by decide +kernel
  have hcd : (c == d) = true := by decide +kernel
  have ha : a.WellFormed := by
    simp [a, wellFormed_node, Op.arity, Arity.accepts, Width.toNat, WellFormed.const,
      WellFormed.var]
  have hc : c.NoZero := by
    have hquarter : ¬ Numeric.IsZero 0.25 := by
      unfold Numeric.IsZero
      decide +kernel
    simp [c, NoZero, Demand.onConstants, hquarter]
  obtain ⟨-, -, -, hlaws⟩ := beq_laws
  exact ⟨⟨hab, ha, (hlaws a b hab).2.2.1 ha .x, by decide +kernel⟩,
    hcd, hc, (hlaws c d hcd).2.2.2 hc⟩

end Trivariate.Expr
