/-
  Trivariate.Proofs.Parse.RoundTrip
  ─────────────────────────────────
  **TREES ARE READ BACK FROM THEIR TEXT.**

  The words that are found in the text of a tree are the words the notation
  writes for it, and these spell the tree when every operation takes as many
  operands as it has and no constant is NaN.  What words spell is read, and
  nothing else is; so the text is read as the very tree it was written from,
  down to the sign of zero.

  Main results:

      parse_grouped_render   both grouped texts of a tree are read as the tree
      parse_flat_render      so is the flat text of a tree in which every
                             operation has a fixed number of operands
-/
import Trivariate.Proofs.Expr.Everywhere
import Trivariate.Proofs.Expr.Render
import Trivariate.Proofs.Parse.Flat
import Trivariate.Proofs.Parse.Grouped

namespace Trivariate.Parse

open Trivariate.Numeric (literal?_constantText infinity)

/-! ## §1. Words of several trees. -/

/-- In a grammar of word lists that may be joined, the words of each of some
trees together spell all of them. -/
theorem spells_each {Spells : List String → List Expr → Prop} (nil : Spells [] [])
    (append : ∀ {ws vs es ds}, Spells ws es → Spells vs ds →
      Spells (ws ++ vs) (es ++ ds))
    {words : Expr → List String} {es : List Expr}
    (h : ∀ e ∈ es, Spells (words e) [e]) : Spells (es.flatMap words) es := by
  induction es with
  | nil => exact nil
  | cons e es ih =>
    obtain ⟨he, hes⟩ := List.forall_mem_cons.1 h
    exact append he (ih hes)

/-! ## §2. Grouped text. -/

/-- The words of a tree in a grouped notation spell it. -/
theorem Grouped.spells_wordsIn {n : Notation} (hn : n ≠ .flat) {e : Expr}
    (hcount : e.WellFormed) (hnan : e.NoNaN) :
    Grouped.Spells (e.wordsIn n) [e] := by
  induction e with
  | const value =>
    have hvalue : value.isNaN = false := Expr.everywhere_const.1 hnan
    exact .const (literal?_constantText hvalue) .nil
  | var v => exact .var .nil
  | node op operands ih =>
    obtain ⟨count, hcounts⟩ := Expr.wellFormed_node.1 hcount
    obtain ⟨-, hnans⟩ := Expr.everywhere_node.1 hnan
    have heach : Grouped.Spells (operands.flatMap (Expr.wordsIn n)) operands :=
      spells_each .nil Grouped.Spells.append
        fun e he => ih e he (hcounts e he) (hnans e he)
    cases n with
    | flat => exact absurd rfl hn
    | operationFirst =>
      -- nothing stands before the operation
      rw [wordsIn_operationFirst]
      exact .group .nil heach count .nil
    | operationLast =>
      -- nothing stands behind it
      have hlast : op.arity.accepts (operands ++ []).length = true := by
        rw [List.append_nil]
        exact count
      have hgroup := Grouped.Spells.group heach .nil hlast .nil
      rw [wordsIn_operationLast]
      rw [List.append_nil] at hgroup
      exact hgroup

theorem Grouped.parse_render {n : Notation} (hn : n ≠ .flat) {e : Expr}
    (hcount : e.WellFormed) (hnan : e.NoNaN) :
    Grouped.parse (e.render n) = .ok e := by
  have hmarks : Grouped.isParenthesis = n.isMark := by
    cases n with
    | flat => exact absurd rfl hn
    | operationFirst => rfl
    | operationLast => rfl
  refine Grouped.parse_of_spells ?_
  unfold Grouped.words
  rw [hmarks, scan_render]
  exact Grouped.spells_wordsIn hn hcount hnan

/-- Both grouped texts of a tree are read as the tree, when every operation
takes as many operands as it has and no constant is NaN. -/
theorem parse_grouped_render {e : Expr} (hcount : e.WellFormed) (hnan : e.NoNaN) :
    Grouped.parse (e.render .operationFirst) = .ok e
      ∧ Grouped.parse (e.render .operationLast) = .ok e := by
  constructor
  · exact Grouped.parse_render (by decide) hcount hnan
  · exact Grouped.parse_render (by decide) hcount hnan

/-- A negative number beside the minus sign of an operation, a negative zero,
an infinity, and a group without operands. -/
theorem parse_grouped_render_signs :
    let e : Expr := .subtract (.const (-5))
      (.node .mulAdd [.sumExp [], .const (-0), .negate (.const infinity)])
    e.WellFormed ∧ e.NoNaN
      ∧ e.render .operationFirst = "(- -5 (*+ (sumexp ) -0 (negate Infinity)))"
      ∧ e.render .operationLast = "(-5 (( sumexp) -0 (Infinity negate) *+) -)"
      ∧ Grouped.parse (e.render .operationFirst) = .ok e
      ∧ Grouped.parse (e.render .operationLast) = .ok e := by
  intro e
  have hcount : e.WellFormed := by
    simp [e, Expr.wellFormed_node, Op.arity, Arity.accepts, Expr.WellFormed.const]
  have hnan : e.NoNaN := by
    have h5 : (-5 : Float).isNaN = false := by decide +kernel
    have h0 : (-0 : Float).isNaN = false := by decide +kernel
    have hinf : infinity.isNaN = false := by decide +kernel
    simp only [e, Expr.NoNaN, Demand.onConstants, Expr.everywhere_node,
      Expr.everywhere_const, List.forall_mem_cons,
      List.not_mem_nil, false_imp_iff, implies_true, and_self, h5, h0, hinf]
  exact ⟨hcount, hnan, by decide +kernel, by decide +kernel,
    parse_grouped_render hcount hnan⟩

/-! ## §3. Flat text. -/

/-- The flat words of a tree spell it, when every operation has a fixed number
of operands. -/
theorem Flat.spells_wordsIn {e : Expr} (hcount : e.WellFormed)
    (hfixed : e.NoVariadic) (hnan : e.NoNaN) :
    Flat.Spells (e.wordsIn .flat) [e] := by
  induction e with
  | const value =>
    have hvalue : value.isNaN = false := Expr.everywhere_const.1 hnan
    exact .const (literal?_constantText hvalue) .nil
  | var v => exact .var .nil
  | node op operands ih =>
    obtain ⟨count, hcounts⟩ := Expr.wellFormed_node.1 hcount
    obtain ⟨hop, hfixeds⟩ := Expr.everywhere_node.1 hfixed
    obtain ⟨-, hnans⟩ := Expr.everywhere_node.1 hnan
    have heach : Flat.Spells (operands.flatMap (Expr.wordsIn .flat)) operands :=
      spells_each .nil Flat.Spells.append
        fun e he => ih e he (hcounts e he) (hfixeds e he) (hnans e he)
    rw [wordsIn_flat]
    exact .node heach (Op.arity_eq_fixed hop count) .nil

/-- The flat text of a tree is read as the tree, when every operation takes a
fixed number of operands and has as many, and no constant is NaN. -/
theorem parse_flat_render {e : Expr} (hcount : e.WellFormed)
    (hfixed : e.NoVariadic) (hnan : e.NoNaN) :
    Flat.parse (e.render .flat) = .ok e := by
  have hmarks : (fun _ => false) = Notation.flat.isMark := rfl
  refine Flat.parse_of_spells ?_
  unfold Flat.words
  rw [hmarks, scan_render]
  exact Flat.spells_wordsIn hcount hfixed hnan

/-- Operands of operands, a negative number and a negative zero beside the
minus sign of an operation. -/
theorem parse_flat_render_signs :
    let e : Expr := .subtract (.const (-5))
      (.node .mulAdd [.var .x, .const (-0), .negate (.const infinity)])
    e.WellFormed ∧ e.NoVariadic ∧ e.NoNaN
      ∧ e.render .flat = "-5 x -0 Infinity negate *+ -"
      ∧ Flat.parse (e.render .flat) = .ok e := by
  intro e
  have hcount : e.WellFormed := by
    simp [e, Expr.wellFormed_node, Op.arity, Arity.accepts, Expr.WellFormed.const,
      Expr.WellFormed.var]
  have hfixed : e.NoVariadic := by
    simp [e, Expr.NoVariadic, Demand.onNodes]
  have hnan : e.NoNaN := by
    have h5 : (-5 : Float).isNaN = false := by decide +kernel
    have h0 : (-0 : Float).isNaN = false := by decide +kernel
    have hinf : infinity.isNaN = false := by decide +kernel
    simp only [e, Expr.NoNaN, Demand.onConstants, Expr.everywhere_node,
      Expr.everywhere_const, Expr.everywhere_var, List.forall_mem_cons,
      List.not_mem_nil, false_imp_iff, implies_true, and_self, h5, h0, hinf]
  exact ⟨hcount, hfixed, hnan, by decide +kernel,
    parse_flat_render hcount hfixed hnan⟩

end Trivariate.Parse
