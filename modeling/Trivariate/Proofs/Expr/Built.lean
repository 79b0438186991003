/-
  Trivariate.Proofs.Expr.Built
  ────────────────────────────
  **THE TREES THAT CAN BE BUILT.**

  Trees are made from given constants and given texts: by reading, by putting
  operations around trees, by differentiating and by taking operands.  Only
  one of these looks at the operand count.  That every operation has as many
  operands as it takes is nevertheless kept by all, and with it that every
  value and every derivative is made by a rule.

  One demand carries this and where the constants come from; each way of
  building keeps it, and so it holds of every tree that is built.

  Main results:

      Built.sound           every built tree meets the demand
      Built.of_wellFormed   every well-formed tree over given constants is built
      Built.invariant       what this means for values and derivatives
-/
import Trivariate.Proofs.Expr.Rules
import Trivariate.Proofs.Parse.Closure

namespace Trivariate

open Trivariate.Numeric (literal?)
open Trivariate.Parse (wordsOf)

/-! ## §1. Building. -/

/-- What trees are built from. -/
structure Sources where
  /-- The constants that are given as numbers. -/
  constants : Set Float
  /-- The texts that are read, each in a notation. -/
  texts : Set (Notation × String)

namespace Expr

/-- The trees that can be built: the ways of the library to get a tree, in any
order and number. -/
inductive Built (S : Sources) : Expr → Prop where
  | const {value : Float} (given : value ∈ S.constants) : Built S (.const value)
  | var (v : Var) : Built S (.var v)
  | read {n : Notation} {text : String} {e : Expr} (given : (n, text) ∈ S.texts)
      (reads : parse n text = .ok e) : Built S e
  | operation {op : Op} {operands : List Expr} {e : Expr}
      (each : ∀ d ∈ operands, Built S d) (builds : build? op operands = .ok e) :
      Built S e
  | add {a b : Expr} (left : Built S a) (right : Built S b) : Built S (.add a b)
  | subtract {a b : Expr} (left : Built S a) (right : Built S b) :
      Built S (.subtract a b)
  | multiply {a b : Expr} (left : Built S a) (right : Built S b) :
      Built S (.multiply a b)
  | divide {a b : Expr} (left : Built S a) (right : Built S b) :
      Built S (.divide a b)
  | negate {a : Expr} (operand : Built S a) : Built S (.negate a)
  | sumExp {operands : List Expr} (each : ∀ d ∈ operands, Built S d) :
      Built S (.sumExp operands)
  | logSumExp {operands : List Expr} (each : ∀ d ∈ operands, Built S d) :
      Built S (.logSumExp operands)
  | diff {e : Expr} (v : Var) (whole : Built S e) : Built S (e.diff v)
  | operand {e d : Expr} (whole : Built S e) (part : d ∈ e.operands) : Built S d

end Expr

/-! ## §2. What building keeps. -/

namespace Sources

/-- Where a constant of a built tree can come from. -/
inductive Known (S : Sources) : Float → Prop where
  | zero : Known S 0
  | one : Known S 1
  | two : Known S 2
  | given {value : Float} (h : value ∈ S.constants) : Known S value
  | literal {n : Notation} {text word : String} {value : Float}
      (given : (n, text) ∈ S.texts) (stands : word ∈ wordsOf n text)
      (reads : literal? word = some value) (notNaN : value.isNaN = false) :
      Known S value

/-- Operations with as many operands as they take, over known constants. -/
def demand (S : Sources) : Demand where
  const := S.Known
  var _ := True
  node op operands := op.arity.accepts operands.length = true

variable {S : Sources}

theorem demand_differentiable (S : Sources) : S.demand.Differentiable :=
  Demand.differentiable_of_accepts .zero .one .two fun _ _ h => h

end Sources

namespace Expr

variable {S : Sources} {e : Expr}

theorem wellFormed_of_demand (h : e.Everywhere S.demand) : e.WellFormed :=
  h.wellFormed fun _ _ here => here

theorem known_of_demand (h : e.Everywhere S.demand) :
    e.Everywhere (.onConstants S.Known) :=
  h.imp (fun _ here => here) (fun _ _ => trivial) fun _ _ _ => trivial

/-- The constants of a text that is read are literals of it, but for zero, one
and two. -/
theorem demand_of_parse {n : Notation} {text : String}
    (given : (n, text) ∈ S.texts) (reads : parse n text = .ok e) :
    e.Everywhere S.demand := by
  have hread := Parse.readable_of_parse reads
  refine hread.imp ?_ (fun _ _ => trivial) fun _ _ here => here.1
  intro value here
  rcases here with rfl | rfl | rfl | ⟨word, hword, hliteral⟩
  · exact .zero
  · exact .one
  · exact .two
  · exact .literal given hword hliteral (Numeric.isNaN_literal? hliteral)

theorem demand_of_build? {op : Op} {operands : List Expr}
    (each : ∀ d ∈ operands, d.Everywhere S.demand)
    (builds : build? op operands = .ok e) : e.Everywhere S.demand := by
  obtain ⟨count, rfl⟩ := build?_eq_ok.1 builds
  exact .node count each

theorem demand_of_operand (h : e.Everywhere S.demand) {d : Expr}
    (part : d ∈ e.operands) : d.Everywhere S.demand := by
  cases h with
  | const here => exact absurd part List.not_mem_nil
  | var here => exact absurd part List.not_mem_nil
  | node _ each => exact each d part

/-- Every built tree meets the demand. -/
theorem Built.sound (h : e.Built S) : e.Everywhere S.demand := by
  induction h with
  | const given => exact .const (.given given)
  | var v => exact .var trivial
  | read given reads => exact demand_of_parse given reads
  | operation _ builds each => exact demand_of_build? each builds
  | add _ _ left right => exact everywhere_pair rfl left right
  | subtract _ _ left right => exact everywhere_pair rfl left right
  | multiply _ _ left right => exact everywhere_pair rfl left right
  | divide _ _ left right => exact everywhere_pair rfl left right
  | negate _ operand => exact everywhere_single rfl operand
  | sumExp _ each => exact .node rfl each
  | logSumExp _ each => exact .node rfl each
  | diff v _ whole =>
    exact whole.diff S.demand_differentiable v
      (.inr (wellFormed_of_demand whole))
  | operand _ part whole => exact demand_of_operand whole part

/-- Every well-formed tree over given constants is built, by the operations
alone. -/
theorem Built.of_wellFormed (h : e.WellFormed)
    (given : e.Everywhere (.onConstants (· ∈ S.constants))) : e.Built S := by
  induction h with
  | const value => exact .const (everywhere_const.1 given)
  | var v => exact .var v
  | @node op operands count _ ih =>
    refine .operation ?_ (build?_eq_ok.2 ⟨count, rfl⟩)
    intro d hd
    exact ih d hd ((everywhere_node.1 given).2 d hd)

/-! ## §3. The invariant. -/

/-- In every tree that can be built, operations have as many operands as they
take.  Its value, in any arithmetic and at any point, does not depend on what
stands for the value of an operation without a rule, and nothing that is
differentiated on the way to its derivative falls through to the constant NaN.
Its constants are zero, one, two, those given, and literals of the texts, which
are not NaN. -/
theorem Built.invariant (h : e.Built S) :
    e.WellFormed
      ∧ (∀ {α : Type} (A : Arithmetic α) (u : α) (p : Point α),
          e.valueIn { A with undefined := u } p = e.valueIn A p)
      ∧ (∀ d, Relation.ReflTransGen Differentiates e d →
          d.WellFormed ∧ ∀ v, d.diff v ≠ .const Numeric.nan)
      ∧ e.Everywhere (.onConstants S.Known) := by
  have hdemand := h.sound
  have hcount := wellFormed_of_demand hdemand
  refine ⟨hcount, ?_, ?_, known_of_demand hdemand⟩
  · intro α A u p
    exact valueIn_undefined hcount A u p
  · intro d hreached
    have hd := wellFormed_of_reached hreached hcount
    exact ⟨hd, diff_ne_nan hd⟩

/-- The derivative of a quotient that is read, times a given constant. -/
theorem Built.invariant_scaled_quotient :
    let S : Sources := ⟨{0.5}, {(.flat, "x y TWO distance2 /")}⟩
    let q : Expr := .divide (.var .x) (.node (.distance .two) [.var .y, .two])
    let e : Expr := .multiply (q.diff .y) (.const 0.5)
    e.Built S ∧ e.WellFormed
      ∧ (∀ {α : Type} (A : Arithmetic α) (u : α) (p : Point α),
          e.valueIn { A with undefined := u } p = e.valueIn A p)
      ∧ (∀ d, Relation.ReflTransGen Differentiates e d →
          d.WellFormed ∧ ∀ v, d.diff v ≠ .const Numeric.nan)
      ∧ e.Everywhere (.onConstants S.Known) := by
  intro S q e
  have hread : parse .flat "x y TWO distance2 /" = .ok q := by
    rfl
  have hq : q.Built S := .read (Set.mem_singleton _) hread
  have he : e.Built S := .multiply (.diff .y hq) (.const (Set.mem_singleton _))
  exact ⟨he, Built.invariant he⟩

end Expr

end Trivariate
