/-
  Trivariate.Proofs.Value.Masking
  ───────────────────────────────
  **NO OPERATION MASKS A NaN.**

  Every operation on floats gives NaN when one of its operands is NaN, and so do
  sums of any number of terms.  An operation without a rule for its operand
  count gives NaN, too.  A NaN in a tree therefore reaches the value of the tree
  through whatever stands around it, and NaN is a sign of failure that can be
  relied on.

  Main results:

      Strict.apply                a bad operand makes the value bad
      binary64_strict             among floats NaN is bad
      isNaN_evaluate_of_spoiled   NaN anywhere in a tree is its value
-/
import Trivariate.Proofs.Expr.Rules
import Trivariate.Proofs.Numeric.Special

namespace Trivariate

open Trivariate.Numeric

/-! ## §1. Strict arithmetics. -/

/-- An operation is bad on bad numbers, and bad where it has no rule. -/
structure Arithmetic.Strict {α : Type} (A : Arithmetic α) (Bad : α → Prop) : Prop where
  undefined : Bad A.undefined
  add {a b : α} (h : Bad a ∨ Bad b) : Bad (A.add a b)
  subtract {a b : α} (h : Bad a ∨ Bad b) : Bad (A.subtract a b)
  multiply {a b : α} (h : Bad a ∨ Bad b) : Bad (A.multiply a b)
  divide {a b : α} (h : Bad a ∨ Bad b) : Bad (A.divide a b)
  negate {a : α} (h : Bad a) : Bad (A.negate a)
  exp {a : α} (h : Bad a) : Bad (A.exp a)
  ln {a : α} (h : Bad a) : Bad (A.ln a)
  sqrt {a : α} (h : Bad a) : Bad (A.sqrt a)
  floor {a : α} (h : Bad a) : Bad (A.floor a)
  ceil {a : α} (h : Bad a) : Bad (A.ceil a)

namespace Arithmetic.Strict

variable {α : Type} {A : Arithmetic α} {Bad : α → Prop} (hA : A.Strict Bad)

include hA

/-- What has been added up is bad from the first bad term on. -/
theorem foldl (values : List α) : ∀ start : α,
    (Bad start ∨ ∃ a ∈ values, Bad a) → Bad (values.foldl A.add start) := by
  induction values with
  | nil =>
    intro start h
    simpa using h
  | cons b values ih =>
    intro start h
    -- the new start stands for the old one and the first term
    rw [List.foldl_cons]
    refine ih _ ?_
    rcases h with hstart | ⟨a, ha, hbad⟩
    · exact .inl (hA.add (.inl hstart))
    · rcases List.mem_cons.1 ha with rfl | ha
      · exact .inl (hA.add (.inr hbad))
      · exact .inr ⟨a, ha, hbad⟩

/-- A sum is bad when the term of some bad value is. -/
theorem sum {term : α → α} (hterm : ∀ a, Bad a → Bad (term a)) {values : List α}
    (h : ∃ a ∈ values, Bad a) : Bad (A.sum (values.map term)) := by
  obtain ⟨a, ha, hbad⟩ := h
  exact hA.foldl _ _ (.inr ⟨term a, List.mem_map_of_mem ha, hterm a hbad⟩)

theorem sumOfSquares {values : List α} (h : ∃ a ∈ values, Bad a) :
    Bad (A.sumOfSquares values) :=
  hA.sum (fun _ hbad => hA.multiply (.inl hbad)) h

theorem sumOfExps {values : List α} (h : ∃ a ∈ values, Bad a) :
    Bad (A.sumOfExps values) :=
  hA.sum (fun _ hbad => hA.exp hbad) h

/-- A bad operand makes the value of an operation bad, whatever it is and
however many operands there are. -/
theorem apply (op : Op) {values : List α} (h : ∃ a ∈ values, Bad a) :
    Bad (op.apply A values) := by
  -- the cases are the rows of the table of values
  fun_cases Op.apply A op values with
  | case1 a b => exact hA.add (by simpa using h)
  | case2 a b => exact hA.subtract (by simpa using h)
  | case3 a b => exact hA.multiply (by simpa using h)
  | case4 a b => exact hA.divide (by simpa using h)
  | case5 a => exact hA.negate (by simpa using h)
  | case6 w values => exact hA.sumOfSquares h
  | case7 w values => exact hA.sqrt (hA.sumOfSquares h)
  | case8 values => exact hA.sumOfExps h
  | case9 values => exact hA.ln (hA.sumOfExps h)
  | case10 a => exact hA.floor (by simpa using h)
  | case11 a => exact hA.ceil (by simpa using h)
  | case12 a b c =>
    -- a bad factor makes the product bad, which is a term beside the last operand
    have habc : (Bad a ∨ Bad b) ∨ Bad c := by simpa [or_assoc] using h
    exact hA.add (habc.imp_left hA.multiply)
  | case13 op values => exact hA.undefined

end Arithmetic.Strict

/-! ## §2. Floats. -/

theorem keepNaN_of_isNaN (f : Float → Float) {x : Float} (h : x.isNaN = true) :
    (keepNaN f x).isNaN = true := by
  unfold keepNaN
  rw [if_pos h]
  exact isNaN_nan

/-- Among floats NaN is bad. -/
theorem binary64_strict : Arithmetic.binary64.Strict (·.isNaN = true) where
  undefined := isNaN_nan
  add := isNaN_add
  subtract := isNaN_sub
  multiply := isNaN_mul
  divide := isNaN_div
  negate := isNaN_neg
  exp := keepNaN_of_isNaN Float.exp
  ln := keepNaN_of_isNaN Float.log
  sqrt := isNaN_sqrt
  floor := keepNaN_of_isNaN Float.floor
  ceil := keepNaN_of_isNaN Float.ceil

/-! ## §3. Trees. -/

namespace Expr

/-- Somewhere in the tree stands a leaf that is NaN at the point, or an
operation, neither a sum nor made of a sum, on an operand count that it does not
take. -/
inductive Spoiled (p : Point Float) : Expr → Prop where
  | const {value : Float} (here : value.isNaN = true) : Spoiled p (.const value)
  | var {v : Var} (here : (p.get v).isNaN = true) : Spoiled p (.var v)
  | count {op : Op} {es : List Expr} (kind : op.ofSums = false)
      (here : op.arity.accepts es.length = false) : Spoiled p (.node op es)
  | operand {op : Op} {es : List Expr} {d : Expr} (part : d ∈ es)
      (below : Spoiled p d) : Spoiled p (.node op es)

/-- A tree in which a leaf is NaN, or an operation is not defined for its operand
count, has the value NaN. -/
theorem isNaN_evaluate_of_spoiled {e : Expr} {p : Point Float} (h : e.Spoiled p) :
    (e.evaluate p).isNaN = true := by
  unfold evaluate
  induction h with
  | const here => exact here
  | var here => exact here
  | @count op es kind here =>
    have hnone : op.hasRule (es.map (valueIn .binary64 p)).length = false := by
      rw [List.length_map, Op.hasRule, kind, here]
      rfl
    rw [valueIn_node, Op.apply_eq_undefined _ hnone]
    exact isNaN_nan
  | @operand op es d part _ ih =>
    rw [valueIn_node]
    exact binary64_strict.apply op ⟨_, List.mem_map_of_mem part, ih⟩

/-- A multiply-add of two operands, beside an infinity in a distance, below the
logarithm of a sum of exponentials. -/
theorem isNaN_evaluate_of_spoiled_mulAdd :
    let e : Expr := .logSumExp [.var .x,
      .node (.distance .three) [.zero, .node .mulAdd [.var .y, .two], .var .z]]
    let p : Point Float := ⟨1, -0.0, Numeric.infinity⟩
    e.Spoiled p ∧ (e.evaluate p).isNaN = true := by
  intro e p
  have hmulAdd : (Expr.node .mulAdd [.var .y, .two]).Spoiled p := .count rfl rfl
  have hdistance : (Expr.node (.distance .three)
      [.zero, .node .mulAdd [.var .y, .two], .var .z]).Spoiled p :=
    .operand (by simp) hmulAdd
  have he : e.Spoiled p := .operand (by simp) hdistance
  exact ⟨he, isNaN_evaluate_of_spoiled he⟩

end Expr

end Trivariate
