/-
  Trivariate.Expr.Basic
  ─────────────────────
  **EXPRESSION TREES.**

  A tree of operations over constants and the three variables.  The operands
  of a node are a list of any length: whether the operation takes that many is
  said by `WellFormed` and checked by `Expr.build?`, not by the type, for
  trees that break it have a meaning too.

  Every function that follows the tree is `Expr.fold`, or a mutual recursion
  of the same shape, and so is computed by its equations on the tree.

  Main results:

      Expr.fold_node     what a fold does at a node, on the list of operands
      Expr.induct        induction with the hypothesis for each operand
-/
import Trivariate.Variable
import Trivariate.Operation

namespace Trivariate

/-! ## §1. Trees. -/

/-- An expression over the three variables. -/
inductive Expr where
  | const (value : Float)
  | var (v : Var)
  | node (op : Op) (operands : List Expr)

namespace Expr

/-- The operation of a node; a leaf has none. -/
def op? : Expr → Option Op
  | .node op _ => some op
  | _ => none

/-- The operands of a node; a leaf has none. -/
def operands : Expr → List Expr
  | .node _ operands => operands
  | _ => []

/-- To prove a property of all trees, prove it of the leaves, and of a node
whose operands have it. -/
@[induction_eliminator]
theorem induct {motive : Expr → Prop}
    (const : ∀ value, motive (.const value))
    (var : ∀ v, motive (.var v))
    (node : ∀ op operands, (∀ e ∈ operands, motive e) → motive (.node op operands))
    (e : Expr) : motive e :=
  @Expr.rec motive (fun es => ∀ e ∈ es, motive e)
    const var node (fun _ h => absurd h List.not_mem_nil)
    (fun _ _ he hes _ h => (List.mem_cons.1 h).elim (fun h => h ▸ he) (hes _)) e

/-! ## §2. Folds. -/

mutual

/-- Combine a tree from its leaves up. -/
def fold {α : Type} (const : Float → α) (var : Var → α)
    (node : Op → List α → α) : Expr → α
  | .const value => const value
  | .var v => var v
  | .node op operands => node op (foldEach const var node operands)

/-- The folds of each of the operands. -/
def foldEach {α : Type} (const : Float → α) (var : Var → α)
    (node : Op → List α → α) : List Expr → List α
  | [] => []
  | e :: es => fold const var node e :: foldEach const var node es

end

section fold

variable {α : Type} (const : Float → α) (var : Var → α) (node : Op → List α → α)

@[simp] theorem foldEach_eq_map (es : List Expr) :
    foldEach const var node es = es.map (fold const var node) := by
  induction es with
  | nil => rfl
  | cons e es ih => rw [foldEach, ih, List.map_cons]

@[simp] theorem fold_const (value : Float) :
    fold const var node (.const value) = const value := rfl

@[simp] theorem fold_var (v : Var) :
    fold const var node (.var v) = var v := rfl

@[simp] theorem fold_node (op : Op) (operands : List Expr) :
    fold const var node (.node op operands)
      = node op (operands.map (fold const var node)) := by
  rw [fold, foldEach_eq_map]

end fold

/-! ## §3. Size and depth. -/

/-- The number of nodes and leaves. -/
def size : Expr → Nat :=
  fold (fun _ => 1) (fun _ => 1) fun _ sizes => 1 + sizes.foldr (· + ·) 0

/-- The number of nodes on the longest way from the root to a leaf. -/
def depth : Expr → Nat :=
  fold (fun _ => 1) (fun _ => 1) fun _ depths => 1 + depths.foldr max 0

@[simp] theorem size_node (op : Op) (operands : List Expr) :
    (node op operands).size = 1 + (operands.map size).foldr (· + ·) 0 :=
  fold_node ..

@[simp] theorem depth_node (op : Op) (operands : List Expr) :
    (node op operands).depth = 1 + (operands.map depth).foldr max 0 :=
  fold_node ..

/-! ## §4. Equality by value. -/

mutual

/-- Same shape, operations and variables, and constants equal as numbers: the
two zeros are equal, and a NaN equals nothing.

Trees are compared structurally, down to every leaf.  There is no shortcut that
takes operands which two nodes share as equal without looking at them: under
such a shortcut a node that holds a NaN would equal a copy of itself which
shares its operands, and here it does not.  No other comparison would come out
differently. -/
def beq : Expr → Expr → Bool
  | .const a, .const b => a == b
  | .var u, .var v => u == v
  | .node f es, .node g ds => f == g && beqEach es ds
  | _, _ => false

/-- Equal lengths, and operands equal pair by pair. -/
def beqEach : List Expr → List Expr → Bool
  | [], [] => true
  | e :: es, d :: ds => beq e d && beqEach es ds
  | _, _ => false

end

instance : BEq Expr := ⟨beq⟩

/-! ## §5. Building nodes. -/

abbrev zero : Expr := .const 0

abbrev one : Expr := .const 1

abbrev two : Expr := .const 2

abbrev add (a b : Expr) : Expr := .node .add [a, b]

abbrev subtract (a b : Expr) : Expr := .node .subtract [a, b]

abbrev multiply (a b : Expr) : Expr := .node .multiply [a, b]

abbrev divide (a b : Expr) : Expr := .node .divide [a, b]

abbrev negate (a : Expr) : Expr := .node .negate [a]

abbrev sumExp (operands : List Expr) : Expr := .node .sumExp operands

abbrev logSumExp (operands : List Expr) : Expr := .node .logSumExp operands

/-- The node of an operation that takes as many operands as are given. -/
def build? (op : Op) (operands : List Expr) : Except ArityMismatch Expr :=
  if op.arity.accepts operands.length then .ok (.node op operands)
  else .error ⟨op, operands.length⟩

/-- Every operation in the tree takes as many operands as it has. -/
inductive WellFormed : Expr → Prop where
  | const (value : Float) : WellFormed (.const value)
  | var (v : Var) : WellFormed (.var v)
  | node {op : Op} {operands : List Expr}
      (count : op.arity.accepts operands.length = true)
      (each : ∀ e ∈ operands, WellFormed e) : WellFormed (.node op operands)

/-- What is built is the node, and it is built when the count fits. -/
theorem build?_eq_ok {op : Op} {operands : List Expr} {e : Expr} :
    build? op operands = .ok e
      ↔ op.arity.accepts operands.length = true ∧ .node op operands = e := by
  unfold build?
  split
  next hcount => simp [hcount]
  next hcount => simp [hcount]

end Expr

end Trivariate
