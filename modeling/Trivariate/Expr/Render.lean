/-
  Trivariate.Expr.Render
  ──────────────────────
  **THE TEXT OF AN EXPRESSION.**

  One blank separates neighbours; a grouped node without operands keeps the
  blank that would stand beside them, so that it is no other node's text.
  Any tree has a text in every notation, also one that cannot be read back.

  Main results:

      render_flat, render_first, render_last   the text of a node from the
                                               texts of its operands
-/
import Trivariate.Expr.Basic
import Trivariate.Notation
import Trivariate.Numeric.Numeral

namespace Trivariate.Expr

/-! ## §1. The text of one node. -/

/-- The operands, each followed by a blank, then the operation. -/
def flatNode (op : Op) (operands : List String) : String :=
  String.join (operands.map (· ++ " ")) ++ op.token

/-- A group that begins with its operation. -/
def operationFirstNode (op : Op) : List String → String
  | [] => "(" ++ op.token ++ " )"
  | operands => "(" ++ op.token ++ String.join (operands.map (" " ++ ·)) ++ ")"

/-- A group that ends with its operation. -/
def operationLastNode (op : Op) : List String → String
  | [] => "( " ++ op.token ++ ")"
  | operands => "(" ++ String.join (operands.map (· ++ " ")) ++ op.token ++ ")"

/-- The text of a node in a notation, from the texts of its operands. -/
def nodeText : Notation → Op → List String → String
  | .flat => flatNode
  | .operationFirst => operationFirstNode
  | .operationLast => operationLastNode

/-! ## §2. The text of a tree. -/

/-- The text of an expression in a notation. -/
def render (n : Notation) : Expr → String :=
  fold Numeric.constantText Var.name (nodeText n)

@[simp] theorem render_const (n : Notation) (value : Float) :
    render n (.const value) = Numeric.constantText value := rfl

@[simp] theorem render_var (n : Notation) (v : Var) :
    render n (.var v) = v.name := rfl

@[simp] theorem render_node (n : Notation) (op : Op) (operands : List Expr) :
    render n (.node op operands) = nodeText n op (operands.map (render n)) :=
  fold_node ..

example : render .flat (add (.var .x) (multiply two (.var .y)))
    = "x 2 y * +" := by decide +kernel

example : render .operationFirst (add (.var .x) (multiply two (.var .y)))
    = "(+ x (* 2 y))" := by decide +kernel

example : render .operationLast (add (.var .x) (multiply two (.var .y)))
    = "(x (2 y *) +)" := by decide +kernel

example : render .operationFirst (sumExp []) = "(sumexp )"
    ∧ render .operationLast (sumExp []) = "( sumexp)" := by decide +kernel

end Trivariate.Expr
