/-
  Trivariate.Parse.Flat
  ─────────────────────
  **FLAT TEXT.**

  Words are read in order against a stack of expressions: a leaf is pushed, an
  operation takes as many operands as it needs from the top and pushes its
  node.  One expression left at the end is the result.  Operations that take
  any number of operands have no place here.

  Main results:

      pushOp_ok      an operation takes its operands in the order they came
      finish_eq_ok   only a stack of one expression is a result
-/
import Trivariate.Parse.Error
import Trivariate.Parse.Leaf
import Trivariate.Text.Token

namespace Trivariate.Parse.Flat

open Trivariate.Text (Token scan)

/-! ## §1. One word. -/

/-- The expressions read so far, the last one first. -/
abbrev Stack := List Expr

/-- The stack after the operation `op`, which stands at `position`. -/
def pushOp (stack : Stack) (op : Op) (position : Nat) :
    Except ParseError Stack :=
  match op.arity with
  | .variadic => .error (.variadicInFlat op position)
  | .fixed needed =>
      if stack.length < needed then
        .error (.stackUnderflow op needed stack.length position)
      else
        .ok (.node op (stack.take needed).reverse :: stack.drop needed)

/-- The stack after one more word. -/
def step (stack : Stack) (t : Token) : Except ParseError Stack :=
  match leaf? t.text, Op.ofToken? t.text, namedConstant? t.text with
  | some leaf, _, _ => .ok (leaf :: stack)
  | none, some op, _ => pushOp stack op t.offset
  | none, none, some leaf => .ok (leaf :: stack)
  | none, none, none => .error (.invalidElement t.text t.offset)

/-- An operation whose operands are on the stack replaces them by its node,
in the order in which they came. -/
theorem pushOp_ok {op : Op} {operands : List Expr}
    (h : op.arity = .fixed operands.length) (stack : Stack) (position : Nat) :
    pushOp (operands.reverse ++ stack) op position
      = .ok (.node op operands :: stack) := by
  simp [pushOp, h]

/-! ## §2. The whole text. -/

/-- The result of a text of `length` bytes that leaves this stack. -/
def finish (length : Nat) : Stack → Except ParseError Expr
  | [] => .error (.emptyInput length)
  | [e] => .ok e
  | _ :: rest => .error (.trailingOperands rest.length length)

theorem finish_eq_ok {length : Nat} {stack : Stack} {e : Expr} :
    finish length stack = .ok e ↔ stack = [e] := by
  constructor
  · intro h
    match stack with
    | [] => simp [finish] at h
    | [d] => simpa [finish] using h
    | _ :: _ :: _ => simp [finish] at h
  · rintro rfl
    rfl

/-- The words of a flat text: parentheses are ordinary characters. -/
def words (text : String) : List Token :=
  scan (fun _ => false) text

/-- The expression that a flat text spells. -/
def parse (text : String) : Except ParseError Expr := do
  let stack ← (words text).foldlM step []
  finish text.utf8ByteSize stack

end Trivariate.Parse.Flat
