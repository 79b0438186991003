/-
  Trivariate.Proofs.Expr.Placed
  ─────────────────────────────
  **WHERE THE PARTS OF A TREE STAND IN ITS TEXT.**

  All subtrees of a tree, operands before their node and from left to right,
  each with the byte offset of its text in the text of the tree.  The offsets
  are sums of the lengths of what stands before; that they are right is that
  at each of them the text of the subtree stands.

  Main results:

      standsAt_of_mem_placed     every subtree stands where it is placed
      everywhere_of_mem_placed   what a tree has everywhere, its subtrees have
-/
import Trivariate.Proofs.Expr.Everywhere
import Trivariate.Proofs.Expr.Render
import Trivariate.Proofs.Text.Position

namespace Trivariate

open Trivariate.Text

/-! ## §1. Places. -/

/-- A subtree, and the offset of its text. -/
structure Placed where
  tree : Expr
  start : Nat

/-- How far behind the beginning of a node's text that of its first operand
begins: in a group behind the parenthesis, and behind the operation and its
blank where that is first. -/
def operandsStart : Notation → Op → Nat
  | .flat, _ => 0
  | .operationFirst, op => op.token.utf8ByteSize + 2
  | .operationLast, _ => 1

/-- How many bytes the texts of the trees take up with one blank for each. -/
def spread (n : Notation) (es : List Expr) : Nat :=
  (es.map fun e => (e.render n).utf8ByteSize + 1).sum

mutual

/-- The subtrees of a tree whose text begins at `start`; a node stands behind
its operands. -/
def placed (n : Notation) (start : Nat) : Expr → List Placed
  | .const value => [⟨.const value, start⟩]
  | .var v => [⟨.var v, start⟩]
  | .node op operands =>
      placedEach n (start + operandsStart n op) operands ++ [⟨.node op operands, start⟩]

/-- The subtrees of several trees whose texts have one blank between them, the
first of which begins at `start`. -/
def placedEach (n : Notation) (start : Nat) : List Expr → List Placed
  | [] => []
  | e :: es => placed n start e ++ placedEach n (start + (e.render n).utf8ByteSize + 1) es

end

/-! ## §2. Texts with a blank behind or before them. -/

section each

variable {n : Notation} {text : String} {es : List Expr}

theorem spread_cons (n : Notation) (e : Expr) (es : List Expr) :
    spread n (e :: es) = (e.render n).utf8ByteSize + 1 + spread n es := rfl

theorem byteLength_blankBehind (n : Notation) (es : List Expr) :
    byteLength (es.flatMap fun e => (e.render n).toList ++ [' ']) = spread n es := by
  induction es with
  | nil => rfl
  | cons e es ih =>
    rw [List.flatMap_cons, byteLength_append, byteLength_append, byteLength_toList, ih,
      spread_cons]
    rfl

theorem byteLength_blankBefore (n : Notation) (es : List Expr) :
    byteLength (es.flatMap fun e => ' ' :: (e.render n).toList) = spread n es := by
  induction es with
  | nil => rfl
  | cons e es ih =>
    rw [List.flatMap_cons, byteLength_append, byteLength_cons, byteLength_toList, ih,
      spread_cons, Nat.add_comm ' '.utf8Size]
    rfl

/-- Every subtree of the tree stands where it is placed, when the tree does. -/
def Expr.StandsPlaced (n : Notation) (text : String) (e : Expr) : Prop :=
  ∀ start rest, Ahead text start ((e.render n).toList ++ rest) →
    ∀ p ∈ placed n start e, StandsAt text p.start (p.tree.render n)

theorem ahead_render {e : Expr} {start : Nat} {rest : List Char}
    (h : Ahead text start ((e.render n).toList ++ rest)) :
    Ahead text (start + (e.render n).utf8ByteSize) rest := by
  have hrest := h.append
  rwa [byteLength_toList] at hrest

theorem standsPlaced_blankBehind (heach : ∀ e ∈ es, e.StandsPlaced n text) :
    ∀ start rest,
      Ahead text start (es.flatMap (fun e => (e.render n).toList ++ [' ']) ++ rest) →
        ∀ p ∈ placedEach n start es, StandsAt text p.start (p.tree.render n) := by
  induction es with
  | nil => simp [placedEach]
  | cons e es ih =>
    intro start rest h
    obtain ⟨he, hes⟩ := List.forall_mem_cons.1 heach
    rw [List.flatMap_cons, List.append_assoc, List.append_assoc, List.singleton_append] at h
    rw [placedEach]
    refine List.forall_mem_append.2 ⟨he start _ h, ?_⟩
    exact ih hes _ rest (ahead_render h).cons

theorem standsPlaced_blankBefore (heach : ∀ e ∈ es, e.StandsPlaced n text) :
    ∀ start rest,
      Ahead text start (es.flatMap (fun e => ' ' :: (e.render n).toList) ++ rest) →
        ∀ p ∈ placedEach n (start + 1) es, StandsAt text p.start (p.tree.render n) := by
  induction es with
  | nil => simp [placedEach]
  | cons e es ih =>
    intro start rest h
    obtain ⟨he, hes⟩ := List.forall_mem_cons.1 heach
    rw [List.flatMap_cons, List.append_assoc, List.cons_append] at h
    rw [placedEach]
    refine List.forall_mem_append.2 ⟨he _ _ h.cons, ?_⟩
    exact ih hes _ rest (ahead_render h.cons)

end each

/-! ## §3. The whole tree. -/

/-- The operands of a node stand where they are placed, when the node does. -/
theorem standsPlaced_operands {n : Notation} {text : String} {op : Op}
    {operands : List Expr} (heach : ∀ e ∈ operands, e.StandsPlaced n text) {start : Nat}
    {rest : List Char}
    (h : Ahead text start (((Expr.node op operands).render n).toList ++ rest)) :
    ∀ p ∈ placedEach n (start + operandsStart n op) operands,
      StandsAt text p.start (p.tree.render n) := by
  cases n with
  | flat =>
    rw [toList_flat, List.append_assoc] at h
    exact standsPlaced_blankBehind heach start _ h
  | operationFirst =>
    cases operands with
    | nil => simp [placedEach]
    | cons d ds =>
      rw [toList_operationFirst_cons, List.cons_append, List.append_assoc,
        List.append_assoc] at h
      have hoperands := h.cons.append
      rw [byteLength_toList] at hoperands
      have hstart : start + operandsStart .operationFirst op
          = start + 1 + op.token.utf8ByteSize + 1 := by
        show start + (op.token.utf8ByteSize + 2) = _
        omega
      rw [hstart]
      exact standsPlaced_blankBefore heach _ _ hoperands
  | operationLast =>
    cases operands with
    | nil => simp [placedEach]
    | cons d ds =>
      rw [toList_operationLast_cons, List.cons_append, List.append_assoc] at h
      exact standsPlaced_blankBehind heach _ _ h.cons

theorem standsPlaced (n : Notation) (text : String) (e : Expr) :
    e.StandsPlaced n text := by
  induction e with
  | const value =>
    intro start rest h
    exact List.forall_mem_singleton.2 h.standsAt
  | var v =>
    intro start rest h
    exact List.forall_mem_singleton.2 h.standsAt
  | node op operands ih =>
    intro start rest h
    rw [placed]
    refine List.forall_mem_append.2 ⟨standsPlaced_operands ih h, ?_⟩
    exact List.forall_mem_singleton.2 h.standsAt

/-- In the text of a tree every subtree stands where it is placed. -/
theorem standsAt_of_mem_placed {n : Notation} {e : Expr} {p : Placed}
    (h : p ∈ placed n 0 e) : StandsAt (e.render n) p.start (p.tree.render n) := by
  have hstart : Ahead (e.render n) 0 ((e.render n).toList ++ []) := by
    rw [List.append_nil]
    exact ahead_start _
  exact standsPlaced n _ e 0 [] hstart p h

/-! ## §4. Subtrees. -/

section everywhere

variable {D : Demand} {n : Notation} {p : Placed}

theorem everywhere_of_mem_placedEach {es : List Expr}
    (heach : ∀ e ∈ es, ∀ start, p ∈ placed n start e → p.tree.Everywhere D) :
    ∀ start, p ∈ placedEach n start es → p.tree.Everywhere D := by
  induction es with
  | nil => simp [placedEach]
  | cons e es ih =>
    intro start hp
    obtain ⟨he, hes⟩ := List.forall_mem_cons.1 heach
    rw [placedEach] at hp
    rcases List.mem_append.1 hp with hp | hp
    · exact he _ hp
    · exact ih hes _ hp

/-- What a tree has everywhere, each of its subtrees has everywhere. -/
theorem everywhere_of_mem_placed {e : Expr} (h : e.Everywhere D) :
    ∀ start, p ∈ placed n start e → p.tree.Everywhere D := by
  induction h with
  | const here =>
    intro start hp
    rw [List.mem_singleton.1 hp]
    exact .const here
  | var here =>
    intro start hp
    rw [List.mem_singleton.1 hp]
    exact .var here
  | node here each ih =>
    intro start hp
    rw [placed] at hp
    rcases List.mem_append.1 hp with hp | hp
    · exact everywhere_of_mem_placedEach ih _ hp
    · rw [List.mem_singleton.1 hp]
      exact .node here each

end everywhere

end Trivariate
