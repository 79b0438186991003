/-
  Trivariate.Proofs.Expr.Unambiguous
  ──────────────────────────────────
  **DIFFERENT TREES HAVE DIFFERENT GROUPED TEXTS.**

  Also trees that cannot be read back, with any number of operands at any
  operation and with NaN among their constants.  So arities cannot say where
  the operands of a group end.  What stands behind them does: the parenthesis
  or the operation's token, and no tree begins with either.

  The words of a tree are delimited by themselves: at the beginning of a longer
  list of words they determine the tree and what stands behind them.  That is
  an induction on the tree, for any other tree and any words behind the two.

  Main results:

      eq_of_leafWord    the word of a leaf determines it
      operands_end      where the operands of a group end
      delimited         the words of a tree determine it, whatever follows them
      render_eq_iff     its text determines it in both grouped notations
-/
import Trivariate.Proofs.Expr.Render
import Trivariate.Proofs.Parse.Leaf

namespace Trivariate

open Trivariate.Numeric
open Trivariate.Parse (literal?_name literal?_token ofName?_token token_ne_parenthesis)

/-! ## §1. Names, tokens and constants. -/

theorem Var.name_inj {u v : Var} : u.name = v.name ↔ u = v := by
  constructor
  · intro h
    have hu : Var.ofName? v.name = some u := Var.ofName?_eq_some.2 h
    have hv : Var.ofName? v.name = some v := Var.ofName?_eq_some.2 rfl
    exact Option.some.inj (hu.symm.trans hv)
  · intro h
    rw [h]

theorem Op.token_inj {f g : Op} : f.token = g.token ↔ f = g := by
  constructor
  · intro h
    have hf : Op.ofToken? g.token = some f := Op.ofToken?_eq_some.2 h
    have hg : Op.ofToken? g.token = some g := Op.ofToken?_eq_some.2 rfl
    exact Option.some.inj (hf.symm.trans hg)
  · intro h
    rw [h]

theorem name_ne_token (v : Var) (op : Op) : v.name ≠ op.token := by
  intro h
  have hread : Var.ofName? op.token = some v := Var.ofName?_eq_some.2 h
  rw [ofName?_token] at hread
  exact absurd hread (by simp)

/-- A word that is no literal is written for no constant, unless it is NaN. -/
theorem constantText_ne {w : String} (hliteral : literal? w = none) (hnan : w ≠ "NaN")
    (value : Float) : constantText value ≠ w := by
  intro h
  have hread := literal?_constantText_eq value
  rw [h, hliteral] at hread
  by_cases hvalue : value.isNaN = true
  · rw [constantText_of_nan hvalue] at h
    exact hnan h.symm
  · rw [if_neg hvalue] at hread
    exact absurd hread (by simp)

theorem constantText_ne_name (value : Float) (v : Var) : constantText value ≠ v.name := by
  have hnan : v.name ≠ "NaN" := by cases v <;> decide
  exact constantText_ne (literal?_name v) hnan value

theorem constantText_ne_token (value : Float) (op : Op) : constantText value ≠ op.token := by
  have hnan : ∀ op ∈ Op.all, op.token ≠ "NaN" := by decide
  exact constantText_ne (literal?_token op) (hnan op op.mem_all) value

namespace Expr

/-! ## §2. Leaves. -/

/-- The word of a leaf. -/
def leafWord? : Expr → Option String
  | .const value => some (constantText value)
  | .var v => some v.name
  | .node _ _ => none

theorem leaf_or_node (e : Expr) :
    (∃ w, e.leafWord? = some w) ∨ ∃ op operands, e = node op operands := by
  cases e with
  | const value => exact .inl ⟨_, rfl⟩
  | var v => exact .inl ⟨_, rfl⟩
  | node op operands => exact .inr ⟨op, operands, rfl⟩

/-- A leaf's word is the text of its constant or the name of its variable. -/
theorem leafWord?_eq_some {e : Expr} {w : String} :
    e.leafWord? = some w ↔
      (∃ value, constantText value = w ∧ e = .const value)
        ∨ ∃ v : Var, v.name = w ∧ e = .var v := by
  cases e with
  | const value => simp [leafWord?]
  | var v => simp [leafWord?]
  | node op operands => simp [leafWord?]

theorem wordsIn_of_leaf (n : Notation) {e : Expr} {w : String}
    (h : e.leafWord? = some w) : e.wordsIn n = [w] := by
  obtain ⟨value, rfl, rfl⟩ | ⟨v, rfl, rfl⟩ := leafWord?_eq_some.1 h
  · rfl
  · rfl

/-- The word of a leaf tells which leaf it is. -/
theorem eq_of_leafWord {a b : Expr} {w : String} (ha : a.leafWord? = some w)
    (hb : b.leafWord? = some w) : a = b := by
  obtain ⟨x, rfl, rfl⟩ | ⟨u, rfl, rfl⟩ := leafWord?_eq_some.1 ha
  · obtain ⟨y, h, rfl⟩ | ⟨v, h, rfl⟩ := leafWord?_eq_some.1 hb
    · rw [constantText_inj.1 h]
    · exact absurd h.symm (constantText_ne_name x v)
  · obtain ⟨y, h, rfl⟩ | ⟨v, h, rfl⟩ := leafWord?_eq_some.1 hb
    · exact absurd h (constantText_ne_name y u)
    · rw [Var.name_inj.1 h]

/-! ## §3. First words. -/

/-- The words that stand behind the last operand of a group. -/
def Closes (w : String) : Prop :=
  w = ")" ∨ ∃ op : Op, op.token = w

/-- The word of a leaf opens no group, and ends no operands. -/
theorem leafWord_plain {e : Expr} {w : String} (h : e.leafWord? = some w) :
    w ≠ "(" ∧ ¬ Closes w := by
  have hplain : IsWord w ∧ ∀ op : Op, op.token ≠ w := by
    obtain ⟨value, rfl, -⟩ | ⟨v, rfl, -⟩ := leafWord?_eq_some.1 h
    · exact ⟨isWord_constantText value, fun op => (constantText_ne_token value op).symm⟩
    · exact ⟨isWord_name v, fun op => (name_ne_token v op).symm⟩
  obtain ⟨hword, htoken⟩ := hplain
  constructor
  · rintro rfl
    exact absurd hword (by decide)
  · rintro (rfl | ⟨op, hop⟩)
    · exact absurd hword (by decide)
    · exact htoken op hop

section words

variable {n : Notation}

theorem wordsIn_open (hn : n ≠ .flat) (op : Op) (operands : List Expr) :
    ∃ ws, (node op operands).wordsIn n = "(" :: ws := by
  cases n with
  | flat => exact absurd rfl hn
  | operationFirst => exact ⟨_, wordsIn_operationFirst op operands⟩
  | operationLast => exact ⟨_, wordsIn_operationLast op operands⟩

/-- A tree has a first word, and it ends no operands. -/
theorem first_word (hn : n ≠ .flat) (e : Expr) :
    ∃ w ws, e.wordsIn n = w :: ws ∧ ¬ Closes w := by
  obtain ⟨w, hw⟩ | ⟨op, operands, rfl⟩ := leaf_or_node e
  · exact ⟨w, [], wordsIn_of_leaf n hw, (leafWord_plain hw).2⟩
  · obtain ⟨ws, hws⟩ := wordsIn_open hn op operands
    refine ⟨"(", ws, hws, ?_⟩
    rintro (h | ⟨op, hop⟩)
    · exact absurd h (by decide)
    · exact (token_ne_parenthesis op).1 hop

/-- So a word that ends operands is not the first word of a tree. -/
theorem closes_ne_first (hn : n ≠ .flat) {s : String} (hs : Closes s) (e : Expr)
    (us vs : List String) : s :: us ≠ e.wordsIn n ++ vs := by
  intro h
  obtain ⟨w, ws, hws, hw⟩ := first_word hn e
  rw [hws, List.cons_append] at h
  injection h with hsw
  exact hw (hsw ▸ hs)

/-! ## §4. Trees from their words. -/

/-- At the beginning of a list of words, those of the tree determine it and
what stands behind them. -/
def Delimited (n : Notation) (a : Expr) : Prop :=
  ∀ (b : Expr) (us vs : List String), a.wordsIn n ++ us = b.wordsIn n ++ vs →
    a = b ∧ us = vs

/-- Operands are at an end with the first word that ends them. -/
theorem operands_end (hn : n ≠ .flat) {es : List Expr}
    (hes : ∀ e ∈ es, Delimited n e) {s t : String} (hs : Closes s) (ht : Closes t) :
    ∀ (ds : List Expr) (us vs : List String),
      es.flatMap (wordsIn n) ++ s :: us = ds.flatMap (wordsIn n) ++ t :: vs →
        es = ds ∧ s = t ∧ us = vs := by
  induction es with
  | nil =>
    intro ds us vs h
    cases ds with
    | nil =>
      injection h with hst huv
      exact ⟨rfl, hst, huv⟩
    | cons d ds =>
      rw [List.flatMap_cons, List.append_assoc] at h
      exact absurd h (closes_ne_first hn hs d us _)
  | cons e es ih =>
    intro ds us vs h
    obtain ⟨he, hrest⟩ := List.forall_mem_cons.1 hes
    rw [List.flatMap_cons, List.append_assoc] at h
    cases ds with
    | nil => exact absurd h.symm (closes_ne_first hn ht e vs _)
    | cons d ds =>
      rw [List.flatMap_cons, List.append_assoc] at h
      obtain ⟨hed, htail⟩ := he d _ _ h
      obtain ⟨hesds, hst, huv⟩ := ih hrest ds us vs htail
      rw [hed, hesds]
      exact ⟨rfl, hst, huv⟩

theorem delimited_leaf (hn : n ≠ .flat) {a : Expr} {w : String}
    (ha : a.leafWord? = some w) : Delimited n a := by
  intro b us vs h
  rw [wordsIn_of_leaf n ha] at h
  obtain ⟨w', hb⟩ | ⟨op, operands, rfl⟩ := leaf_or_node b
  · rw [wordsIn_of_leaf n hb] at h
    injection h with hw huv
    exact ⟨eq_of_leafWord ha (hw ▸ hb), huv⟩
  · obtain ⟨ws, hws⟩ := wordsIn_open hn op operands
    rw [hws] at h
    injection h with hw
    exact absurd hw (leafWord_plain ha).1

theorem delimited_node (hn : n ≠ .flat) (f : Op) {es : List Expr}
    (hes : ∀ e ∈ es, Delimited n e) : Delimited n (node f es) := by
  intro b us vs h
  obtain ⟨w, hb⟩ | ⟨g, ds, rfl⟩ := leaf_or_node b
  · obtain ⟨hba, hvu⟩ := delimited_leaf hn hb _ _ _ h.symm
    exact ⟨hba.symm, hvu.symm⟩
  · have hclose : Closes ")" := .inl rfl
    cases n with
    | flat => exact absurd rfl hn
    | operationFirst =>
      -- the tokens are the same, and the operands end with the parenthesis
      rw [wordsIn_operationFirst, wordsIn_operationFirst] at h
      simp only [List.cons_append, List.append_assoc, List.nil_append] at h
      injection h with _ h
      injection h with hfg h
      obtain ⟨hesds, -, huv⟩ := operands_end hn hes hclose hclose ds us vs h
      rw [Op.token_inj.1 hfg, hesds]
      exact ⟨rfl, huv⟩
    | operationLast =>
      -- the operands end with the tokens
      rw [wordsIn_operationLast, wordsIn_operationLast] at h
      simp only [List.cons_append, List.append_assoc, List.nil_append] at h
      injection h with _ h
      obtain ⟨hesds, hfg, huv⟩ :=
        operands_end hn hes (.inr ⟨f, rfl⟩) (.inr ⟨g, rfl⟩) ds _ _ h
      injection huv with _ huv
      rw [Op.token_inj.1 hfg, hesds]
      exact ⟨rfl, huv⟩

theorem delimited (hn : n ≠ .flat) (a : Expr) : Delimited n a := by
  induction a with
  | const value => exact delimited_leaf hn rfl
  | var v => exact delimited_leaf hn rfl
  | node op operands ih => exact delimited_node hn op ih

/-- Trees with the same text in a grouped notation have the same words, and so
are the same. -/
theorem eq_of_render_eq (hn : n ≠ .flat) {a b : Expr} (h : a.render n = b.render n) :
    a = b := by
  have hwords : a.wordsIn n ++ [] = b.wordsIn n ++ [] := by
    rw [← scan_render, ← scan_render, h]
  exact (delimited hn a b [] [] hwords).1

end words

/-! ## §5. Texts. -/

/-- Trees are written alike in a grouped notation only if they are the same
tree, whatever their operand counts: the same operations with the same operands
in the same order, the same variables, and constants that are the same floats,
of which the zeros are two and NaN is one. -/
theorem render_eq_iff (a b : Expr) :
    (a.render .operationFirst = b.render .operationFirst ↔ a = b)
      ∧ (a.render .operationLast = b.render .operationLast ↔ a = b) := by
  have hgrouped : ∀ n : Notation, n ≠ .flat → (a.render n = b.render n ↔ a = b) := by
    intro n hn
    constructor
    · exact eq_of_render_eq hn
    · intro h
      rw [h]
  exact ⟨hgrouped .operationFirst (by decide), hgrouped .operationLast (by decide)⟩

/-- Flat text does not say which operands belong to an operation that takes any
number of them. -/
example : (add (.var .x) (sumExp [])).render .flat
    = (node .add [sumExp [.var .x]]).render .flat := by decide +kernel

end Expr

end Trivariate
