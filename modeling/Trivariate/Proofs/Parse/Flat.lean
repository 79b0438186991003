/-
  Trivariate.Proofs.Parse.Flat
  ────────────────────────────
  **WHAT FLAT TEXT SPELLS.**

  Words spell trees in post-order: the operands of a node in their order, and
  behind them its operation.  Nothing marks where the operands begin; the
  number that the operation takes does.  So the stack may hold anything when
  the words of a tree begin, and they leave it there, under the tree.

  In the other direction, the trees on the stack, from the first to the last,
  are spelled by the words that have been read: an operation finds its
  operands spelled by the last of them.

  Main results:

      Spells.pushes             words that spell trees push these, onto any
                                stack
      parse_of_spells           a text whose words spell one tree is read as it
      Spells.step               one word keeps the stack spelled
      parse_ok_iff_postorder    a text is read as a tree if and only if its
                                words spell it, and they spell at most one
-/
import Trivariate.Parse.Flat
import Trivariate.Proofs.Parse.Leaf
import Trivariate.Proofs.Parse.Run
import Trivariate.Proofs.Text.Cut

namespace Trivariate.Parse.Flat

open Trivariate.Numeric (literal?)
open Trivariate.Text (Token Cut exists_cut_iff)

/-! ## §1. Post-order. -/

/-- The words spell the trees, in order, each of them in post-order. -/
inductive Spells : List String → List Expr → Prop where
  | nil : Spells [] []
  | var {v : Var} {ws : List String} {es : List Expr} (rest : Spells ws es) :
      Spells (v.name :: ws) (.var v :: es)
  | const {word : String} {value : Float} {ws : List String} {es : List Expr}
      (reads : literal? word = some value) (rest : Spells ws es) :
      Spells (word :: ws) (.const value :: es)
  | named {word : String} {e : Expr} {ws : List String} {es : List Expr}
      (names : namedConstant? word = some e) (rest : Spells ws es) :
      Spells (word :: ws) (e :: es)
  | node {op : Op} {ws vs : List String} {ds es : List Expr}
      (operands : Spells ws ds) (count : op.arity = .fixed ds.length)
      (rest : Spells vs es) :
      Spells (ws ++ op.token :: vs) (.node op ds :: es)

theorem Spells.append {ws vs : List String} {es ds : List Expr}
    (h : Spells ws es) (h' : Spells vs ds) : Spells (ws ++ vs) (es ++ ds) := by
  induction h with
  | nil => exact h'
  | var _ ih => exact .var ih
  | const reads _ ih => exact .const reads ih
  | named names _ ih => exact .named names ih
  | node operands count _ _ ih =>
    rw [List.append_assoc]
    exact .node operands count ih

/-! ## §2. One word. -/

/-- The name of a constant is neither a leaf nor an operation. -/
theorem no_leaf_of_named {word : String} {e : Expr}
    (h : namedConstant? word = some e) :
    leaf? word = none ∧ Op.ofToken? word = none := by
  have hnames : ∀ w ∈ ["NULL", "ONE", "one", "TWO", "two"],
      leaf? w = none ∧ Op.ofToken? w = none := by decide +kernel
  have hmem := List.mem_map_of_mem (f := Prod.fst) (namedConstant?_eq_some.1 h)
  exact hnames word hmem

theorem step_leaf {t : Token} {e : Expr} (h : leaf? t.text = some e)
    (stack : Stack) : step stack t = .ok (e :: stack) := by
  unfold step
  rw [h]

theorem step_named {t : Token} {e : Expr} (h : namedConstant? t.text = some e)
    (stack : Stack) : step stack t = .ok (e :: stack) := by
  obtain ⟨hleaf, hop⟩ := no_leaf_of_named h
  unfold step
  rw [hleaf, hop, h]

theorem step_operation {t : Token} {op : Op} (h : t.text = op.token)
    (stack : Stack) : step stack t = pushOp stack op t.offset := by
  unfold step
  rw [h, leaf?_token, Op.ofToken?_eq_some.2 rfl]

/-! ## §3. What is spelled is pushed. -/

/-- Onto any stack, the words push the trees, and nothing below them is
changed. -/
def Pushes (ws : List String) (es : List Expr) : Prop :=
  ∀ ts : List Token, ts.map Token.text = ws → ∀ stack : Stack,
    ts.foldlM step stack = .ok (es.reverse ++ stack)

/-- A word that pushes its tree, followed by words that push theirs. -/
theorem Pushes.cons {word : String} {e : Expr} {ws : List String} {es : List Expr}
    (hword : ∀ t : Token, t.text = word → ∀ stack, step stack t = .ok (e :: stack))
    (rest : Pushes ws es) : Pushes (word :: ws) (e :: es) := by
  intro ts hts stack
  obtain ⟨t, us, rfl, ht, hus⟩ := List.map_eq_cons_iff.1 hts
  rw [List.foldlM_cons, hword t ht]
  show us.foldlM step (e :: stack) = _
  rw [rest us hus, List.reverse_cons, List.append_assoc]
  rfl

/-- Words that push the operands, then the operation. -/
theorem Pushes.node {op : Op} {ws vs : List String} {ds es : List Expr}
    (operands : Pushes ws ds) (count : op.arity = .fixed ds.length)
    (rest : Pushes vs es) : Pushes (ws ++ op.token :: vs) (.node op ds :: es) := by
  intro ts hts stack
  obtain ⟨left, tail, rfl, hleft, htail⟩ := List.map_eq_append_iff.1 hts
  obtain ⟨t, us, rfl, ht, hus⟩ := List.map_eq_cons_iff.1 htail
  -- the operands lie on top of the stack, the last one first
  rw [List.foldlM_append, operands left hleft]
  show (t :: us).foldlM step (ds.reverse ++ stack) = _
  rw [List.foldlM_cons, step_operation ht, pushOp_ok count]
  show us.foldlM step (.node op ds :: stack) = _
  rw [rest us hus, List.reverse_cons, List.append_assoc]
  rfl

/-- Words that spell trees push them, onto any stack. -/
theorem Spells.pushes {ws : List String} {es : List Expr} (h : Spells ws es) :
    Pushes ws es := by
  induction h with
  | nil =>
    intro ts hts stack
    rw [List.map_eq_nil_iff.1 hts]
    rfl
  | @var v _ _ _ ih =>
    refine ih.cons fun t ht => step_leaf ?_
    rw [ht]
    exact leaf?_name v
  | const reads _ ih =>
    refine ih.cons fun t ht => step_leaf ?_
    rw [ht]
    exact leaf?_literal reads
  | named names _ ih =>
    refine ih.cons fun t ht => step_named ?_
    rw [ht]
    exact names
  | node _ count _ operands rest => exact operands.node count rest

/-! ## §4. What one word can do. -/

/-- An operation that is pushed finds its operands on top of the stack. -/
theorem pushOp_cases {stack stack' : Stack} {op : Op} {position : Nat}
    (h : pushOp stack op position = .ok stack') :
    ∃ operands below, stack = operands.reverse ++ below
      ∧ op.arity = .fixed operands.length
      ∧ stack' = .node op operands :: below := by
  unfold pushOp at h
  cases harity : op.arity with
  | variadic =>
    rw [harity] at h
    exact absurd h (by simp)
  | fixed needed =>
    rw [harity] at h
    dsimp only at h
    by_cases hlt : stack.length < needed
    · rw [if_pos hlt] at h
      exact absurd h (by simp)
    · rw [if_neg hlt] at h
      injection h with h
      refine ⟨(stack.take needed).reverse, stack.drop needed, ?_, ?_, h.symm⟩
      · rw [List.reverse_reverse, List.take_append_drop]
      · rw [List.length_reverse, List.length_take, Nat.min_eq_left (by omega)]

/-- A word that is read pushes a leaf or a constant that it names, or is an
operation. -/
theorem step_cases {stack stack' : Stack} {t : Token} (h : step stack t = .ok stack') :
    (∃ e, leaf? t.text = some e ∧ stack' = e :: stack)
      ∨ (∃ op, op.token = t.text ∧ pushOp stack op t.offset = .ok stack')
      ∨ ∃ e, namedConstant? t.text = some e ∧ stack' = e :: stack := by
  unfold step at h
  cases hleaf : leaf? t.text with
  | some e =>
    rw [hleaf] at h
    injection h with h
    exact .inl ⟨e, rfl, h.symm⟩
  | none =>
    cases hop : Op.ofToken? t.text with
    | some op =>
      rw [hleaf, hop] at h
      exact .inr (.inl ⟨op, Op.ofToken?_eq_some.1 hop, h⟩)
    | none =>
      cases hname : namedConstant? t.text with
      | some e =>
        rw [hleaf, hop, hname] at h
        injection h with h
        exact .inr (.inr ⟨e, rfl, h.symm⟩)
      | none =>
        rw [hleaf, hop, hname] at h
        exact absurd h (by simp)

/-! ## §5. What is on the stack is spelled. -/

theorem spells_leaf {word : String} {e : Expr} (h : leaf? word = some e) :
    Spells [word] [e] := by
  rcases leaf?_eq_some.1 h with ⟨v, rfl, rfl⟩ | ⟨value, hvalue, rfl⟩
  · exact .var .nil
  · exact .const hvalue .nil

/-- The words of the first tree, and those of the others. -/
theorem Spells.uncons {ws : List String} {e : Expr} {es : List Expr}
    (h : Spells ws (e :: es)) :
    ∃ us vs, ws = us ++ vs ∧ Spells us [e] ∧ Spells vs es := by
  cases h with
  | var rest => exact ⟨[_], _, rfl, .var .nil, rest⟩
  | const reads rest => exact ⟨[_], _, rfl, .const reads .nil, rest⟩
  | named names rest => exact ⟨[_], _, rfl, .named names .nil, rest⟩
  | @node op ws vs ds _ operands count rest =>
    refine ⟨ws ++ [op.token], vs, ?_, .node operands count .nil, rest⟩
    rw [List.append_assoc]
    rfl

/-- Between two trees the words can be cut. -/
theorem Spells.split {ws : List String} {ds es : List Expr}
    (h : Spells ws (ds ++ es)) :
    ∃ us vs, ws = us ++ vs ∧ Spells us ds ∧ Spells vs es := by
  induction ds generalizing ws with
  | nil => exact ⟨[], ws, rfl, .nil, h⟩
  | cons d ds ih =>
    obtain ⟨first, rest, rfl, hd, hrest⟩ := h.uncons
    obtain ⟨us, vs, rfl, hds, hes⟩ := ih hrest
    exact ⟨first ++ us, vs, (List.append_assoc ..).symm, hd.append hds, hes⟩

/-- One word keeps the stack spelled, from its first tree to its last. -/
theorem Spells.step {ws : List String} {stack stack' : Stack} {t : Token}
    (hs : Spells ws stack.reverse) (h : step stack t = .ok stack') :
    Spells (ws ++ [t.text]) stack'.reverse := by
  rcases step_cases h with ⟨e, hleaf, rfl⟩ | ⟨op, htoken, hpush⟩ | ⟨e, hname, rfl⟩
  · rw [List.reverse_cons]
    exact hs.append (spells_leaf hleaf)
  · -- the last words spell the operands, and the operation stands behind them
    obtain ⟨operands, below, rfl, count, rfl⟩ := pushOp_cases hpush
    rw [List.reverse_append, List.reverse_reverse] at hs
    obtain ⟨us, vs, rfl, hbelow, hoperands⟩ := hs.split
    rw [← htoken, List.reverse_cons, List.append_assoc]
    exact hbelow.append (.node hoperands count .nil)
  · rw [List.reverse_cons]
    exact hs.append (.named hname .nil)

/-- The words that have been read spell the stack they lead to. -/
theorem Spells.run {ts : List Token} {ws : List String} {stack stack' : Stack}
    (hs : Spells ws stack.reverse) (h : ts.foldlM Flat.step stack = .ok stack') :
    Spells (ws ++ ts.map Token.text) stack'.reverse :=
  run_keeps (fun ws stack => Spells ws stack.reverse)
    (fun hs h => Spells.step hs h) hs h

/-! ## §6. The whole text. -/

theorem parse_eq_ok {text : String} {e : Expr} :
    parse text = .ok e ↔ (words text).foldlM step [] = .ok [e] := by
  unfold parse
  rw [bind_eq_ok]
  simp only [finish_eq_ok, exists_eq_right]

/-- A text whose words spell one tree is read as this tree. -/
theorem parse_of_spells {text : String} {e : Expr}
    (h : Spells ((words text).map Token.text) [e]) : parse text = .ok e :=
  parse_eq_ok.2 (h.pushes _ rfl [])

theorem spells_of_parse {text : String} {e : Expr} (h : parse text = .ok e) :
    Spells ((words text).map Token.text) [e] := by
  have hstart : Spells [] ([] : Stack).reverse := .nil
  exact hstart.run (parse_eq_ok.1 h)

/-- The text, cut into runs of characters that are not blank, spells the tree
in post-order and nothing else. -/
def Spelled (text : String) (e : Expr) : Prop :=
  ∃ ts, Cut (fun _ => false) 0 text.toList ts ∧ Spells (ts.map Token.text) [e]

/-- A text is read as a tree if and only if its words spell this tree in
post-order, and they spell at most one. -/
theorem parse_ok_iff_postorder (text : String) :
    (∀ e, parse text = .ok e ↔ Spelled text e)
      ∧ {e | Spelled text e}.Subsingleton := by
  have hparse : ∀ e, parse text = .ok e ↔ Spelled text e := by
    intro e
    unfold Spelled
    rw [exists_cut_iff]
    exact ⟨spells_of_parse, parse_of_spells⟩
  exact ⟨hparse, subsingleton_of_ok_iff hparse⟩

end Trivariate.Parse.Flat
