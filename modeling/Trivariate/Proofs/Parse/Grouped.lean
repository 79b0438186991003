/-
  Trivariate.Proofs.Parse.Grouped
  ───────────────────────────────
  **THE GRAMMAR OF GROUPED TEXT.**

  The grammar is a relation between words and trees that knows nothing of
  open groups.  The reader is compared with it in two directions.

  What the reader accepts is in the grammar: after every word, what has been
  read of each open group is a run of trees, with at most one operation among
  them.  One word keeps this, so a whole text does.

  What is in the grammar the reader accepts: inside any group, words that
  spell some trees add exactly these trees to the group's operands, whatever
  comes after them.

  Main results:

      Progress.Reads.run      what has been read is in the grammar
      Spells.run_inside       what is in the grammar is read
      parse_ok_iff_spelled    a text is read as a tree if and only if it
                              spells it, and it spells at most one
-/
import Trivariate.Parse.Grouped
import Trivariate.Proofs.Parse.Leaf
import Trivariate.Proofs.Parse.Run
import Trivariate.Proofs.Text.Cut

namespace Trivariate.Parse.Grouped

open Trivariate.Numeric (literal?)
open Trivariate.Text (Token Cut exists_cut_iff)

/-! ## §1. The grammar. -/

/-- The words spell the trees, in order.  A group is parentheses around the
operands and, at any place among them, the operation. -/
inductive Spells : List String → List Expr → Prop where
  | nil : Spells [] []
  | var {v : Var} {ws : List String} {es : List Expr} (rest : Spells ws es) :
      Spells (v.name :: ws) (.var v :: es)
  | const {word : String} {value : Float} {ws : List String} {es : List Expr}
      (reads : literal? word = some value) (rest : Spells ws es) :
      Spells (word :: ws) (.const value :: es)
  | group {op : Op} {before after ws : List String} {ds fs es : List Expr}
      (left : Spells before ds) (right : Spells after fs)
      (count : op.arity.accepts (ds ++ fs).length = true)
      (rest : Spells ws es) :
      Spells ("(" :: (before ++ op.token :: (after ++ ")" :: ws)))
        (.node op (ds ++ fs) :: es)

/-- The text, cut into parentheses and runs of other characters that are not
blank, spells the tree and nothing else. -/
def Spelled (text : String) (e : Expr) : Prop :=
  ∃ ts, Cut isParenthesis 0 text.toList ts ∧ Spells (ts.map Token.text) [e]

theorem Spells.append {ws vs : List String} {es ds : List Expr}
    (h : Spells ws es) (h' : Spells vs ds) : Spells (ws ++ vs) (es ++ ds) := by
  induction h with
  | nil => exact h'
  | var _ ih => exact .var ih
  | const reads _ ih => exact .const reads ih
  | group left right count _ _ _ ih =>
    have h := Spells.group left right count ih
    simpa only [List.cons_append, List.append_assoc] using h

theorem spells_leaf {word : String} {e : Expr} (h : leaf? word = some e) :
    Spells [word] [e] := by
  rcases leaf?_eq_some.1 h with ⟨v, rfl, rfl⟩ | ⟨value, hvalue, rfl⟩
  · exact .var .nil
  · exact .const hvalue .nil

/-! ## §2. What one word can do. -/

theorem step_start (t : Token) :
    step .start t
      = if t.text = "(" then .ok (.inside (.opened t.offset) [])
        else if t.text = ")" then .error (.emptyInput t.offset)
        else
          match leaf? t.text with
          | some leaf => .ok (.done leaf)
          | none => .error (.invalidElement t.text t.offset) := rfl

theorem step_inside (g : Group) (outer : List Group) (t : Token) :
    step (.inside g outer) t
      = if t.text = "(" then .ok (.inside (.opened t.offset) (g :: outer))
        else if t.text = ")" then g.close.map (.after · outer)
        else (g.read t).map (.inside · outer) := rfl

/-- The first word opens a group or is the whole expression. -/
theorem step_start_cases {t : Token} {q : Progress} (h : step .start t = .ok q) :
    (t.text = "(" ∧ q = .inside (.opened t.offset) [])
      ∨ ∃ e, leaf? t.text = some e ∧ q = .done e := by
  rw [step_start] at h
  by_cases hopen : t.text = "("
  · rw [if_pos hopen] at h
    injection h with h
    exact .inl ⟨hopen, h.symm⟩
  · rw [if_neg hopen] at h
    by_cases hclose : t.text = ")"
    · rw [if_pos hclose] at h
      exact absurd h (by simp)
    · rw [if_neg hclose] at h
      cases hleaf : leaf? t.text with
      | none =>
        rw [hleaf] at h
        exact absurd h (by simp)
      | some e =>
        rw [hleaf] at h
        injection h with h
        exact .inr ⟨e, rfl, h.symm⟩

/-- Inside a group a word opens a group in it, closes it, or is read by it. -/
theorem step_inside_cases {g : Group} {outer : List Group} {t : Token} {q : Progress}
    (h : step (.inside g outer) t = .ok q) :
    (t.text = "(" ∧ q = .inside (.opened t.offset) (g :: outer))
      ∨ (t.text = ")" ∧ ∃ e, g.close = .ok e ∧ q = .after e outer)
      ∨ ∃ g', g.read t = .ok g' ∧ q = .inside g' outer := by
  rw [step_inside] at h
  by_cases hopen : t.text = "("
  · rw [if_pos hopen] at h
    injection h with h
    exact .inl ⟨hopen, h.symm⟩
  · rw [if_neg hopen] at h
    by_cases hclose : t.text = ")"
    · rw [if_pos hclose] at h
      obtain ⟨e, he, hq⟩ := map_eq_ok.1 h
      exact .inr (.inl ⟨hclose, e, he, hq.symm⟩)
    · rw [if_neg hclose] at h
      obtain ⟨g', hread, hq⟩ := map_eq_ok.1 h
      exact .inr (.inr ⟨g', hread, hq.symm⟩)

/-! ## §3. What has been read is in the grammar. -/

/-- The group is what these words inside it lead to: they spell its operands,
with its operation among them once that has been read. -/
inductive Group.Reads : Group → List String → Prop where
  | pending {start : Nat} {operands : List Expr} {ws : List String}
      (spells : Spells ws operands.reverse) : Reads ⟨start, none, operands⟩ ws
  | chosen {start : Nat} {op : Op} {operands ds fs : List Expr}
      {before after : List String}
      (left : Spells before ds) (right : Spells after fs)
      (split : operands.reverse = ds ++ fs) :
      Reads ⟨start, some op, operands⟩ (before ++ op.token :: after)

/-- These words, from the outermost group's parenthesis on, lead into the group,
with the outer ones still open around it. -/
inductive Opened : Group → List Group → List String → Prop where
  | outermost {g : Group} {ws : List String} (reads : g.Reads ws) :
      Opened g [] ("(" :: ws)
  | inner {g f : Group} {outer : List Group} {ws vs : List String}
      (reads : g.Reads ws) (around : Opened f outer vs) :
      Opened g (f :: outer) (vs ++ "(" :: ws)

/-- These words lead to what has been read. -/
def Progress.Reads (ws : List String) : Progress → Prop
  | .start => ws = []
  | .inside g outer => Opened g outer ws
  | .done e => Spells ws [e]

theorem reads_opened (start : Nat) : (Group.opened start).Reads [] :=
  .pending .nil

/-- Words that spell a tree add it to the group's operands. -/
theorem Group.Reads.push {g : Group} {ws vs : List String} {e : Expr}
    (hg : g.Reads ws) (he : Spells vs [e]) : (g.push e).Reads (ws ++ vs) := by
  cases hg with
  | @pending start operands _ spells =>
    -- an operand before the operation
    refine .pending ?_
    rw [List.reverse_cons]
    exact spells.append he
  | @chosen start op operands ds fs before after left right split =>
    -- an operand behind it
    rw [List.append_assoc, List.cons_append]
    refine .chosen left (right.append he) ?_
    rw [List.reverse_cons, split, List.append_assoc]

/-- A group that closes has its operation, and is in the grammar. -/
theorem Group.Reads.close {g : Group} {ws : List String} {e : Expr}
    (hg : g.Reads ws) (h : g.close = .ok e) :
    Spells ("(" :: (ws ++ [")"])) [e] := by
  cases hg with
  | pending => exact absurd h (by simp [Group.close])
  | @chosen start op operands ds fs before after left right split =>
    unfold Group.close at h
    dsimp only at h
    rw [split] at h
    unfold Expr.build? at h
    by_cases count : op.arity.accepts (ds ++ fs).length = true
    · rw [if_pos count] at h
      injection h with h
      rw [← h, List.append_assoc, List.cons_append]
      exact .group left right count .nil
    · rw [if_neg count] at h
      exact absurd h (by simp)

/-- Inside a group a word is its operation or a leaf. -/
theorem Group.Reads.read {g g' : Group} {ws : List String} {t : Token}
    (hg : g.Reads ws) (h : g.read t = .ok g') : g'.Reads (ws ++ [t.text]) := by
  unfold Group.read at h
  cases hop : Op.ofToken? t.text with
  | some op =>
    rw [hop] at h
    cases hg with
    | chosen => exact absurd h (by simp)
    | @pending start operands ws spells =>
      -- what has been read so far stands before the operation
      injection h with h
      rw [← h, ← Op.ofToken?_eq_some.1 hop]
      exact .chosen spells .nil (List.append_nil _).symm
  | none =>
    rw [hop] at h
    cases hleaf : leaf? t.text with
    | none =>
      rw [hleaf] at h
      exact absurd h (by simp)
    | some e =>
      rw [hleaf] at h
      injection h with h
      rw [← h]
      exact hg.push (spells_leaf hleaf)

/-- Words that lead from one state of the innermost group to another do so
inside the outer groups. -/
theorem Opened.extend {g g' : Group} {outer : List Group} {ws us : List String}
    (hg : Opened g outer ws)
    (h : ∀ vs, g.Reads vs → g'.Reads (vs ++ us)) : Opened g' outer (ws ++ us) := by
  cases hg with
  | outermost reads => exact .outermost (h _ reads)
  | inner reads around =>
    rw [List.append_assoc, List.cons_append]
    exact .inner (h _ reads) around

/-- When a group closes, its tree is an operand of the next outer one, or the
whole expression. -/
theorem Opened.close {g : Group} {outer : List Group} {ws : List String} {e : Expr}
    (hg : Opened g outer ws) (h : g.close = .ok e) :
    (Progress.after e outer).Reads (ws ++ [")"]) := by
  cases hg with
  | outermost reads => exact reads.close h
  | @inner g f outer ws vs reads around =>
    -- the tree is an operand of the next group, whose other words stay
    have he : Spells ("(" :: (ws ++ [")"])) [e] := reads.close h
    rw [List.append_assoc, List.cons_append]
    show Opened (f.push e) outer _
    exact around.extend fun us hf => hf.push he

/-- One word keeps what has been read in the grammar. -/
theorem Progress.Reads.step {ws : List String} {p q : Progress} {t : Token}
    (hp : p.Reads ws) (h : step p t = .ok q) : q.Reads (ws ++ [t.text]) := by
  cases p with
  | start =>
    have hws : ws = [] := hp
    rw [hws, List.nil_append]
    rcases step_start_cases h with ⟨ht, rfl⟩ | ⟨e, hleaf, rfl⟩
    · rw [ht]
      exact .outermost (reads_opened t.offset)
    · exact spells_leaf hleaf
  | inside g outer =>
    have hg : Opened g outer ws := hp
    rcases step_inside_cases h with ⟨ht, rfl⟩ | ⟨ht, e, hclose, rfl⟩ | ⟨g', hread, rfl⟩
    · rw [ht]
      exact .inner (reads_opened t.offset) hg
    · rw [ht]
      exact hg.close hclose
    · exact hg.extend fun vs hvs => hvs.read hread
  | done e => exact absurd h (by simp [Grouped.step])

/-- What has been read after any number of words is in the grammar. -/
theorem Progress.Reads.run {ts : List Token} {ws : List String} {p q : Progress}
    (hp : p.Reads ws) (h : ts.foldlM Grouped.step p = .ok q) :
    q.Reads (ws ++ ts.map Token.text) :=
  run_keeps Progress.Reads (fun hp h => Progress.Reads.step hp h) hp h

/-! ## §4. What is in the grammar is read. -/

/-- The group with more operands, in the order of the list. -/
def Group.pushEach (g : Group) (es : List Expr) : Group :=
  { g with operands := es.reverse ++ g.operands }

theorem pushEach_cons (g : Group) (e : Expr) (es : List Expr) :
    (g.push e).pushEach es = g.pushEach (e :: es) := by
  show Group.mk _ _ _ = Group.mk _ _ _
  rw [List.reverse_cons, List.append_assoc]
  rfl

theorem leaf_ne_parenthesis {word : String} {e : Expr} (h : leaf? word = some e) :
    word ≠ "(" ∧ word ≠ ")" := by
  constructor
  · rintro rfl
    rw [leaf?_parenthesis.1] at h
    exact absurd h (by simp)
  · rintro rfl
    rw [leaf?_parenthesis.2] at h
    exact absurd h (by simp)

/-- A leaf is pushed, inside every group. -/
theorem step_leaf {t : Token} {e : Expr} (h : leaf? t.text = some e)
    (g : Group) (outer : List Group) :
    step (.inside g outer) t = .ok (.inside (g.push e) outer) := by
  obtain ⟨hopen, hclose⟩ := leaf_ne_parenthesis h
  rw [step_inside, if_neg hopen, if_neg hclose]
  unfold Group.read
  rw [ofToken?_of_leaf? h, h]
  rfl

/-- An operation is kept, inside a group that has none yet. -/
theorem step_operation {t : Token} {op : Op} (h : t.text = op.token)
    (start : Nat) (operands : List Expr) (outer : List Group) :
    step (.inside ⟨start, none, operands⟩ outer) t
      = .ok (.inside ⟨start, some op, operands⟩ outer) := by
  rw [step_inside, h, if_neg (token_ne_parenthesis op).1, if_neg (token_ne_parenthesis op).2]
  unfold Group.read
  rw [Op.ofToken?_eq_some.2 h.symm]
  rfl

/-- A group with its operation and a number of operands that this takes is
closed into its node. -/
theorem step_close {t : Token} (h : t.text = ")") {op : Op} {operands : List Expr}
    (count : op.arity.accepts operands.length = true) (start : Nat)
    (outer : List Group) :
    step (.inside ⟨start, some op, operands.reverse⟩ outer) t
      = .ok (.after (.node op operands) outer) := by
  have hclose : (Group.mk start (some op) operands.reverse).close
      = .ok (.node op operands) := by
    unfold Group.close Expr.build?
    dsimp only
    rw [List.reverse_reverse, if_pos count]
  rw [step_inside, h, if_neg (by decide), if_pos rfl, hclose]
  rfl

theorem step_open {t : Token} (h : t.text = "(") (g : Group) (outer : List Group) :
    step (.inside g outer) t = .ok (.inside (.opened t.offset) (g :: outer)) := by
  rw [step_inside, if_pos h]

/-- Inside any open group the words add the trees to its operands, and nothing
else is changed. -/
def Adds (ws : List String) (es : List Expr) : Prop :=
  ∀ ts : List Token, ts.map Token.text = ws → ∀ g outer,
    ts.foldlM step (.inside g outer) = .ok (.inside (g.pushEach es) outer)

/-- After a parenthesis has opened a group, the words up to the matching one
complete its node. -/
theorem run_group {op : Op} {before after : List String} {ds fs : List Expr}
    (left : Adds before ds) (right : Adds after fs)
    (count : op.arity.accepts (ds ++ fs).length = true)
    {ts us : List Token} {t c : Token} (hts : ts.map Token.text = before)
    (ht : t.text = op.token) (hus : us.map Token.text = after) (hc : c.text = ")")
    (start : Nat) (outer : List Group) (rest : List Token) :
    (ts ++ t :: (us ++ c :: rest)).foldlM step (.inside (.opened start) outer)
      = rest.foldlM step (.after (.node op (ds ++ fs)) outer) := by
  have hread : ((Group.opened start).pushEach ds) = ⟨start, none, ds.reverse⟩ := by
    show Group.mk _ _ _ = _
    rw [show (Group.opened start).operands = [] from rfl, List.append_nil]
    rfl
  have hall : (Group.mk start (some op) ds.reverse).pushEach fs
      = ⟨start, some op, (ds ++ fs).reverse⟩ := by
    rw [List.reverse_append]
    rfl
  -- the operands before the operation, the operation, those behind it
  rw [List.foldlM_append, left ts hts, hread]
  show (t :: (us ++ c :: rest)).foldlM step _ = _
  rw [List.foldlM_cons, step_operation ht]
  show (us ++ c :: rest).foldlM step _ = _
  rw [List.foldlM_append, right us hus, hall]
  show (c :: rest).foldlM step _ = _
  rw [List.foldlM_cons, step_close hc count]
  rfl

/-- A leaf that is followed by words which add their trees. -/
theorem Adds.leaf {word : String} {e : Expr} {ws : List String} {es : List Expr}
    (hleaf : leaf? word = some e) (rest : Adds ws es) :
    Adds (word :: ws) (e :: es) := by
  intro ts hts g outer
  obtain ⟨t, us, rfl, ht, hus⟩ := List.map_eq_cons_iff.1 hts
  rw [← ht] at hleaf
  rw [List.foldlM_cons, step_leaf hleaf]
  show us.foldlM step _ = _
  rw [rest us hus, pushEach_cons]

/-- The parts of the tokens whose words are those of a group and what follows
it. -/
theorem tokens_of_group {op : Op} {before after ws : List String} {ts : List Token}
    (h : ts.map Token.text = "(" :: (before ++ op.token :: (after ++ ")" :: ws))) :
    ∃ o left t right c rest, ts = o :: (left ++ t :: (right ++ c :: rest))
      ∧ o.text = "(" ∧ left.map Token.text = before ∧ t.text = op.token
      ∧ right.map Token.text = after ∧ c.text = ")"
      ∧ rest.map Token.text = ws := by
  obtain ⟨o, tail, rfl, ho, htail⟩ := List.map_eq_cons_iff.1 h
  obtain ⟨left, tail, rfl, hleft, htail⟩ := List.map_eq_append_iff.1 htail
  obtain ⟨t, tail, rfl, ht, htail⟩ := List.map_eq_cons_iff.1 htail
  obtain ⟨right, tail, rfl, hright, htail⟩ := List.map_eq_append_iff.1 htail
  obtain ⟨c, rest, rfl, hc, hrest⟩ := List.map_eq_cons_iff.1 htail
  exact ⟨o, left, t, right, c, rest, rfl, ho, hleft, ht, hright, hc, hrest⟩

/-- Words that spell trees add them, inside any open group. -/
theorem Spells.adds {ws : List String} {es : List Expr} (h : Spells ws es) :
    Adds ws es := by
  induction h with
  | nil =>
    intro ts hts g outer
    rw [List.map_eq_nil_iff.1 hts]
    rfl
  | @var v _ _ _ ih => exact ih.leaf (leaf?_name v)
  | const reads _ ih => exact ih.leaf (leaf?_literal reads)
  | @group op before after ws ds fs es _ _ count _ left right ih =>
    intro ts hts g outer
    obtain ⟨o, lts, t, rts, c, rest, rfl, ho, hl, ht, hr, hc, hrest⟩ :=
      tokens_of_group hts
    rw [List.foldlM_cons, step_open ho]
    show (lts ++ t :: (rts ++ c :: rest)).foldlM step _ = _
    rw [run_group left right count hl ht hr hc]
    -- the closed group is an operand of the one around it
    show rest.foldlM step (.inside (g.push (.node op (ds ++ fs))) outer) = _
    rw [ih rest hrest, pushEach_cons]

/-- Tokens whose words spell one tree are read as this tree. -/
theorem Spells.run {ts : List Token} {e : Expr}
    (h : Spells (ts.map Token.text) [e]) : ts.foldlM step .start = .ok (.done e) := by
  have hleaf : ∀ word, leaf? word = some e → ts.map Token.text = [word] →
      ts.foldlM step .start = .ok (.done e) := by
    intro word hword hts
    obtain ⟨t, us, rfl, ht, hus⟩ := List.map_eq_cons_iff.1 hts
    rw [← ht] at hword
    rw [List.map_eq_nil_iff.1 hus, List.foldlM_cons, step_start,
      if_neg (leaf_ne_parenthesis hword).1, if_neg (leaf_ne_parenthesis hword).2,
      hword]
    rfl
  -- a leaf alone, or one group: the trees behind the first are none
  generalize hts : ts.map Token.text = words at h
  cases h with
  | @var v ws _ rest =>
    cases rest
    exact hleaf _ (leaf?_name v) hts
  | @const word value ws _ reads rest =>
    cases rest
    exact hleaf _ (leaf?_literal reads) hts
  | @group op before after ws ds fs _ left right count rest =>
    cases rest
    obtain ⟨o, lts, t, rts, c, rest, rfl, ho, hl, ht, hr, hc, hrest⟩ :=
      tokens_of_group hts
    rw [List.map_eq_nil_iff.1 hrest, List.foldlM_cons, step_start, if_pos ho]
    show (lts ++ t :: (rts ++ [c])).foldlM step _ = _
    rw [run_group left.adds right.adds count hl ht hr hc]
    rfl

/-! ## §5. The whole text. -/

theorem finish_eq_ok {length : Nat} {p : Progress} {e : Expr} :
    finish length p = .ok e ↔ p = .done e := by
  cases p with
  | start => simp [finish]
  | inside g outer => simp [finish]
  | done d => simp [finish]

theorem parse_eq_ok {text : String} {e : Expr} :
    parse text = .ok e ↔ (words text).foldlM step .start = .ok (.done e) := by
  unfold parse
  rw [bind_eq_ok]
  simp only [finish_eq_ok, exists_eq_right]

/-- Words that spell a tree are read as this tree. -/
theorem parse_of_spells {text : String} {e : Expr}
    (h : Spells ((words text).map Token.text) [e]) : parse text = .ok e :=
  parse_eq_ok.2 h.run

theorem spells_of_parse {text : String} {e : Expr} (h : parse text = .ok e) :
    Spells ((words text).map Token.text) [e] := by
  have hstart : Progress.Reads [] .start := rfl
  have hrun := hstart.run (parse_eq_ok.1 h)
  rw [List.nil_append] at hrun
  exact hrun

/-- A text spells a tree if and only if the words that are found in it do. -/
theorem spelled_iff {text : String} {e : Expr} :
    Spelled text e ↔ Spells ((words text).map Token.text) [e] :=
  exists_cut_iff

/-- A text is read as a tree if and only if it spells this tree, and it spells
at most one. -/
theorem parse_ok_iff_spelled (text : String) :
    (∀ e, parse text = .ok e ↔ Spelled text e)
      ∧ {e | Spelled text e}.Subsingleton := by
  have hparse : ∀ e, parse text = .ok e ↔ Spelled text e := by
    intro e
    rw [spelled_iff]
    exact ⟨spells_of_parse, parse_of_spells⟩
  exact ⟨hparse, subsingleton_of_ok_iff hparse⟩

end Trivariate.Parse.Grouped
