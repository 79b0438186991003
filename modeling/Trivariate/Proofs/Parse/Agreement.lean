/-
  Trivariate.Proofs.Parse.Agreement
  ─────────────────────────────────
  **GROUPED TEXT WITHOUT ITS PARENTHESES IS FLAT TEXT.**

  When every operation stands last in its group, the parentheses say nothing
  that the operand counts do not say.  With a blank in place of each of them
  the other words stay where they are, and they spell in post-order the trees
  that the groups spelled; so the reader with a stack finds the tree that the
  reader with groups finds.

  Main results:

      cut_blanked            blanks for parentheses leave the other tokens alone
      Grouped.Spells.flat    what groups spell is spelled without parentheses
      parse_blanked          the two readers agree
-/
import Trivariate.Proofs.Parse.Closure

namespace Trivariate.Parse

open Trivariate.Text

/-! ## §1. Blanks for parentheses. -/

/-- A blank for a parenthesis; other characters stay. -/
def blankFor (c : Char) : Char :=
  if Grouped.isParenthesis c then ' ' else c

/-- The text with a blank in place of each parenthesis. -/
def blanked (text : String) : String :=
  text.map blankFor

/-- Whether a word is no parenthesis. -/
def isProper (word : String) : Bool :=
  word != "(" && word != ")"

theorem isProper_iff {word : String} :
    isProper word = true ↔ word ≠ "(" ∧ word ≠ ")" := by
  simp [isProper]

theorem isParenthesis_cases {c : Char} (h : Grouped.isParenthesis c = true) :
    c = '(' ∨ c = ')' := by
  simpa [Grouped.isParenthesis] using h

/-- A parenthesis takes one byte, and so does the blank in its place. -/
theorem utf8Size_blankFor (c : Char) : (blankFor c).utf8Size = c.utf8Size := by
  unfold blankFor
  by_cases h : Grouped.isParenthesis c = true
  · rw [if_pos h]
    rcases isParenthesis_cases h with rfl | rfl <;> decide
  · rw [if_neg h]

/-- What ends a word in grouped text ends it in flat text. -/
theorem isInner_blankFor {c : Char} (h : isInner Grouped.isParenthesis c = false) :
    isInner (fun _ => false) (blankFor c) = false := by
  unfold blankFor
  by_cases hmark : Grouped.isParenthesis c = true
  · rw [if_pos hmark]
    decide
  · rw [if_neg hmark]
    simpa [isInner, hmark] using h

/-- A word has no parenthesis in it. -/
theorem map_blankFor_word {run : List Char}
    (h : ∀ c ∈ run, isInner Grouped.isParenthesis c = true) :
    run.map blankFor = run := by
  refine (List.map_congr_left ?_).trans (List.map_id _)
  intro c hc
  have hmark : Grouped.isParenthesis c = false := (isInner_iff.1 (h c hc)).2
  show blankFor c = c
  unfold blankFor
  rw [hmark]
  rfl

theorem isProper_word {run : List Char}
    (h : ∀ c ∈ run, isInner Grouped.isParenthesis c = true) :
    isProper (String.ofList run) = true := by
  have hne : ∀ d : Char, isInner Grouped.isParenthesis d = false →
      String.ofList run ≠ String.singleton d := by
    intro d hd heq
    have hrun : run = [d] := by simpa using congrArg String.toList heq
    rw [h d (by rw [hrun]; exact List.mem_singleton_self d)] at hd
    exact absurd hd (by decide)
  exact isProper_iff.2 ⟨hne '(' (by decide), hne ')' (by decide)⟩

/-- With blanks for the parentheses the other tokens are cut as before, at the
same offsets. -/
theorem cut_blanked {offset : Nat} {cs : List Char} {ts : List Token}
    (h : Cut Grouped.isParenthesis offset cs ts) :
    Cut (fun _ => false) offset (cs.map blankFor)
      (ts.filter fun t => isProper t.text) := by
  induction h with
  | nil => exact .nil
  | @blank offset c cs ts hblank _ ih =>
    have hc : isBlank (blankFor c) = true := by
      unfold blankFor
      split
      · decide
      · exact hblank
    rw [← utf8Size_blankFor] at ih
    exact .blank hc ih
  | @mark offset c cs ts _ hmark _ ih =>
    -- the parenthesis is a blank now, and no token
    have hc : blankFor c = ' ' := if_pos hmark
    have hdrop : isProper (String.singleton c) = false := by
      rcases isParenthesis_cases hmark with rfl | rfl <;> decide
    rw [← utf8Size_blankFor] at ih
    rw [List.filter_cons_of_neg (by simp [hdrop])]
    exact .blank (by rw [hc]; decide) ih
  | @word offset run cs ts hne hrun hend _ ih =>
    have hinner : ∀ c ∈ run, isInner (fun _ => false) c = true :=
      fun c hc => isInner_iff.2 ⟨(isInner_iff.1 (hrun c hc)).1, rfl⟩
    have hends : EndsWord (fun _ => false) (cs.map blankFor) := by
      intro d hd
      rw [List.head?_map] at hd
      obtain ⟨c, hc, rfl⟩ := Option.map_eq_some_iff.1 hd
      exact isInner_blankFor (hend c hc)
    rw [List.map_append, map_blankFor_word hrun,
      List.filter_cons_of_pos (by exact isProper_word hrun)]
    exact .word hne hinner hends ih

/-- The words of the text with blanks are the words that are no parentheses. -/
theorem words_blanked (text : String) :
    (Flat.words (blanked text)).map Token.text
      = ((Grouped.words text).map Token.text).filter isProper := by
  have hcut : Cut (fun _ => false) 0 (blanked text).toList
      ((Grouped.words text).filter fun t => isProper t.text) := by
    have h := cut_blanked (scan_eq_iff.1 (rfl : Grouped.words text = _))
    rwa [← String.toList_map] at h
  show (scan (fun _ => false) (blanked text)).map Token.text = _
  rw [scan_eq_iff.2 hcut, List.filter_map]
  rfl

/-! ## §2. Operations that stand last. -/

/-- Every operation stands last in its group: what follows it closes the
group. -/
def OperationsLast (ws : List String) : Prop :=
  ∀ before (op : Op) after, ws = before ++ op.token :: after →
    after.head? = some ")"

theorem operationsLast_nil : OperationsLast [] := by
  intro before op after h
  exact absurd h (by simp)

theorem operationsLast_cons {word : String} {ws : List String} :
    OperationsLast (word :: ws)
      ↔ ((Op.ofToken? word).isSome = true → ws.head? = some ")")
        ∧ OperationsLast ws := by
  constructor
  · intro h
    constructor
    · intro hop
      obtain ⟨op, hop⟩ := Option.isSome_iff_exists.1 hop
      exact h [] op ws (by rw [Op.ofToken?_eq_some.1 hop, List.nil_append])
    · intro before op after hws
      exact h (word :: before) op after (by rw [hws, List.cons_append])
  · rintro ⟨hhead, htail⟩ before op after hws
    cases before with
    | nil =>
      -- the operation is the first word
      injection hws with hword hws
      rw [← hws]
      exact hhead (by rw [Op.ofToken?_eq_some.2 hword.symm]; rfl)
    | cons w before =>
      injection hws with hword hws
      exact htail before op after hws

instance : DecidablePred OperationsLast := by
  intro ws
  induction ws with
  | nil => exact isTrue operationsLast_nil
  | cons word ws ih => exact decidable_of_iff _ operationsLast_cons.symm

namespace OperationsLast

variable {ws us vs : List String}

theorem behind (h : OperationsLast (us ++ ws)) : OperationsLast ws := by
  intro before op after hws
  refine h (us ++ before) op after ?_
  rw [hws, List.append_assoc]

theorem tail {word : String} (h : OperationsLast (word :: ws)) :
    OperationsLast ws :=
  (operationsLast_cons.1 h).2

/-- Before a word that is no closing parenthesis the operations stand last. -/
theorem before {word : String} (h : OperationsLast (us ++ word :: vs))
    (hword : word ≠ ")") : OperationsLast us := by
  intro before op after hus
  have hlast : (after ++ word :: vs).head? = some ")" := by
    refine h before op _ ?_
    rw [hus, List.append_assoc, List.cons_append]
  cases after with
  | nil =>
    -- the word itself would close the group
    rw [List.nil_append, List.head?_cons] at hlast
    injection hlast with hlast
    exact absurd hlast hword
  | cons w after => exact hlast

end OperationsLast

/-- Trees are spelled by no words only if there are none, and no tree begins
with a closing parenthesis. -/
theorem Grouped.Spells.eq_nil {ws vs : List String} {es : List Expr}
    (h : Grouped.Spells ws es) (hhead : (ws ++ ")" :: vs).head? = some ")") :
    ws = [] ∧ es = [] := by
  have hleaf : ∀ {word : String} {e : Expr} {rest : List String},
      leaf? word = some e → ((word :: rest) ++ ")" :: vs).head? ≠ some ")" := by
    intro word e rest hword hclose
    injection hclose with hclose
    exact (Grouped.leaf_ne_parenthesis hword).2 hclose
  cases h with
  | nil => exact ⟨rfl, rfl⟩
  | var _ => exact absurd hhead (hleaf (leaf?_name _))
  | const reads _ => exact absurd hhead (hleaf (leaf?_literal reads))
  | group _ _ _ _ => exact absurd hhead (by simp)

/-! ## §3. Without parentheses. -/

/-- What groups spell in which the operations stand last is spelled without the
parentheses, when every operation takes a fixed number of operands. -/
theorem Grouped.Spells.flat {ws : List String} {es : List Expr}
    (h : Grouped.Spells ws es) (hlast : OperationsLast ws)
    (hfixed : ∀ e ∈ es, e.NoVariadic) : Flat.Spells (ws.filter isProper) es := by
  have hleaf : ∀ {word : String} {e : Expr}, leaf? word = some e →
      isProper word = true :=
    fun hword => isProper_iff.2 (Grouped.leaf_ne_parenthesis hword)
  induction h with
  | nil => exact .nil
  | @var v _ _ _ ih =>
    rw [List.filter_cons_of_pos (hleaf (leaf?_name v))]
    exact .var (ih hlast.tail (List.forall_mem_cons.1 hfixed).2)
  | const reads _ ih =>
    rw [List.filter_cons_of_pos (hleaf (leaf?_literal reads))]
    exact .const reads (ih hlast.tail (List.forall_mem_cons.1 hfixed).2)
  | @group op before after ws ds fs es left right count _ ihLeft _ ih =>
    obtain ⟨hnode, hrest⟩ := List.forall_mem_cons.1 hfixed
    -- nothing stands between the operation and its group's end
    have hclose := hlast ("(" :: before) op _ rfl
    obtain ⟨rfl, rfl⟩ := right.eq_nil hclose
    rw [List.append_nil] at count hnode ⊢
    obtain ⟨hop, hoperands⟩ := Expr.everywhere_node.1 hnode
    have htoken := token_ne_parenthesis op
    have hinner : OperationsLast before := hlast.tail.before htoken.2
    have hbehind : OperationsLast ws := hlast.tail.behind.tail.tail
    have hwords : ("(" :: (before ++ op.token :: ([] ++ ")" :: ws))).filter isProper
        = before.filter isProper ++ op.token :: ws.filter isProper := by
      rw [List.filter_cons_of_neg (by decide), List.filter_append,
        List.filter_cons_of_pos (isProper_iff.2 htoken), List.nil_append,
        List.filter_cons_of_neg (by decide)]
    rw [hwords]
    exact .node (ihLeft hinner hoperands) (Op.arity_eq_fixed hop count)
      (ih hbehind hrest)

/-- **The two readers agree**: a grouped text in which every operation stands
last in its group, and takes a fixed number of operands, is read as the same
tree when blanks stand for its parentheses and it is read as flat text. -/
theorem parse_blanked {text : String} {e : Expr}
    (h : parse .operationLast text = .ok e)
    (hlast : OperationsLast (wordsOf .operationLast text))
    (hfixed : e.NoVariadic) : parse .flat (blanked text) = .ok e := by
  have hspells := Grouped.spells_of_parse h
  refine Flat.parse_of_spells ?_
  rw [words_blanked]
  exact hspells.flat hlast (by simpa using hfixed)

/-- Groups inside groups, words that touch the parentheses, and blanks of two
kinds. -/
theorem parse_blanked_nested :
    let text := "((x(y -2.5 *)-)\t( z negate)sumsq2 )"
    let e : Expr := .node (.sumSquares .two)
      [.subtract (.var .x) (.multiply (.var .y) (.const (-2.5))), .negate (.var .z)]
    parse .operationLast text = .ok e
      ∧ OperationsLast (wordsOf .operationLast text)
      ∧ e.NoVariadic
      ∧ blanked text = "  x y -2.5 * - \t  z negate sumsq2  "
      ∧ parse .flat (blanked text) = .ok e := by
  have h : parse .operationLast "((x(y -2.5 *)-)\t( z negate)sumsq2 )"
      = .ok (.node (.sumSquares .two)
        [.subtract (.var .x) (.multiply (.var .y) (.const (-2.5))),
          .negate (.var .z)]) := by
    rfl
  intro text e
  have hlast : OperationsLast (wordsOf .operationLast text) := by
    decide +kernel
  have hfixed : e.NoVariadic := by
    simp [e, Expr.NoVariadic, Demand.onNodes]
  exact ⟨h, hlast, hfixed, by decide +kernel, parse_blanked h hlast hfixed⟩

end Trivariate.Parse
