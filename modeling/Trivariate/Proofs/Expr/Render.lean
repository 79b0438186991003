/-
  Trivariate.Proofs.Expr.Render
  ─────────────────────────────
  **THE WORDS OF A RENDERED TREE.**

  The text of a tree in a notation is cut into the words that the notation
  writes: one for every leaf and operation, and in the grouped notations one
  for every parenthesis.  Numerals, names and tokens are words of their own
  wherever they stand, since the text puts a blank or a parenthesis after
  each of them.

  Main results:

      isInner_numeral   a numeral has no blank and no parenthesis
      Holds             characters that are cut into words of their own
      holds_render      the text of a tree holds the words of the tree
      scan_render       and so the scanner finds them
      isInner_render    between the words are blanks and parentheses alone
-/
import Trivariate.Expr.Render
import Trivariate.Parse.Grouped
import Trivariate.Proofs.Numeric.Readback
import Trivariate.Proofs.Text.Cut

namespace Trivariate

open Trivariate.Numeric (numeral constantText mem_numeral numeral_shape numeral_of_nan)
open Trivariate.Parse.Grouped (isParenthesis)
open Trivariate.Text

/-! ## §1. Characters of words. -/

/-- The characters that the readers of a notation take for words of their
own. -/
def Notation.isMark : Notation → Char → Bool
  | .flat => fun _ => false
  | .operationFirst | .operationLast => isParenthesis

/-- What is neither blank nor a parenthesis belongs to a word in every
notation. -/
theorem isInner_isMark (n : Notation) {c : Char}
    (h : isInner isParenthesis c = true) : isInner n.isMark c = true := by
  obtain ⟨hblank, hmark⟩ := isInner_iff.1 h
  cases n with
  | flat => exact isInner_iff.2 ⟨hblank, rfl⟩
  | operationFirst => exact h
  | operationLast => exact h

theorem isInner_of_isDigit {c : Char} (h : c.isDigit = true) :
    isInner isParenthesis c = true := by
  rw [Char.isDigit_iff_toNat] at h
  obtain ⟨hlow, hhigh⟩ := h
  have hlow : 48 ≤ c.toNat := hlow
  have hhigh : c.toNat ≤ 57 := hhigh
  refine isInner_iff.2 ⟨?_, ?_⟩
  · -- no range of blanks reaches the digits
    simp only [isBlank, blankRanges, List.any_cons, List.any_nil,
      Bool.or_eq_false_iff, Bool.and_eq_false_iff, decide_eq_false_iff_not,
      and_true]
    omega
  · have hne : ∀ d : Char, d.toNat < 48 → (c == d) = false := by
      intro d hd
      rw [beq_eq_false_iff_ne]
      intro hcd
      rw [hcd] at hlow
      omega
    unfold isParenthesis
    rw [hne '(' (by decide), hne ')' (by decide)]
    rfl

/-- A numeral has no blank and no parenthesis, if the name of infinity has
none. -/
theorem isInner_numeral {infinityName : String}
    (hname : infinityName.toList.all (isInner isParenthesis) = true) (x : Float) :
    (numeral infinityName x).all (isInner isParenthesis) = true := by
  have hrest : (['-', '.', 'N', 'a'] ++ infinityName.toList).all
      (isInner isParenthesis) = true := by
    rw [List.all_append, hname]
    decide
  refine List.all_eq_true.2 fun c hc => ?_
  rcases mem_numeral hc with hdigit | hc
  · exact isInner_of_isDigit hdigit
  · exact List.all_eq_true.1 hrest c hc

theorem numeral_ne_nil (x : Float) : numeral "Infinity" x ≠ [] := by
  by_cases hnan : x.isNaN = true
  · rw [numeral_of_nan hnan]
    decide
  · obtain ⟨s, ⟨d, hchars, -⟩ | ⟨hchars, -⟩⟩ :=
      numeral_shape "Infinity" (by simpa using hnan)
    · obtain ⟨c, cs, hcs, -⟩ := Numeric.isDigit_head_toChars d
      rw [hchars, hcs]
      simp
    · rw [hchars]
      simp

/-! ## §2. Words of their own. -/

/-- A text that is one word in every notation. -/
def IsWord (word : String) : Prop :=
  word.toList ≠ [] ∧ word.toList.all (isInner isParenthesis) = true

instance (word : String) : Decidable (IsWord word) :=
  inferInstanceAs (Decidable (_ ∧ _))

theorem isWord_constantText (x : Float) : IsWord (constantText x) := by
  unfold IsWord constantText
  rw [String.toList_ofList]
  exact ⟨numeral_ne_nil x, isInner_numeral (by decide) x⟩

theorem isWord_name (v : Var) : IsWord v.name := by
  cases v with
  | x => decide
  | y => decide
  | z => decide

theorem isWord_token (op : Op) : IsWord op.token := by
  have h : ∀ op ∈ Op.all, IsWord op.token := by decide +kernel
  exact h op op.mem_all

/-! ## §3. The words of a tree. -/

/-- The words of a node in a notation, from those of its operands. -/
def nodeWords : Notation → Op → List (List String) → List String
  | .flat, op, operands => operands.flatten ++ [op.token]
  | .operationFirst, op, operands =>
      "(" :: op.token :: (operands.flatten ++ [")"])
  | .operationLast, op, operands =>
      "(" :: (operands.flatten ++ [op.token, ")"])

/-- The words of a tree in a notation. -/
def Expr.wordsIn (n : Notation) : Expr → List String :=
  fold (fun value => [constantText value]) (fun v => [v.name]) (nodeWords n)

theorem wordsIn_node (n : Notation) (op : Op) (operands : List Expr) :
    (Expr.node op operands).wordsIn n = nodeWords n op (operands.map (Expr.wordsIn n)) :=
  Expr.fold_node ..

theorem wordsIn_flat (op : Op) (operands : List Expr) :
    (Expr.node op operands).wordsIn .flat
      = operands.flatMap (Expr.wordsIn .flat) ++ [op.token] := by
  rw [wordsIn_node, List.flatMap_def]
  rfl

theorem wordsIn_operationFirst (op : Op) (operands : List Expr) :
    (Expr.node op operands).wordsIn .operationFirst
      = "(" :: op.token
        :: (operands.flatMap (Expr.wordsIn .operationFirst) ++ [")"]) := by
  rw [wordsIn_node, List.flatMap_def]
  rfl

theorem wordsIn_operationLast (op : Op) (operands : List Expr) :
    (Expr.node op operands).wordsIn .operationLast
      = "(" :: (operands.flatMap (Expr.wordsIn .operationLast)
        ++ [op.token, ")"]) := by
  rw [wordsIn_node, List.flatMap_def]
  rfl

/-! ## §4. The characters of a node. -/

theorem toList_blankBehind (text : Expr → String) (es : List Expr) :
    (String.join ((es.map text).map (· ++ " "))).toList
      = es.flatMap fun e => (text e).toList ++ [' '] := by
  rw [String.toList_join, List.flatMap_map, List.flatMap_map]
  simp

theorem toList_blankBefore (text : Expr → String) (es : List Expr) :
    (String.join ((es.map text).map (" " ++ ·))).toList
      = es.flatMap fun e => ' ' :: (text e).toList := by
  rw [String.toList_join, List.flatMap_map, List.flatMap_map]
  simp

/-- A blank behind each operand, then the operation. -/
theorem toList_flat (op : Op) (operands : List Expr) :
    ((Expr.node op operands).render .flat).toList
      = operands.flatMap (fun e => (e.render .flat).toList ++ [' '])
        ++ op.token.toList := by
  rw [Expr.render_node, ← toList_blankBehind]
  simp [Expr.nodeText, Expr.flatNode]

theorem toList_operationFirst_nil (op : Op) :
    ((Expr.node op []).render .operationFirst).toList
      = '(' :: (op.token.toList ++ [' ', ')']) := by
  rw [Expr.render_node]
  simp [Expr.nodeText, Expr.operationFirstNode]

/-- The operation, then a blank before each operand. -/
theorem toList_operationFirst_cons (op : Op) (d : Expr) (ds : List Expr) :
    ((Expr.node op (d :: ds)).render .operationFirst).toList
      = '(' :: (op.token.toList
        ++ ((d :: ds).flatMap (fun e => ' ' :: (e.render .operationFirst).toList)
          ++ [')'])) := by
  rw [Expr.render_node, ← toList_blankBefore]
  simp [Expr.nodeText, Expr.operationFirstNode]

theorem toList_operationLast_nil (op : Op) :
    ((Expr.node op []).render .operationLast).toList
      = '(' :: ' ' :: (op.token.toList ++ [')']) := by
  rw [Expr.render_node]
  simp [Expr.nodeText, Expr.operationLastNode]

/-- A blank behind each operand, then the operation. -/
theorem toList_operationLast_cons (op : Op) (d : Expr) (ds : List Expr) :
    ((Expr.node op (d :: ds)).render .operationLast).toList
      = '(' :: ((d :: ds).flatMap (fun e => (e.render .operationLast).toList ++ [' '])
        ++ (op.token.toList ++ [')'])) := by
  rw [Expr.render_node, ← toList_blankBehind]
  simp [Expr.nodeText, Expr.operationLastNode]

/-! ## §5. The text holds the words. -/

theorem IsWord.holds {word : String} (h : IsWord word) (n : Notation) :
    Holds n.isMark word.toList [word] :=
  holds_word h.1 fun c hc => isInner_isMark n (List.all_eq_true.1 h.2 c hc)

/-- Opening and closing parentheses are words of their own in the grouped
notations. -/
theorem worded_parenthesis {cs : List Char} {us : List String}
    (h : Worded isParenthesis cs us) :
    Worded isParenthesis ('(' :: cs) ("(" :: us)
      ∧ Worded isParenthesis (')' :: cs) (")" :: us) :=
  ⟨h.mark (by decide) (by decide), h.mark (by decide) (by decide)⟩

theorem endsWord_close (cs : List Char) : EndsWord isParenthesis (')' :: cs) :=
  endsWord_mark (by decide)

section node

variable {operands : List Expr} (op : Op)

/-- A flat node: a blank behind each operand ends its last word. -/
theorem holds_flat
    (h : ∀ e ∈ operands,
      Holds Notation.flat.isMark (e.render .flat).toList (e.wordsIn .flat)) :
    Holds Notation.flat.isMark ((Expr.node op operands).render .flat).toList
      ((Expr.node op operands).wordsIn .flat) := by
  intro rest us hend hrest
  have htoken := (isWord_token op).holds .flat rest us hend hrest
  rw [toList_flat, wordsIn_flat, List.append_assoc, List.append_assoc]
  exact worded_blankBehind h htoken

/-- A group that begins with its operation: what ends a word is the blank of
the next operand, or the parenthesis. -/
theorem holds_operationFirst
    (h : ∀ e ∈ operands,
      Holds isParenthesis (e.render .operationFirst).toList
        (e.wordsIn .operationFirst)) :
    Holds isParenthesis ((Expr.node op operands).render .operationFirst).toList
      ((Expr.node op operands).wordsIn .operationFirst) := by
  intro rest us hend hrest
  have hclose := (worded_parenthesis hrest).2
  rw [wordsIn_operationFirst]
  cases operands with
  | nil =>
    -- the blank that keeps the token apart from the parenthesis
    have htoken := (isWord_token op).holds .operationFirst _ _
      (endsWord_blank isBlank_space) (hclose.blank isBlank_space)
    rw [toList_operationFirst_nil, List.cons_append, List.append_assoc]
    exact (worded_parenthesis htoken).1
  | cons d ds =>
    obtain ⟨hstart, heach⟩ :=
      worded_blankBefore h (endsWord_close rest) hclose
    have htoken := (isWord_token op).holds .operationFirst _ _ hstart heach
    have hgroup := (worded_parenthesis htoken).1
    rw [toList_operationFirst_cons]
    simpa only [List.cons_append, List.append_assoc, List.nil_append] using hgroup

/-- A group that ends with its operation: what ends a word is the blank behind
an operand, or the parenthesis. -/
theorem holds_operationLast
    (h : ∀ e ∈ operands,
      Holds isParenthesis (e.render .operationLast).toList
        (e.wordsIn .operationLast)) :
    Holds isParenthesis ((Expr.node op operands).render .operationLast).toList
      ((Expr.node op operands).wordsIn .operationLast) := by
  intro rest us hend hrest
  have hclose := (worded_parenthesis hrest).2
  have htoken := (isWord_token op).holds .operationLast _ _
    (endsWord_close rest) hclose
  rw [wordsIn_operationLast]
  cases operands with
  | nil =>
    rw [toList_operationLast_nil, List.cons_append, List.cons_append,
      List.append_assoc]
    exact (worded_parenthesis (htoken.blank isBlank_space)).1
  | cons d ds =>
    have hgroup := (worded_parenthesis (worded_blankBehind h htoken)).1
    rw [toList_operationLast_cons]
    simpa only [List.cons_append, List.append_assoc, List.nil_append] using hgroup

end node

/-- The text of a tree in a notation holds its words, wherever the text
stands. -/
theorem holds_render (n : Notation) (e : Expr) :
    Holds n.isMark (e.render n).toList (e.wordsIn n) := by
  induction e with
  | const value => exact (isWord_constantText value).holds n
  | var v => exact (isWord_name v).holds n
  | node op operands ih =>
    cases n with
    | flat => exact holds_flat op ih
    | operationFirst => exact holds_operationFirst op ih
    | operationLast => exact holds_operationLast op ih

/-- The scanner finds in the text of a tree the words of the tree. -/
theorem scan_render (n : Notation) (e : Expr) :
    (scan n.isMark (e.render n)).map Token.text = e.wordsIn n := by
  have h := holds_render n e [] [] endsWord_nil worded_nil
  rw [List.append_nil, List.append_nil] at h
  exact h.scan

/-! ## §6. The characters of a tree. -/

/-- What a node writes beside its operands: one kind of blank, parentheses and
the token of its operation. -/
theorem mem_nodeText {n : Notation} {op : Op} {operands : List String} {c : Char}
    (h : c ∈ (Expr.nodeText n op operands).toList) :
    c ∈ [' ', '(', ')'] ∨ c ∈ op.token.toList
      ∨ ∃ text ∈ operands, c ∈ text.toList := by
  -- a group without operands has a text of its own
  cases n with
  | flat =>
    simp [Expr.nodeText, Expr.flatNode] at h ⊢
    grind
  | operationFirst =>
    cases operands <;> simp [Expr.nodeText, Expr.operationFirstNode] at h ⊢ <;> grind
  | operationLast =>
    cases operands <;> simp [Expr.nodeText, Expr.operationLastNode] at h ⊢ <;> grind

/-- A text has only blanks of one kind and parentheses between its words. -/
theorem isInner_render {n : Notation} {e : Expr} {c : Char}
    (h : c ∈ (e.render n).toList) :
    c ∈ [' ', '(', ')'] ∨ isInner isParenthesis c = true := by
  have hword : ∀ {word : String}, IsWord word → c ∈ word.toList →
      isInner isParenthesis c = true :=
    fun hword hc => List.all_eq_true.1 hword.2 c hc
  induction e with
  | const value => exact .inr (hword (isWord_constantText value) h)
  | var v => exact .inr (hword (isWord_name v) h)
  | node op operands ih =>
    rw [Expr.render_node] at h
    rcases mem_nodeText h with hc | hc | ⟨text, htext, hc⟩
    · exact .inl hc
    · exact .inr (hword (isWord_token op) hc)
    · obtain ⟨e, he, rfl⟩ := List.mem_map.1 htext
      exact ih e he hc

end Trivariate
