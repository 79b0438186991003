/-
  Trivariate.Proofs.Parse.Cursor.Flat
  ───────────────────────────────────
  **READING FLAT TEXT BY OFFSETS.**

  A flat text can be read with no characters kept: while a word goes on only
  the offset of its first character is known, and where the word ends it is
  cut out of the text.  The trees read so far are in the order in which they
  came, and an operation cuts its operands off the end; where they are cut off
  is a difference of two numbers.  So there are two ways to have no result at
  all: a slice that does not exist, and a difference below zero.

  Neither comes about, and the outcome is that of the reader of words.

  Main results:

      tokens_eq              every slice exists, and the slices are the words
      tokens_iff_areRuns     which are the maximal runs of the text
      push_eq                no operation cuts off more than there is
      flat_eq                a text is read as word by word
-/
import Trivariate.Parse.Flat
import Trivariate.Proofs.Parse.Flat
import Trivariate.Proofs.Text.Position
import Trivariate.Proofs.Text.Runs

namespace Trivariate.Parse.Cursor

open Trivariate.Numeric (literal?)
open Trivariate.Text

/-! ## §1. The reader. -/

/-- The words from the characters that are left, the first of which stands at
the offset; `start` is where the word that goes on has begun. -/
def tokensFrom (text : String) (offset : Nat) (start : Option Nat) :
    List Char → Option (List Token)
  | [] =>
      match start with
      | some s => do
          let w ← slice? text s text.utf8ByteSize
          return [⟨w, s⟩]
      | none => some []
  | c :: cs =>
      match isBlank c, start with
      | true, some s => do
          let w ← slice? text s offset
          let ts ← tokensFrom text (offset + c.utf8Size) none cs
          return ⟨w, s⟩ :: ts
      | false, none => tokensFrom text (offset + c.utf8Size) (some offset) cs
      | _, _ => tokensFrom text (offset + c.utf8Size) start cs

/-- The words of a flat text. -/
def tokens (text : String) : Option (List Token) :=
  tokensFrom text 0 none text.toList

/-- The difference of two numbers; there is none below zero. -/
def subtract? (a b : Nat) : Option Nat :=
  if b ≤ a then some (a - b) else none

/-- The trees read so far, in the order in which they came, after one more
word. -/
def push (trees : List Expr) (t : Token) : ExceptT ParseError Option (List Expr) :=
  match Var.ofName? t.text, Op.ofToken? t.text, namedConstant? t.text, literal? t.text with
  | some v, _, _, _ => return trees ++ [.var v]
  | none, some op, _, _ =>
      match op.arity with
      | .variadic => throw (.variadicInFlat op t.offset)
      | .fixed needed =>
          if trees.length < needed then
            throw (.stackUnderflow op needed trees.length t.offset)
          else do
            let below ← liftM (subtract? trees.length needed)
            return trees.take below ++ [.node op (trees.drop below)]
  | none, none, some constant, _ => return trees ++ [constant]
  | none, none, none, some value => return trees ++ [.const value]
  | none, none, none, none => throw (.invalidElement t.text t.offset)

/-- The only tree that is left at the end of a text of `length` bytes. -/
def only (length : Nat) (trees : List Expr) : ExceptT ParseError Option Expr :=
  match trees with
  | [] => throw (.emptyInput length)
  | [e] => return e
  | _ => throw (.trailingOperands (trees.length - 1) length)

/-- The tree that a flat text spells. -/
def flat (text : String) : ExceptT ParseError Option Expr := do
  let ts ← liftM (tokens text)
  let trees ← ts.foldlM push []
  only text.utf8ByteSize trees

/-! ## §2. Slices. -/

/-- Of the word that goes on, the characters read so far stand before the
offset. -/
def Pending (text : String) (offset : Nat) (cs : List Char) : Run → Prop
  | none => True
  | some (start, run) =>
      Ahead text start (run.reverse ++ cs) ∧ offset = start + byteLength run.reverse

/-- A word that ends is cut out of the text. -/
theorem Pending.slice?_eq {text : String} {offset start : Nat} {cs run : List Char}
    (h : Pending text offset cs (some (start, run))) :
    slice? text start offset = some (String.ofList run.reverse) := by
  obtain ⟨hahead, rfl⟩ := h
  exact hahead.slice?_eq

/-- One more character of a word leaves it pending. -/
theorem Pending.extend {text : String} {offset : Nat} {c : Char} {cs : List Char}
    {run : Run} (h : Pending text offset (c :: cs) run) (hcs : Ahead text offset (c :: cs)) :
    Pending text (offset + c.utf8Size) cs (run.extend offset c) := by
  have hsize : byteLength [c] = c.utf8Size := rfl
  cases run with
  | none => exact ⟨hcs, by rw [List.reverse_singleton, hsize]⟩
  | some pending =>
    obtain ⟨start, run⟩ := pending
    obtain ⟨hahead, rfl⟩ := h
    refine ⟨?_, ?_⟩
    · rwa [List.reverse_cons, List.append_assoc]
    · rw [List.reverse_cons, byteLength_append, hsize, Nat.add_assoc]

/-- Every slice exists, and the slices are the words. -/
theorem tokensFrom_eq (text : String) (cs : List Char) :
    ∀ (offset : Nat) (run : Run), Ahead text offset cs → Pending text offset cs run →
      tokensFrom text offset (run.map Prod.fst) cs
        = some (scanFrom (fun _ => false) offset run cs) := by
  induction cs with
  | nil =>
    intro offset run hcs hrun
    cases run with
    | none => rfl
    | some pending =>
      have hend : offset = text.utf8ByteSize := hcs.size
      rw [hend] at hrun
      show (do
        let w ← slice? text pending.1 text.utf8ByteSize
        return [⟨w, pending.1⟩] : Option (List Token)) = _
      rw [hrun.slice?_eq]
      rfl
  | cons c cs ih =>
    intro offset run hcs hrun
    unfold tokensFrom scanFrom
    by_cases hblank : isBlank c = true
    · -- the word before the blank ends
      have hrest := ih (offset + c.utf8Size) none hcs.cons trivial
      rw [hblank, if_pos rfl]
      cases run with
      | none => exact hrest
      | some pending =>
        show (do
          let w ← slice? text pending.1 offset
          let ts ← tokensFrom text (offset + c.utf8Size) none cs
          return ⟨w, pending.1⟩ :: ts : Option (List Token)) = _
        rw [hrun.slice?_eq, show tokensFrom text (offset + c.utf8Size) none cs = _ from hrest]
        rfl
    · -- a word goes on, or begins
      have hblank : isBlank c = false := Bool.eq_false_iff.2 hblank
      have hrest := ih (offset + c.utf8Size) (run.extend offset c) hcs.cons
        (hrun.extend hcs)
      rw [hblank, if_neg (by decide), if_neg (by decide), ← hrest]
      cases run with
      | none => rfl
      | some pending => rfl

theorem tokens_eq (text : String) : tokens text = some (Flat.words text) :=
  tokensFrom_eq text text.toList 0 none (ahead_start text) trivial

/-- The words of a flat text are its maximal runs of characters that are not
blank: every one of them, in their order and at their byte offsets, and nothing
else.  Cutting them out of the text by offsets gives the same. -/
theorem tokens_iff_areRuns (text : String) (ts : List Token) :
    (Flat.words text = ts ↔ AreRuns text ts)
      ∧ (tokens text = some ts ↔ AreRuns text ts) := by
  have hwords : Flat.words text = ts ↔ AreRuns text ts := by
    constructor
    · rintro rfl
      exact areRuns_scan text
    · intro h
      exact (areRuns_scan text).unique h
  refine ⟨hwords, ?_⟩
  rw [tokens_eq, Option.some_inj]
  exact hwords

/-- Letters and blanks of two and three bytes, and a word that ends the text. -/
example : tokens "é\u3000x\u00a0 λ" = some [⟨"é", 0⟩, ⟨"x", 5⟩, ⟨"λ", 9⟩] := by
  decide +kernel

/-! ## §3. Operands. -/

theorem subtract?_eq {a b : Nat} (h : b ≤ a) : subtract? a b = some (a - b) :=
  if_pos h

/-- The trees of a stack in the order in which they came. -/
abbrev inOrder (r : Except ParseError Flat.Stack) : Except ParseError (List Expr) :=
  r.map List.reverse

theorem inOrder_push (stack : Flat.Stack) (e : Expr) :
    inOrder (.ok (e :: stack)) = .ok (stack.reverse ++ [e]) :=
  congrArg Except.ok List.reverse_cons

/-- An operation whose operands are there cuts them off. -/
theorem push_operation (stack : Flat.Stack) {op : Op} {t : Token}
    (hop : Op.ofToken? t.text = some op) :
    (push stack.reverse t).run = some (inOrder (Flat.pushOp stack op t.offset)) := by
  have hvar : Var.ofName? t.text = none := by
    rw [← Op.ofToken?_eq_some.1 hop]
    exact ofName?_token op
  unfold push Flat.pushOp
  rw [hvar, hop, List.length_reverse]
  dsimp only
  cases op.arity with
  | variadic => rfl
  | fixed needed =>
    dsimp only
    by_cases hlt : stack.length < needed
    · rw [if_pos hlt, if_pos hlt]
      rfl
    · have hle : needed ≤ stack.length := Nat.le_of_not_lt hlt
      rw [if_neg hlt, if_neg hlt, subtract?_eq hle]
      show some (Except.ok (stack.reverse.take (stack.length - needed)
        ++ [.node op (stack.reverse.drop (stack.length - needed))])) = _
      rw [inOrder_push, List.take_reverse, List.drop_reverse, Nat.sub_sub_self hle]

/-- A word that is no operation and stands for a tree adds it at the end. -/
theorem push_value (stack : Flat.Stack) {t : Token} (hop : Op.ofToken? t.text = none) :
    (push stack.reverse t).run = some (inOrder (Flat.step stack t)) := by
  unfold push
  rw [hop]
  cases hvar : Var.ofName? t.text with
  | some v =>
    have hleaf : leaf? t.text = some (.var v) := by
      unfold leaf?
      rw [hvar]
    rw [Flat.step_leaf hleaf, inOrder_push]
    rfl
  | none =>
    cases hname : namedConstant? t.text with
    | some e =>
      rw [Flat.step_named hname, inOrder_push]
      rfl
    | none =>
      cases hvalue : literal? t.text with
      | some value =>
        rw [Flat.step_leaf (leaf?_literal hvalue), inOrder_push]
        rfl
      | none =>
        have hleaf : leaf? t.text = none := by
          unfold leaf?
          rw [hvar, hvalue]
          rfl
        unfold Flat.step
        rw [hleaf, hop, hname]
        rfl

/-- One word does to the trees what it does to the stack, which has the last
tree first. -/
theorem push_eq (stack : Flat.Stack) (t : Token) :
    (push stack.reverse t).run = some (inOrder (Flat.step stack t)) := by
  cases hop : Op.ofToken? t.text with
  | some op =>
    rw [Flat.step_operation (Op.ofToken?_eq_some.1 hop).symm]
    exact push_operation stack hop
  | none => exact push_value stack hop

/-- So do any number of words. -/
theorem run_push_eq (ts : List Token) :
    ∀ stack : Flat.Stack, (ts.foldlM push stack.reverse).run
      = some (inOrder (ts.foldlM Flat.step stack)) := by
  induction ts with
  | nil =>
    intro stack
    rfl
  | cons t ts ih =>
    intro stack
    have hstep := push_eq stack t
    rw [List.foldlM_cons, List.foldlM_cons, ExceptT.run_bind, hstep]
    cases Flat.step stack t with
    | error fault => rfl
    | ok stack' => exact ih stack'

/-! ## §4. The whole text. -/

theorem only_eq (length : Nat) (stack : Flat.Stack) :
    (only length stack.reverse).run = some (Flat.finish length stack) := by
  match stack with
  | [] => rfl
  | [e] => rfl
  | e :: d :: rest =>
    have hlength : (e :: d :: rest).reverse.length - 1 = (d :: rest).length := by
      rw [List.length_reverse]
      rfl
    unfold only
    split
    next h => exact absurd h (by simp)
    next h => exact absurd (congrArg List.length h) (by simp)
    next =>
      rw [hlength]
      rfl

/-- A text is read by offsets as it is word by word. -/
theorem flat_eq (text : String) : (flat text).run = some (Flat.parse text) := by
  have hrun : ((Flat.words text).foldlM push []).run = _ := run_push_eq (Flat.words text) []
  unfold flat Flat.parse
  rw [tokens_eq]
  show ((Flat.words text).foldlM push [] >>= only text.utf8ByteSize).run = _
  rw [ExceptT.run_bind, hrun]
  cases (Flat.words text).foldlM Flat.step [] with
  | error fault => rfl
  | ok stack => exact only_eq text.utf8ByteSize stack

end Trivariate.Parse.Cursor
