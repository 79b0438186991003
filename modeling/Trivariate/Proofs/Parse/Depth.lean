/-
  Trivariate.Proofs.Parse.Depth
  ─────────────────────────────
  **FLAT TEXT IS JUDGED BY A COUNT.**

  Whether a flat text is read, and with which error it is not, depends on how
  many trees are on the stack and not on the trees.  A count that goes through
  the same words takes the place of the stack: a value adds one, an operation
  takes away its operands and adds its node.

  The count is never zero behind a word, so a text that is found empty has no
  words at all.

  Main results:

      step_depth              one word does to the count what it does to the
                              stack
      run_depth               so do any number of words
      occupied_run            behind a word a text is not empty
      parse_eq_verdict        the reader's verdict is that of the count
-/
import Trivariate.Proofs.Parse.Flat

namespace Trivariate.Parse.Flat

open Trivariate.Numeric (literal?)
open Trivariate.Text (Token Cut isBlank exists_cut_iff)

/-! ## §1. Counting. -/

/-- The words that are names of constants. -/
def constantNames : List String := ["NULL", "ONE", "one", "TWO", "two"]

/-- A word that stands for a value: a variable, a constant's name or a
number. -/
def isValue (word : String) : Bool :=
  (Var.ofName? word).isSome || constantNames.contains word || (literal? word).isSome

/-- The count behind a word. -/
def deepen (depth : Nat) (t : Token) : Except ParseError Nat :=
  if isValue t.text then .ok (depth + 1)
  else
    match Op.ofToken? t.text with
    | none => .error (.invalidElement t.text t.offset)
    | some op =>
        match op.arity with
        | .variadic => .error (.variadicInFlat op t.offset)
        | .fixed needed =>
            if depth < needed then
              .error (.stackUnderflow op needed depth t.offset)
            else .ok (depth - needed + 1)

/-- What is said of a text of `length` bytes at whose end the count is
`depth`. -/
def judge (length depth : Nat) : Except ParseError Unit :=
  if depth = 0 then .error (.emptyInput length)
  else if depth = 1 then .ok ()
  else .error (.trailingOperands (depth - 1) length)

/-- What is said of a text of `length` bytes with these words. -/
def verdict (length : Nat) (ts : List Token) : Except ParseError Unit := do
  let depth ← ts.foldlM deepen 0
  judge length depth

/-! ## §2. Words that are values. -/

theorem isSome_namedConstant? (word : String) :
    (namedConstant? word).isSome = constantNames.contains word := by
  rw [Bool.eq_iff_iff, Option.isSome_iff_exists]
  simp [namedConstant?_eq_some, constantNames, exists_or]

theorem isSome_leaf? (word : String) :
    (leaf? word).isSome = ((Var.ofName? word).isSome || (literal? word).isSome) := by
  unfold leaf?
  cases Var.ofName? word with
  | some v => rfl
  | none => simp

theorem isValue_eq (word : String) :
    isValue word = ((leaf? word).isSome || (namedConstant? word).isSome) := by
  rw [isSome_leaf?, isSome_namedConstant?]
  unfold isValue
  rw [Bool.or_assoc, Bool.or_assoc, Bool.or_comm (constantNames.contains word)]

/-! ## §3. The stack and its count. -/

/-- An operation takes away its operands and adds its node. -/
theorem pushOp_depth (stack : Stack) (op : Op) (position : Nat) :
    (pushOp stack op position).map List.length
      = match op.arity with
        | .variadic => .error (.variadicInFlat op position)
        | .fixed needed =>
            if stack.length < needed then
              .error (.stackUnderflow op needed stack.length position)
            else .ok (stack.length - needed + 1) := by
  unfold pushOp
  cases op.arity with
  | variadic => rfl
  | fixed needed =>
    dsimp only
    by_cases hlt : stack.length < needed
    · rw [if_pos hlt, if_pos hlt]
      rfl
    · rw [if_neg hlt, if_neg hlt]
      show Except.ok ((stack.drop needed).length + 1) = _
      rw [List.length_drop]

/-- One word does to the count what it does to the stack, and fails alike. -/
theorem step_depth (stack : Stack) (t : Token) :
    (step stack t).map List.length = deepen stack.length t := by
  unfold step deepen
  rw [isValue_eq]
  cases hleaf : leaf? t.text with
  | some e => rfl
  | none =>
    cases hop : Op.ofToken? t.text with
    | some op =>
      -- an operation's token names no constant
      have hname : namedConstant? t.text = none := by
        cases hname : namedConstant? t.text with
        | none => rfl
        | some e =>
          rw [(no_leaf_of_named hname).2] at hop
          exact absurd hop (by simp)
      rw [hname]
      exact pushOp_depth stack op t.offset
    | none =>
      cases hname : namedConstant? t.text with
      | some e => rfl
      | none => rfl

/-- Any number of words do to the count what they do to the stack. -/
theorem run_depth (ts : List Token) :
    ∀ stack : Stack,
      (ts.foldlM step stack).map List.length = ts.foldlM deepen stack.length := by
  induction ts with
  | nil =>
    intro stack
    rfl
  | cons t ts ih =>
    intro stack
    have hstep := step_depth stack t
    rw [List.foldlM_cons, List.foldlM_cons, ← hstep]
    cases step stack t with
    | error fault => rfl
    | ok stack' => exact ih stack'

/-- The end of a text is judged by the count. -/
theorem finish_depth (length : Nat) (stack : Stack) :
    (finish length stack).map (fun _ => ()) = judge length stack.length := by
  match stack with
  | [] => rfl
  | [e] => rfl
  | _ :: _ :: rest => rfl

/-- The verdict on a text is that of the count over its words. -/
theorem parse_depth (text : String) :
    (parse text).map (fun _ => ()) = verdict text.utf8ByteSize (words text) := by
  have hrun := run_depth (words text) []
  unfold parse verdict
  rw [show (0 : Nat) = ([] : Stack).length from rfl, ← hrun]
  cases (words text).foldlM step [] with
  | error fault => rfl
  | ok stack => exact finish_depth text.utf8ByteSize stack

/-! ## §4. Texts that are empty. -/

/-- A count of one or more, or an error that is not that of an empty text. -/
def Occupied : Except ParseError Nat → Prop
  | .ok depth => 0 < depth
  | .error fault => ∀ p, fault ≠ .emptyInput p

/-- Behind a word the text is not empty, whatever the count was before it. -/
theorem occupied_deepen (depth : Nat) (t : Token) : Occupied (deepen depth t) := by
  unfold deepen
  by_cases hvalue : isValue t.text = true
  · rw [if_pos hvalue]
    exact Nat.succ_pos depth
  · rw [if_neg hvalue]
    cases Op.ofToken? t.text with
    | none =>
      intro p
      exact ParseError.noConfusion
    | some op =>
      dsimp only
      cases op.arity with
      | variadic =>
        intro p
        exact ParseError.noConfusion
      | fixed needed =>
        dsimp only
        by_cases hlt : depth < needed
        · rw [if_pos hlt]
          intro p
          exact ParseError.noConfusion
        · rw [if_neg hlt]
          exact Nat.succ_pos (depth - needed)

/-- Nor is it empty behind any more words. -/
theorem occupied_run (ts : List Token) :
    ∀ (t : Token) (depth : Nat), Occupied ((t :: ts).foldlM deepen depth) := by
  induction ts with
  | nil =>
    intro t depth
    have hstep := occupied_deepen depth t
    rw [List.foldlM_cons]
    cases h : deepen depth t with
    | error fault =>
      rw [h] at hstep
      exact hstep
    | ok next =>
      rw [h] at hstep
      exact hstep
  | cons u ts ih =>
    intro t depth
    have hstep := occupied_deepen depth t
    rw [List.foldlM_cons]
    cases h : deepen depth t with
    | error fault =>
      rw [h] at hstep
      exact hstep
    | ok next => exact ih u next

/-- Only a text without words is found empty, and at its end. -/
theorem verdict_eq_emptyInput {length p : Nat} {ts : List Token} :
    verdict length ts = .error (.emptyInput p) ↔ ts = [] ∧ p = length := by
  constructor
  · intro h
    cases ts with
    | nil =>
      injection h with h
      injection h with h
      exact ⟨rfl, h.symm⟩
    | cons t ts =>
      have hrun := occupied_run ts t 0
      unfold verdict at h
      cases hlast : (t :: ts).foldlM deepen 0 with
      | error fault =>
        rw [hlast] at h hrun
        injection h with h
        exact absurd h (hrun p)
      | ok depth =>
        rw [hlast] at h hrun
        have hpos : 0 < depth := hrun
        have hjudge : judge length depth = .error (.emptyInput p) := h
        unfold judge at hjudge
        rw [if_neg (by omega)] at hjudge
        split at hjudge
        next => exact absurd hjudge (by simp)
        next => exact absurd hjudge (by simp)
  · rintro ⟨rfl, rfl⟩
    rfl

/-- Without tokens there are only blanks, and the other way round. -/
theorem cut_nil_iff {isMark : Char → Bool} {offset : Nat} {cs : List Char} :
    Cut isMark offset cs [] ↔ ∀ c ∈ cs, isBlank c = true := by
  constructor
  · intro h
    generalize hts : ([] : List Token) = ts at h
    induction h with
    | nil => simp
    | blank hblank _ ih => exact List.forall_mem_cons.2 ⟨hblank, ih hts⟩
    | mark => exact absurd hts (by simp)
    | word => exact absurd hts (by simp)
  · intro h
    induction cs generalizing offset with
    | nil => exact .nil
    | cons c cs ih =>
      obtain ⟨hc, hcs⟩ := List.forall_mem_cons.1 h
      exact .blank hc (ih hcs)

/-! ## §5. The verdict. -/

/-- The text, cut into runs of characters that are not blank, is read or not
read as the count over these words says, with the count's error.  It is found
empty when it has only blanks. -/
theorem parse_eq_verdict (text : String) :
    ∃ ts, Cut (fun _ => false) 0 text.toList ts
      ∧ (parse text).map (fun _ => ()) = verdict text.utf8ByteSize ts
      ∧ ((∃ p, parse text = .error (.emptyInput p))
          ↔ ∀ c ∈ text.toList, isBlank c = true) := by
  rw [exists_cut_iff]
  refine ⟨parse_depth text, ?_⟩
  have hempty : ∀ p, parse text = .error (.emptyInput p)
      ↔ words text = [] ∧ p = text.utf8ByteSize := by
    intro p
    rw [← map_eq_error, parse_depth, verdict_eq_emptyInput]
  have hblank : words text = [] ↔ ∀ c ∈ text.toList, isBlank c = true := by
    unfold words
    rw [Text.scan_eq_iff, cut_nil_iff]
  constructor
  · rintro ⟨p, hp⟩
    exact hblank.1 ((hempty p).1 hp).1
  · intro h
    exact ⟨text.utf8ByteSize, (hempty _).2 ⟨hblank.2 h, rfl⟩⟩

/-- Three operands are left by `x y z`, and `x + y` has only one for its
sum. -/
example : verdict 5 [⟨"x", 0⟩, ⟨"y", 2⟩, ⟨"z", 4⟩] = .error (.trailingOperands 2 5)
    ∧ verdict 5 [⟨"x", 0⟩, ⟨"+", 2⟩, ⟨"y", 4⟩]
      = .error (.stackUnderflow .add 2 1 2) := by decide +kernel

end Trivariate.Parse.Flat
