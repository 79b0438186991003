/-
  Trivariate.Proofs.Parse.Fault
  ─────────────────────────────
  **WHERE GROUPED TEXT GOES WRONG.**

  The rules of what is wrong with a grouped text, said without any trees.
  The words are gone through from left to right with a stack of the groups
  that are open; of a group it is known where it opens, which operation it
  has, if any, and how many operands.  A table says which word is at fault at
  which place, and another what is wrong with a text that ends there.

  The reader fails with the first fault, whatever else is wrong further on,
  and succeeds where there is none.

  Main results:

      step_error_iff               a word that cannot be read is at fault
      place_of_step                one that is read leads to the next place
      faultless_iff_run            words are read up to the first fault
      parse_error_iff_firstFault   the error of a text is its first fault
-/
import Trivariate.Proofs.Parse.Grouped

namespace Trivariate.Parse.Grouped

open Trivariate.Numeric (literal?)
open Trivariate.Text (Token Cut exists_cut_iff)

/-! ## §1. Places. -/

/-- A group that is open: where it opens, its operation if it has one yet, and
how many operands it has so far. -/
structure OpenGroup where
  start : Nat
  op? : Option Op
  count : Nat

/-- What stands before a word. -/
inductive Place where
  /-- Nothing: the word is the first. -/
  | first
  /-- Open groups, the innermost one and then the others from the inside. -/
  | inside (group : OpenGroup) (outer : List OpenGroup)
  /-- A complete expression. -/
  | behind

/-- The place behind a leaf or a group that stands in these open groups. -/
def Place.afterElement : List OpenGroup → Place
  | [] => .behind
  | g :: outer => .inside { g with count := g.count + 1 } outer

/-- The place behind a word that is not at fault. -/
def Place.next : Place → Token → Place
  | .first, t =>
      if t.text = "(" then .inside ⟨t.offset, none, 0⟩ [] else .behind
  | .inside g outer, t =>
      if t.text = "(" then .inside ⟨t.offset, none, 0⟩ (g :: outer)
      else if t.text = ")" then .afterElement outer
      else
        match Op.ofToken? t.text with
        | some op => .inside { g with op? := some op } outer
        | none => .afterElement (g :: outer)
  | .behind, _ => .behind

/-- The place behind these words, from the beginning of the text. -/
def placeAfter (ts : List Token) : Place :=
  ts.foldl Place.next .first

/-! ## §2. Faults. -/

/-- A word that is no parenthesis. -/
def IsAtom (word : String) : Prop :=
  word ≠ "(" ∧ word ≠ ")"

/-- A variable's name or a number. -/
def IsLeaf (word : String) : Prop :=
  (∃ v : Var, v.name = word) ∨ ∃ value, literal? word = some value

/-- The word is at fault at the place, with this error. -/
inductive Fault : Place → Token → ParseError → Prop where
  /-- The text begins with a closing parenthesis. -/
  | nothingToClose {t : Token} (closes : t.text = ")") :
      Fault .first t (.emptyInput t.offset)
  /-- Alone, only a leaf is an expression. -/
  | noLeafAlone {t : Token} (atom : IsAtom t.text) (leaf : ¬ IsLeaf t.text) :
      Fault .first t (.invalidElement t.text t.offset)
  /-- The group has its operation already. -/
  | secondOperation {g : OpenGroup} {outer : List OpenGroup} {t : Token}
      {has op : Op} (before : g.op? = some has) (again : t.text = op.token) :
      Fault (.inside g outer) t (.duplicateOperation op t.offset)
  /-- Inside a group an atom is an operation or a leaf. -/
  | noItem {g : OpenGroup} {outer : List OpenGroup} {t : Token}
      (atom : IsAtom t.text) (operation : ∀ op : Op, t.text ≠ op.token)
      (leaf : ¬ IsLeaf t.text) :
      Fault (.inside g outer) t (.invalidElement t.text t.offset)
  /-- The group closes without an operation. -/
  | noOperation {g : OpenGroup} {outer : List OpenGroup} {t : Token}
      (closes : t.text = ")") (operation : g.op? = none) :
      Fault (.inside g outer) t (.missingOperation g.start)
  /-- The group closes with a number of operands that its operation does not
  take. -/
  | wrongCount {g : OpenGroup} {outer : List OpenGroup} {t : Token} {op : Op}
      (closes : t.text = ")") (operation : g.op? = some op)
      (count : op.arity.accepts g.count = false) :
      Fault (.inside g outer) t (.arityMismatch ⟨op, g.count⟩ g.start)
  /-- Nothing may follow a complete expression. -/
  | tooMuch {t : Token} : Fault .behind t (.trailingInput t.offset)

/-- What is wrong with a text of `length` bytes that ends at the place. -/
inductive EndFault (length : Nat) : Place → ParseError → Prop where
  | nothing : EndFault length .first (.emptyInput length)
  /-- The innermost of the open groups is to blame. -/
  | unclosed {g : OpenGroup} {outer : List OpenGroup} :
      EndFault length (.inside g outer) (.unclosedGroup g.start)

/-- None of the words is at fault. -/
def Faultless (ts : List Token) : Prop :=
  ∀ before t after, ts = before ++ t :: after →
    ∀ fault, ¬ Fault (placeAfter before) t fault

/-- The first fault of a text of `length` bytes with these words. -/
inductive FirstFault (length : Nat) : List Token → ParseError → Prop where
  | word {before after : List Token} {t : Token} {fault : ParseError}
      (earlier : Faultless before) (here : Fault (placeAfter before) t fault) :
      FirstFault length (before ++ t :: after) fault
  | ending {ts : List Token} {fault : ParseError}
      (earlier : Faultless ts) (here : EndFault length (placeAfter ts) fault) :
      FirstFault length ts fault

theorem leaf?_eq_none {word : String} : leaf? word = none ↔ ¬ IsLeaf word := by
  constructor
  · rintro hnone (⟨v, rfl⟩ | ⟨value, hvalue⟩)
    · rw [leaf?_name] at hnone
      exact absurd hnone (by simp)
    · rw [leaf?_literal hvalue] at hnone
      exact absurd hnone (by simp)
  · intro hleaf
    cases h : leaf? word with
    | none => rfl
    | some e =>
      refine absurd ?_ hleaf
      rcases leaf?_eq_some.1 h with ⟨v, hv, -⟩ | ⟨value, hvalue, -⟩
      · exact .inl ⟨v, hv⟩
      · exact .inr ⟨value, hvalue⟩

theorem ofToken?_eq_none {word : String} :
    Op.ofToken? word = none ↔ ∀ op : Op, word ≠ op.token := by
  constructor
  · rintro hnone op rfl
    rw [Op.ofToken?_eq_some.2 rfl] at hnone
    exact absurd hnone (by simp)
  · intro hop
    cases h : Op.ofToken? word with
    | none => rfl
    | some op => exact absurd (Op.ofToken?_eq_some.1 h).symm (hop op)

/-! ## §3. The reader's places. -/

/-- What the rules see of a group that is being read. -/
def Group.view (g : Group) : OpenGroup :=
  ⟨g.start, g.op?, g.operands.length⟩

/-- What the rules see of how far a text has been read. -/
def Progress.place : Progress → Place
  | .start => .first
  | .inside g outer => .inside g.view (outer.map Group.view)
  | .done _ => .behind

theorem place_after (e : Expr) (outer : List Group) :
    (Progress.after e outer).place = .afterElement (outer.map Group.view) := by
  cases outer with
  | nil => rfl
  | cons g outer => rfl

/-- A group reads its operation, when it has none yet, or a leaf. -/
theorem read_cases {g g' : Group} {t : Token} (h : g.read t = .ok g') :
    (∃ op, Op.ofToken? t.text = some op ∧ g' = { g with op? := some op })
      ∨ ∃ e, leaf? t.text = some e ∧ g' = g.push e := by
  unfold Group.read at h
  cases hop : Op.ofToken? t.text with
  | some op =>
    cases hg : g.op? with
    | some has =>
      rw [hop, hg] at h
      exact absurd h (by simp)
    | none =>
      rw [hop, hg] at h
      injection h with h
      exact .inl ⟨op, rfl, h.symm⟩
  | none =>
    cases hleaf : leaf? t.text with
    | none =>
      rw [hop, hleaf] at h
      exact absurd h (by simp)
    | some e =>
      rw [hop, hleaf] at h
      injection h with h
      exact .inr ⟨e, rfl, h.symm⟩

/-- A word that is read leads to the next place. -/
theorem place_of_step {p q : Progress} {t : Token} (h : step p t = .ok q) :
    q.place = p.place.next t := by
  cases p with
  | start =>
    rcases step_start_cases h with ⟨ht, rfl⟩ | ⟨e, hleaf, rfl⟩
    · show _ = ite _ _ _
      rw [if_pos ht]
      rfl
    · show _ = ite _ _ _
      rw [if_neg (leaf_ne_parenthesis hleaf).1]
      rfl
  | inside g outer =>
    show _ = ite _ _ (ite _ _ _)
    rcases step_inside_cases h with ⟨ht, rfl⟩ | ⟨ht, e, -, rfl⟩ | ⟨g', hread, rfl⟩
    · rw [if_pos ht]
      rfl
    · rw [if_neg (by rw [ht]; decide), if_pos ht]
      exact place_after e outer
    · rcases read_cases hread with ⟨op, hop, rfl⟩ | ⟨e, hleaf, rfl⟩
      · have htoken := token_ne_parenthesis op
        rw [Op.ofToken?_eq_some.1 hop] at htoken
        rw [if_neg htoken.1, if_neg htoken.2, hop]
        rfl
      · have hatom := leaf_ne_parenthesis hleaf
        rw [if_neg hatom.1, if_neg hatom.2, ofToken?_of_leaf? hleaf]
        rfl
  | done e => exact absurd h (by simp [step])

theorem place_of_run {ts : List Token} {p q : Progress}
    (h : ts.foldlM step p = .ok q) : q.place = ts.foldl Place.next p.place := by
  induction ts generalizing p with
  | nil =>
    rw [List.foldlM_nil] at h
    injection h with h
    rw [h]
    rfl
  | cons t ts ih =>
    obtain ⟨p', hstep, hrest⟩ := run_cons_ok.1 h
    rw [List.foldl_cons, ← place_of_step hstep]
    exact ih hrest

/-! ## §4. The reader's errors. -/

theorem close_none {g : Group} (h : g.op? = none) :
    g.close = .error (.missingOperation g.start) := by
  unfold Group.close
  rw [h]

theorem close_some {g : Group} {op : Op} (h : g.op? = some op) :
    g.close = if op.arity.accepts g.operands.length = true
      then .ok (.node op g.operands.reverse)
      else .error (.arityMismatch ⟨op, g.operands.length⟩ g.start) := by
  unfold Group.close Expr.build?
  rw [h, List.length_reverse]
  by_cases hcount : op.arity.accepts g.operands.length = true
  · simp only [if_pos hcount]
  · simp only [if_neg hcount]

/-- A group that cannot be closed has no operation, or one that takes another
number of operands. -/
theorem close_error_iff {g : Group} {outer : List OpenGroup} {t : Token}
    (ht : t.text = ")") {fault : ParseError} :
    g.close = .error fault ↔ Fault (.inside g.view outer) t fault := by
  constructor
  · intro h
    cases hop : g.op? with
    | none =>
      rw [close_none hop] at h
      injection h with h
      rw [← h]
      exact .noOperation ht hop
    | some op =>
      rw [close_some hop] at h
      by_cases hcount : op.arity.accepts g.operands.length = true
      · rw [if_pos hcount] at h
        exact absurd h (by simp)
      · rw [if_neg hcount] at h
        injection h with h
        rw [← h]
        exact .wrongCount ht hop (Bool.eq_false_iff.2 hcount)
  · intro h
    cases h with
    | secondOperation _ again =>
      exact absurd (again.symm.trans ht) (token_ne_parenthesis _).2
    | noItem atom => exact absurd ht atom.2
    | noOperation _ operation => exact close_none operation
    | @wrongCount _ _ _ op _ operation count =>
      have hcount : ¬ op.arity.accepts g.operands.length = true :=
        Bool.eq_false_iff.1 count
      rw [close_some operation, if_neg hcount]
      rfl

/-- An atom that a group cannot read is a second operation, or means
nothing. -/
theorem read_error_iff {g : Group} {outer : List OpenGroup} {t : Token}
    (ht : IsAtom t.text) {fault : ParseError} :
    g.read t = .error fault ↔ Fault (.inside g.view outer) t fault := by
  unfold Group.read
  constructor
  · intro h
    cases hop : Op.ofToken? t.text with
    | some op =>
      cases hg : g.op? with
      | some has =>
        rw [hop, hg] at h
        injection h with h
        rw [← h]
        exact .secondOperation hg (Op.ofToken?_eq_some.1 hop).symm
      | none =>
        rw [hop, hg] at h
        exact absurd h (by simp)
    | none =>
      cases hleaf : leaf? t.text with
      | some e =>
        rw [hop, hleaf] at h
        exact absurd h (by simp)
      | none =>
        rw [hop, hleaf] at h
        injection h with h
        rw [← h]
        exact .noItem ht (ofToken?_eq_none.1 hop) (leaf?_eq_none.1 hleaf)
  · intro h
    cases h with
    | @secondOperation _ _ _ has op before again =>
      have hg : g.op? = some has := before
      rw [Op.ofToken?_eq_some.2 again.symm, hg]
    | noItem _ operation leaf =>
      rw [ofToken?_eq_none.2 operation, leaf?_eq_none.2 leaf]
    | noOperation closes => exact absurd closes ht.2
    | wrongCount closes => exact absurd closes ht.2

/-- An opening parenthesis is at fault only behind a complete expression. -/
theorem not_fault_open {p : Place} {t : Token} {fault : ParseError}
    (ht : t.text = "(") (hp : p ≠ .behind) : ¬ Fault p t fault := by
  intro h
  have hclose : t.text ≠ ")" := by
    rw [ht]
    decide
  cases h with
  | nothingToClose closes => exact hclose closes
  | noLeafAlone atom => exact atom.1 ht
  | secondOperation _ again =>
    exact (token_ne_parenthesis _).1 (again.symm.trans ht)
  | noItem atom => exact atom.1 ht
  | noOperation closes => exact hclose closes
  | wrongCount closes => exact hclose closes
  | tooMuch => exact hp rfl

theorem step_start_error_iff {t : Token} {fault : ParseError} :
    step .start t = .error fault ↔ Fault .first t fault := by
  rw [step_start]
  by_cases hopen : t.text = "("
  · rw [if_pos hopen]
    constructor
    · intro h
      exact absurd h (by simp)
    · intro h
      exact absurd h (not_fault_open hopen (by simp))
  · rw [if_neg hopen]
    by_cases hclose : t.text = ")"
    · rw [if_pos hclose]
      constructor
      · intro h
        injection h with h
        rw [← h]
        exact .nothingToClose hclose
      · intro h
        cases h with
        | nothingToClose => rfl
        | noLeafAlone atom => exact absurd hclose atom.2
    · rw [if_neg hclose]
      constructor
      · intro h
        cases hleaf : leaf? t.text with
        | some e =>
          rw [hleaf] at h
          exact absurd h (by simp)
        | none =>
          rw [hleaf] at h
          injection h with h
          rw [← h]
          exact .noLeafAlone ⟨hopen, hclose⟩ (leaf?_eq_none.1 hleaf)
      · intro h
        cases h with
        | nothingToClose closes => exact absurd closes hclose
        | noLeafAlone _ leaf => rw [leaf?_eq_none.2 leaf]

/-- A word cannot be read when it is at fault, and the error is its fault. -/
theorem step_error_iff {p : Progress} {t : Token} {fault : ParseError} :
    step p t = .error fault ↔ Fault p.place t fault := by
  cases p with
  | start => exact step_start_error_iff
  | inside g outer =>
    rw [step_inside]
    by_cases hopen : t.text = "("
    · rw [if_pos hopen]
      constructor
      · intro h
        exact absurd h (by simp)
      · intro h
        exact absurd h (not_fault_open hopen (by simp [Progress.place]))
    · rw [if_neg hopen]
      by_cases hclose : t.text = ")"
      · rw [if_pos hclose, map_eq_error]
        exact close_error_iff hclose
      · rw [if_neg hclose, map_eq_error]
        exact read_error_iff ⟨hopen, hclose⟩
  | done e =>
    constructor
    · intro h
      injection h with h
      rw [← h]
      exact .tooMuch
    · intro h
      cases h with
      | tooMuch => rfl

theorem finish_error_iff {length : Nat} {p : Progress} {fault : ParseError} :
    finish length p = .error fault ↔ EndFault length p.place fault := by
  constructor
  · intro h
    cases p with
    | start =>
      injection h with h
      rw [← h]
      exact .nothing
    | inside g outer =>
      injection h with h
      rw [← h]
      exact .unclosed
    | done e => exact absurd h (by simp [finish])
  · intro h
    cases p with
    | start =>
      cases h with
      | nothing => rfl
    | inside g outer =>
      cases h with
      | unclosed => rfl
    | done e => cases h

/-! ## §5. The first fault. -/

/-- The word at which a run fails is at fault, with the error of the run. -/
theorem fault_of_run {ts : List Token} {fault : ParseError}
    (h : ts.foldlM step .start = .error fault) :
    ∃ before t after p, ts = before ++ t :: after
      ∧ before.foldlM step .start = .ok p ∧ p.place = placeAfter before
      ∧ Fault (placeAfter before) t fault := by
  obtain ⟨before, t, after, p, hts, hbefore, hstep⟩ := run_error_iff.1 h
  have hplace : p.place = placeAfter before := place_of_run hbefore
  rw [step_error_iff, hplace] at hstep
  exact ⟨before, t, after, p, hts, hbefore, hplace, hstep⟩

/-- Words are read when none of them is at fault. -/
theorem faultless_iff_run {ts : List Token} :
    Faultless ts
      ↔ ∃ p, ts.foldlM step .start = .ok p ∧ p.place = placeAfter ts := by
  constructor
  · intro h
    cases hrun : ts.foldlM step .start with
    | ok p => exact ⟨p, rfl, place_of_run hrun⟩
    | error fault =>
      obtain ⟨before, t, after, p, hts, -, -, hfault⟩ := fault_of_run hrun
      exact absurd hfault (h before t after hts fault)
  · rintro ⟨q, hrun, -⟩ before t after rfl fault hfault
    obtain ⟨p, hbefore, hrest⟩ := run_append_ok.1 hrun
    obtain ⟨p', hstep, -⟩ := run_cons_ok.1 hrest
    have hplace : p.place = placeAfter before := place_of_run hbefore
    rw [← hplace, ← step_error_iff, hstep] at hfault
    exact absurd hfault (by simp)

theorem parse_of_run {text : String} {p : Progress}
    (h : (words text).foldlM step .start = .ok p) :
    parse text = finish text.utf8ByteSize p := by
  unfold parse
  rw [h]
  rfl

theorem parse_of_run_error {text : String} {fault : ParseError}
    (h : (words text).foldlM step .start = .error fault) :
    parse text = .error fault := by
  unfold parse
  rw [h]
  rfl

/-- The error of a text is the first fault of its words. -/
theorem firstFault_of_parse {text : String} {fault : ParseError}
    (h : parse text = .error fault) :
    FirstFault text.utf8ByteSize (words text) fault := by
  cases hrun : (words text).foldlM step .start with
  | ok p =>
    have hplace : p.place = placeAfter (words text) := place_of_run hrun
    rw [parse_of_run hrun, finish_error_iff, hplace] at h
    exact .ending (faultless_iff_run.2 ⟨p, hrun, hplace⟩) h
  | error fault' =>
    rw [parse_of_run_error hrun] at h
    injection h with h
    obtain ⟨before, t, after, p, hts, hbefore, hplace, hfault⟩ := fault_of_run hrun
    rw [hts, ← h]
    exact .word (faultless_iff_run.2 ⟨p, hbefore, hplace⟩) hfault

/-- With a first fault the text has its error. -/
theorem parse_of_firstFault {text : String} {fault : ParseError}
    (h : FirstFault text.utf8ByteSize (words text) fault) :
    parse text = .error fault := by
  generalize hts : words text = ts at h
  cases h with
  | @word before after t _ earlier here =>
    obtain ⟨p, hbefore, hplace⟩ := faultless_iff_run.1 earlier
    rw [← hplace, ← step_error_iff] at here
    refine parse_of_run_error (run_error_iff.2 ?_)
    exact ⟨before, t, after, p, hts, hbefore, here⟩
  | ending earlier here =>
    obtain ⟨p, hrun, hplace⟩ := faultless_iff_run.1 earlier
    rw [← hplace, ← finish_error_iff] at here
    rw [← hts] at hrun
    rw [parse_of_run hrun, here]

/-- A text is read when none of its words is at fault, and neither is its
end. -/
theorem parse_ok_iff_faultless {text : String} :
    (∃ e, parse text = .ok e)
      ↔ Faultless (words text)
        ∧ ∀ fault, ¬ EndFault text.utf8ByteSize (placeAfter (words text)) fault := by
  constructor
  · rintro ⟨e, h⟩
    have hrun := parse_eq_ok.1 h
    have hplace : Place.behind = placeAfter (words text) := place_of_run hrun
    refine ⟨faultless_iff_run.2 ⟨_, hrun, hplace⟩, ?_⟩
    rw [← hplace]
    intro fault hfault
    cases hfault
  · rintro ⟨hwords, hend⟩
    cases h : parse text with
    | ok e => exact ⟨e, rfl⟩
    | error fault =>
      -- a first fault would be one of a word or of the end
      have hfirst := firstFault_of_parse h
      generalize words text = ts at *
      cases hfirst with
      | @word before after t _ _ here =>
        exact absurd here (hwords before t after rfl fault)
      | ending _ here => exact absurd here (hend fault)

/-- The text, cut into parentheses and runs of other characters that are not
blank, has the error of its first fault, be it of a word or of its end, and is
read when it has no fault. -/
theorem parse_error_iff_firstFault (text : String) :
    ∃ ts, Cut isParenthesis 0 text.toList ts
      ∧ (∀ fault, parse text = .error fault
          ↔ FirstFault text.utf8ByteSize ts fault)
      ∧ ((∃ e, parse text = .ok e)
          ↔ Faultless ts
            ∧ ∀ fault, ¬ EndFault text.utf8ByteSize (placeAfter ts) fault) := by
  rw [exists_cut_iff]
  refine ⟨?_, parse_ok_iff_faultless⟩
  intro fault
  exact ⟨firstFault_of_parse, parse_of_firstFault⟩

end Trivariate.Parse.Grouped
