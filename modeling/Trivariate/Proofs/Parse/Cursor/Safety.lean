/-
  Trivariate.Proofs.Parse.Cursor.Safety
  ─────────────────────────────────────
  **OFFSETS ARE SAFE.**

  The readers that go through a text by offsets have a result for every text,
  which is the one of the readers of words.  When it is an error, what the
  error blames stands at its offset: the word that it names, the parenthesis
  of the group that it is about, or something that is not blank.  An error
  about the text as a whole has the offset of the end.

  Main results:

      step_blames, fault_blames   what a word is blamed for stands in the text
      read_safe                   every text is read, and what is wrong stands
                                  at its offset
-/
import Trivariate.Parse
import Trivariate.Proofs.Parse.Cursor.Flat
import Trivariate.Proofs.Parse.Cursor.Grouped
import Trivariate.Proofs.Parse.Fault

namespace Trivariate.Parse.Cursor

open Trivariate.Text

/-! ## §1. Every text has a result. -/

/-- The tree that a text spells in a notation, read by offsets, with loops that
may go round as often as `turns` says. -/
def read (turns : Nat) : Notation → String → Option (Except ParseError Expr)
  | .flat, text => (flat text).run
  | .operationFirst, text | .operationLast, text =>
      ((expression text turns).runAt 0).map (·.map Prod.fst)

theorem read_eq_parse {turns : Nat} {text : String} (hturns : text.utf8ByteSize < turns)
    (n : Notation) : read turns n text = some (parse n text) := by
  -- every character takes up at least one byte
  have hlength : text.toList.length < turns := by
    have hle := length_le_byteLength text.toList
    rw [byteLength_toList] at hle
    omega
  have hgrouped : ((expression text turns).runAt 0).map (·.map Prod.fst)
      = some (Grouped.parse text) := by
    rw [expression_runAt hlength]
    cases Grouped.parse text with
    | error fault => rfl
    | ok e => rfl
  cases n with
  | flat => exact flat_eq text
  | operationFirst => exact hgrouped
  | operationLast => exact hgrouped

/-! ## §2. What an error blames. -/

/-- What the error is about stands in the text at the error's offset. -/
def Blames (n : Notation) (text : String) : ParseError → Prop
  | .invalidElement word p => StandsAt text p word
  | .duplicateOperation op p | .stackUnderflow op _ _ p | .variadicInFlat op p =>
      StandsAt text p op.token
  | .unclosedGroup p | .missingOperation p | .arityMismatch _ p => StandsAt text p "("
  | .trailingInput p => ∃ c, isBlank c = false ∧ StandsAt text p (String.singleton c)
  | .trailingOperands _ p => p = text.utf8ByteSize
  | .emptyInput p => IsBoundary text p ∧ (n = .flat → p = text.utf8ByteSize)

/-- The offset of an error is a boundary of the text. -/
theorem Blames.isBoundary {n : Notation} {text : String} {fault : ParseError}
    (h : Blames n text fault) : IsBoundary text fault.position := by
  cases fault with
  | emptyInput p => exact h.1
  | trailingInput p =>
    obtain ⟨c, -, hc⟩ := h
    exact hc.isBoundary
  | trailingOperands count p =>
    have hend : p = text.utf8ByteSize := h
    show IsBoundary text p
    rw [hend]
    exact isBoundary_end text
  | unclosedGroup p => exact StandsAt.isBoundary h
  | missingOperation p => exact StandsAt.isBoundary h
  | duplicateOperation op p => exact StandsAt.isBoundary h
  | arityMismatch fault p => exact StandsAt.isBoundary h
  | invalidElement word p => exact StandsAt.isBoundary h
  | stackUnderflow op needed available p => exact StandsAt.isBoundary h
  | variadicInFlat op p => exact StandsAt.isBoundary h

/-! ## §3. Flat text. -/

section flat

variable {text : String}

/-- A word that stands in the text is blamed where it stands. -/
theorem step_blames {stack : Flat.Stack} {t : Token} {fault : ParseError}
    (ht : StandsAt text t.offset t.text) (h : Flat.step stack t = .error fault) :
    Blames .flat text fault := by
  cases hop : Op.ofToken? t.text with
  | some op =>
    have htoken : op.token = t.text := Op.ofToken?_eq_some.1 hop
    rw [← htoken] at ht
    rw [Flat.step_operation htoken.symm] at h
    unfold Flat.pushOp at h
    cases harity : op.arity with
    | variadic =>
      rw [harity] at h
      injection h with h
      rw [← h]
      exact ht
    | fixed needed =>
      rw [harity] at h
      dsimp only at h
      by_cases hlt : stack.length < needed
      · rw [if_pos hlt] at h
        injection h with h
        rw [← h]
        exact ht
      · rw [if_neg hlt] at h
        exact absurd h (by simp)
  | none =>
    unfold Flat.step at h
    cases hleaf : leaf? t.text with
    | some e =>
      rw [hleaf] at h
      exact absurd h (by simp)
    | none =>
      cases hname : namedConstant? t.text with
      | some e =>
        rw [hleaf, hop, hname] at h
        exact absurd h (by simp)
      | none =>
        rw [hleaf, hop, hname] at h
        injection h with h
        rw [← h]
        exact ht

/-- At the end a text is blamed as a whole. -/
theorem finish_blames {stack : Flat.Stack} {fault : ParseError}
    (h : Flat.finish text.utf8ByteSize stack = .error fault) :
    Blames .flat text fault := by
  match stack with
  | [] =>
    injection h with h
    rw [← h]
    exact ⟨isBoundary_end text, fun _ => rfl⟩
  | [e] => exact absurd h (by simp [Flat.finish])
  | _ :: _ :: rest =>
    injection h with h
    rw [← h]
    exact rfl

theorem flat_blames {fault : ParseError} (h : Flat.parse text = .error fault) :
    Blames .flat text fault := by
  unfold Flat.parse at h
  cases hrun : (Flat.words text).foldlM Flat.step [] with
  | ok stack =>
    rw [hrun] at h
    exact finish_blames h
  | error fault' =>
    rw [hrun] at h
    injection h with h
    obtain ⟨before, t, after, stack, hwords, -, hstep⟩ := run_error_iff.1 hrun
    have hmem : t ∈ Flat.words text := by
      rw [hwords]
      exact List.mem_append_right _ List.mem_cons_self
    rw [← h]
    exact step_blames (standsAt_of_mem_scan hmem) hstep

end flat

/-! ## §4. Grouped text. -/

section grouped

open Trivariate.Parse.Grouped (Place OpenGroup Fault EndFault FirstFault placeAfter)

variable {text : String} {n : Notation}

/-- Every group that is open at the place opens with a parenthesis. -/
def OpensWell (text : String) : Place → Prop
  | .first | .behind => True
  | .inside g outer => ∀ f ∈ g :: outer, StandsAt text f.start "("

/-- One more word of the text keeps this. -/
theorem OpensWell.next {p : Place} {t : Token} (h : OpensWell text p)
    (ht : StandsAt text t.offset t.text) : OpensWell text (p.next t) := by
  have hopened : t.text = "(" → StandsAt text t.offset "(" := by
    intro hopen
    rwa [hopen] at ht
  have hafter : ∀ groups : List OpenGroup,
      (∀ f ∈ groups, StandsAt text f.start "(") →
        OpensWell text (Place.afterElement groups) := by
    intro groups hgroups
    cases groups with
    | nil => trivial
    | cons g outer =>
      obtain ⟨hg, houter⟩ := List.forall_mem_cons.1 hgroups
      exact List.forall_mem_cons.2 ⟨hg, houter⟩
  cases p with
  | first =>
    show OpensWell text (ite _ _ _)
    by_cases hopen : t.text = "("
    · rw [if_pos hopen]
      exact List.forall_mem_singleton.2 (hopened hopen)
    · rw [if_neg hopen]
      trivial
  | inside g outer =>
    obtain ⟨hg, houter⟩ := List.forall_mem_cons.1 h
    show OpensWell text (ite _ _ (ite _ _ _))
    by_cases hopen : t.text = "("
    · rw [if_pos hopen]
      exact List.forall_mem_cons.2 ⟨hopened hopen, h⟩
    · rw [if_neg hopen]
      by_cases hclose : t.text = ")"
      · rw [if_pos hclose]
        exact hafter outer houter
      · rw [if_neg hclose]
        cases Op.ofToken? t.text with
        | some op => exact List.forall_mem_cons.2 ⟨hg, houter⟩
        | none => exact hafter (g :: outer) h
  | behind => trivial

/-- So do all the words of the text. -/
theorem opensWell_placeAfter {ts : List Token}
    (hts : ∀ t ∈ ts, StandsAt text t.offset t.text) : OpensWell text (placeAfter ts) := by
  have hrun : ∀ ts : List Token, (∀ t ∈ ts, StandsAt text t.offset t.text) →
      ∀ p, OpensWell text p → OpensWell text (ts.foldl Place.next p) := by
    intro ts
    induction ts with
    | nil =>
      intro _ p hp
      exact hp
    | cons t ts ih =>
      intro hts p hp
      obtain ⟨ht, hts⟩ := List.forall_mem_cons.1 hts
      exact ih hts _ (hp.next ht)
  exact hrun ts hts .first trivial

/-- A word is blamed where it stands, or for a group where that opens. -/
theorem fault_blames {p : Place} {t : Token} {fault : ParseError}
    (hn : n ≠ .flat) (hp : OpensWell text p) (ht : StandsAt text t.offset t.text)
    (hbegins : ∃ c cs, t.text.toList = c :: cs ∧ isBlank c = false)
    (h : Fault p t fault) : Blames n text fault := by
  cases h with
  | nothingToClose => exact ⟨ht.isBoundary, fun hflat => absurd hflat hn⟩
  | noLeafAlone => exact ht
  | secondOperation _ again =>
    show StandsAt text t.offset _
    rw [← again]
    exact ht
  | noItem => exact ht
  | noOperation => exact hp _ List.mem_cons_self
  | wrongCount => exact hp _ List.mem_cons_self
  | tooMuch =>
    obtain ⟨c, cs, hchars, hblank⟩ := hbegins
    exact ⟨c, hblank, ht.first hchars⟩

/-- At its end a text is blamed as a whole, or for a group where that opens. -/
theorem endFault_blames {p : Place} {fault : ParseError} (hn : n ≠ .flat)
    (hp : OpensWell text p) (h : EndFault text.utf8ByteSize p fault) :
    Blames n text fault := by
  cases h with
  | nothing => exact ⟨isBoundary_end text, fun hflat => absurd hflat hn⟩
  | unclosed => exact hp _ List.mem_cons_self

theorem grouped_blames {fault : ParseError} (hn : n ≠ .flat)
    (h : Grouped.parse text = .error fault) : Blames n text fault := by
  have hstands : ∀ t ∈ Grouped.words text, StandsAt text t.offset t.text :=
    fun t ht => standsAt_of_mem_scan ht
  have hbegins : ∀ t ∈ Grouped.words text,
      ∃ c cs, t.text.toList = c :: cs ∧ isBlank c = false :=
    fun t ht => begins_of_mem_scan ht
  have hfirst := Grouped.firstFault_of_parse h
  generalize Grouped.words text = ts at *
  cases hfirst with
  | @word before after t _ _ here =>
    have hmem : t ∈ before ++ t :: after :=
      List.mem_append_right _ List.mem_cons_self
    have hbefore : OpensWell text (placeAfter before) :=
      opensWell_placeAfter fun u hu => hstands u (List.mem_append_left _ hu)
    exact fault_blames hn hbefore (hstands t hmem) (hbegins t hmem) here
  | ending _ here => exact endFault_blames hn (opensWell_placeAfter hstands) here

end grouped

/-! ## §5. Safety. -/

/-- What the error of a text blames stands at the error's offset. -/
theorem parse_blames {n : Notation} {text : String} {fault : ParseError}
    (h : parse n text = .error fault) : Blames n text fault := by
  cases n with
  | flat => exact flat_blames h
  | operationFirst => exact grouped_blames (by decide) h
  | operationLast => exact grouped_blames (by decide) h

/-- Read by offsets, with a slice or a difference that does not exist leaving it
without a result, every text has the result that it has word by word, when loops
may go round more often than it has bytes; and when this is an error, its offset
is a boundary of the text, where what it blames stands. -/
theorem read_safe (n : Notation) (text : String) :
    (∀ turns > text.utf8ByteSize, read turns n text = some (parse n text))
      ∧ ∀ fault, parse n text = .error fault →
          IsBoundary text fault.position ∧ fault.position ≤ text.utf8ByteSize
            ∧ Blames n text fault := by
  constructor
  · intro turns hturns
    exact read_eq_parse hturns n
  · intro fault h
    have hblames := parse_blames h
    exact ⟨hblames.isBoundary, hblames.isBoundary.le, hblames⟩

end Trivariate.Parse.Cursor
