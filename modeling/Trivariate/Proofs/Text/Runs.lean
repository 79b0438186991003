/-
  Trivariate.Proofs.Text.Runs
  ───────────────────────────
  **WORDS ARE THE MAXIMAL RUNS OF A TEXT.**

  Where no character is a mark, the tokens of a text are its maximal runs of
  characters that are not blank: all of them, in their order, each at its byte
  offset.  The rule does not mention how the text is gone through, and one list
  of tokens meets it.

  A text may be cut in two wherever no word goes on across the seam; its tokens
  are then those of the two parts.

  Main results:

      Cut.append        two texts with a seam between them
      areRuns_scan      what the scanner finds are the maximal runs
      AreRuns.unique    no other list of tokens is
-/
import Mathlib.Data.List.Sort
import Trivariate.Proofs.Text.Position

namespace Trivariate.Text

/-! ## §1. Maximal runs. -/

/-- The byte offset just behind the token. -/
def Token.stop (t : Token) : Nat := t.offset + t.text.utf8ByteSize

/-- The token is a run of characters of the text that are not blank, between
texts that do not extend it. -/
structure RunBetween (text before after : String) (t : Token) : Prop where
  text_eq : text = before ++ t.text ++ after
  size_before : before.utf8ByteSize = t.offset
  nonempty : t.text ≠ ""
  notBlank : ∀ c ∈ t.text.toList, isBlank c = false
  blankBefore : ∀ c, before.toList.getLast? = some c → isBlank c = true
  blankBehind : ∀ c, after.toList.head? = some c → isBlank c = true

/-- A run of characters that are not blank and that nothing extends. -/
def MaximalRun (text : String) (t : Token) : Prop :=
  ∃ before after, RunBetween text before after t

/-- The tokens are the maximal runs of the text, in their order: each ends
before the next one begins, and a character that is in none of them is
blank. -/
structure AreRuns (text : String) (ts : List Token) : Prop where
  mem_iff : ∀ t, t ∈ ts ↔ MaximalRun text t
  apart : ts.Pairwise fun t u => t.stop < u.offset
  covers : ∀ offset c, StandsAt text offset (String.singleton c) →
    isBlank c = true ∨ ∃ t ∈ ts, t.offset ≤ offset ∧ offset + c.utf8Size ≤ t.stop

theorem stop_ofList (run : List Char) (offset : Nat) :
    Token.stop ⟨String.ofList run, offset⟩ = offset + byteLength run := by
  unfold Token.stop
  rw [← byteLength_toList, String.toList_ofList]

/-- Maximal runs in characters. -/
theorem maximalRun_iff {text : String} {t : Token} :
    MaximalRun text t ↔ ∃ before run after : List Char,
      text.toList = before ++ (run ++ after)
        ∧ t = ⟨String.ofList run, byteLength before⟩ ∧ run ≠ []
        ∧ (∀ c ∈ run, isBlank c = false)
        ∧ (∀ c, before.getLast? = some c → isBlank c = true)
        ∧ ∀ c, after.head? = some c → isBlank c = true := by
  constructor
  · rintro ⟨before, after, h⟩
    refine ⟨before.toList, t.text.toList, after.toList, ?_, ?_, ?_, h.notBlank,
      h.blankBefore, h.blankBehind⟩
    · rw [h.text_eq, String.toList_append, String.toList_append, List.append_assoc]
    · rw [String.ofList_toList, byteLength_toList, h.size_before]
    · intro hnil
      exact h.nonempty (String.toList_inj.1 hnil)
  · rintro ⟨before, run, after, htext, rfl, hne, hrun, hbefore, hafter⟩
    refine ⟨String.ofList before, String.ofList after, ?_, ?_, ?_, ?_, ?_, ?_⟩
    · rw [← String.toList_inj, htext, String.toList_append, String.toList_append,
        String.toList_ofList, String.toList_ofList, String.toList_ofList,
        List.append_assoc]
    · rw [← byteLength_toList, String.toList_ofList]
    · intro hempty
      rw [← String.toList_inj, String.toList_ofList] at hempty
      exact hne hempty
    · rw [String.toList_ofList]
      exact hrun
    · rw [String.toList_ofList]
      exact hbefore
    · rw [String.toList_ofList]
      exact hafter

/-! ## §2. Seams. -/

section seam

variable {isMark : Char → Bool}

/-- No word goes on from the characters before the seam into those behind. -/
def Seam (isMark : Char → Bool) (before after : List Char) : Prop :=
  (∀ c, before.getLast? = some c → isInner isMark c = false) ∨ EndsWord isMark after

theorem seam_nil (cs : List Char) : Seam isMark [] cs :=
  .inl fun c hc => absurd hc (by simp)

/-- A character that is in no word is followed by a seam. -/
theorem seam_concat {c : Char} (hc : isInner isMark c = false) (bs cs : List Char) :
    Seam isMark (bs ++ [c]) cs := by
  refine .inl fun d hd => ?_
  rw [List.getLast?_concat] at hd
  injection hd with hd
  rw [← hd]
  exact hc

/-- Of what stands before a seam only the end counts. -/
theorem Seam.of_append {as bs cs : List Char} (h : Seam isMark (as ++ bs) cs) :
    Seam isMark bs cs := by
  rcases h with h | h
  · refine .inl fun c hc => h c ?_
    rw [List.getLast?_append, hc]
    rfl
  · exact .inr h

/-- What follows a run of inner characters across a seam ends their word. -/
theorem Seam.endsWord {run cs : List Char} (h : Seam isMark run cs) (hne : run ≠ [])
    (hrun : ∀ c ∈ run, isInner isMark c = true) : EndsWord isMark cs := by
  rcases h with h | h
  · have hlast := h _ (List.getLast?_eq_some_getLast hne)
    rw [hrun _ (List.getLast_mem hne)] at hlast
    exact absurd hlast (by simp)
  · exact h

/-- Two texts with a seam between them are cut into the tokens of both. -/
theorem Cut.append {offset : Nat} {bs : List Char} {ts : List Token}
    (h : Cut isMark offset bs ts) : ∀ {cs : List Char} {us : List Token},
      Seam isMark bs cs → Cut isMark (offset + byteLength bs) cs us →
        Cut isMark offset (bs ++ cs) (ts ++ us) := by
  induction h with
  | nil =>
    intro cs us _ hcs
    exact hcs
  | @blank offset c bs ts hblank _ ih =>
    intro cs us hseam hcs
    have hseam' : Seam isMark ([c] ++ bs) cs := hseam
    rw [byteLength_cons, ← Nat.add_assoc] at hcs
    exact .blank hblank (ih hseam'.of_append hcs)
  | @mark offset c bs ts hblank hmark _ ih =>
    intro cs us hseam hcs
    have hseam' : Seam isMark ([c] ++ bs) cs := hseam
    rw [byteLength_cons, ← Nat.add_assoc] at hcs
    exact .mark hblank hmark (ih hseam'.of_append hcs)
  | @word offset run bs ts hne hrun hmaximal _ ih =>
    intro cs us hseam hcs
    rw [byteLength_append, ← Nat.add_assoc] at hcs
    have hend : EndsWord isMark (bs ++ cs) := by
      cases bs with
      | nil =>
        -- the word goes up to the seam
        rw [List.append_nil] at hseam
        exact hseam.endsWord hne hrun
      | cons b bs =>
        intro c hc
        exact hmaximal c hc
    rw [List.append_assoc]
    exact .word hne hrun hend (ih hseam.of_append hcs)

/-- Tokens stand where they are cut, or behind. -/
theorem Cut.offset_le {offset : Nat} {cs : List Char} {ts : List Token}
    (h : Cut isMark offset cs ts) : ∀ t ∈ ts, offset ≤ t.offset := by
  induction h with
  | nil => simp
  | blank _ _ ih =>
    intro t ht
    have hle := ih t ht
    omega
  | mark _ _ _ ih =>
    refine List.forall_mem_cons.2 ⟨Nat.le_refl _, ?_⟩
    intro t ht
    have hle := ih t ht
    omega
  | word _ _ _ _ ih =>
    refine List.forall_mem_cons.2 ⟨Nat.le_refl _, ?_⟩
    intro t ht
    have hle := ih t ht
    omega

end seam

/-! ## §3. Texts without marks. -/

/-- No character is a token of its own. -/
abbrev noMark : Char → Bool := fun _ => false

theorem isInner_noMark (c : Char) : isInner noMark c = !isBlank c := by
  simp [isInner]

theorem endsWord_noMark {cs : List Char} :
    EndsWord noMark cs ↔ ∀ c, cs.head? = some c → isBlank c = true := by
  simp [EndsWord, isInner_noMark]

section runs

variable {text : String} {offset : Nat} {cs : List Char} {ts : List Token}

/-- Behind a seam, tokens are maximal runs of the whole text. -/
theorem Cut.maximalRun (h : Cut noMark offset cs ts) :
    ∀ before : List Char, text.toList = before ++ cs → byteLength before = offset →
      Seam noMark before cs → ∀ t ∈ ts, MaximalRun text t := by
  induction h with
  | nil =>
    intro before _ _ _ t ht
    exact absurd ht List.not_mem_nil
  | @blank offset c cs ts hblank _ ih =>
    intro before htext hsize _
    have hc : isInner noMark c = false := by rw [isInner_noMark, hblank]; rfl
    refine ih (before ++ [c]) ?_ ?_ (seam_concat hc before cs)
    · rw [htext, List.append_assoc]
      rfl
    · rw [byteLength_append, hsize, byteLength_cons, byteLength_nil, Nat.add_zero]
  | mark _ hmark _ _ => exact absurd hmark (by simp)
  | @word offset run cs ts hne hrun hmaximal _ ih =>
    intro before htext hsize hseam
    refine List.forall_mem_cons.2 ⟨?_, ?_⟩
    · refine maximalRun_iff.2 ⟨before, run, cs, htext, ?_, hne, ?_, ?_,
        endsWord_noMark.1 hmaximal⟩
      · rw [hsize]
      · intro c hc
        exact (isInner_iff.1 (hrun c hc)).1
      · -- the run begins a word, so the seam is one for what stands before it
        rcases hseam with hbefore | hend
        · intro c hc
          simpa [isInner_noMark] using hbefore c hc
        · obtain ⟨d, run', rfl⟩ := List.exists_cons_of_ne_nil hne
          have hd := hend d rfl
          rw [hrun d List.mem_cons_self] at hd
          exact absurd hd (by simp)
    · refine ih (before ++ run) ?_ ?_ (.inr hmaximal)
      · rw [htext, List.append_assoc]
      · rw [byteLength_append, hsize]

/-- Every maximal run is among the tokens. -/
theorem mem_scan_of_maximalRun {t : Token} (h : MaximalRun text t) :
    t ∈ scan noMark text := by
  obtain ⟨before, run, after, htext, rfl, hne, hrun, hbefore, hafter⟩ :=
    maximalRun_iff.1 h
  have hinner : ∀ c ∈ run, isInner noMark c = true := by
    intro c hc
    rw [isInner_noMark, hrun c hc]
    rfl
  have hseam : Seam noMark before (run ++ after) := by
    refine .inl fun c hc => ?_
    rw [isInner_noMark, hbefore c hc]
    rfl
  -- the run between the tokens of what stands before it and of what follows
  have hhead : Cut noMark 0 before _ := (cut_scanFrom before).1 0
  have hrest : Cut noMark (0 + byteLength before + byteLength run) after _ :=
    (cut_scanFrom after).1 _
  have hcut := hhead.append hseam (.word hne hinner (endsWord_noMark.2 hafter) hrest)
  rw [← htext] at hcut
  rw [scan_eq_iff.2 hcut, Nat.zero_add]
  exact List.mem_append_right _ List.mem_cons_self

/-- No token begins where a word ends. -/
theorem Cut.offset_lt (h : Cut noMark offset cs ts) (hend : EndsWord noMark cs) :
    ∀ t ∈ ts, offset < t.offset := by
  cases h with
  | nil => simp
  | @blank _ c _ _ _ hrest =>
    intro t ht
    have hle := hrest.offset_le t ht
    have hpos := Char.utf8Size_pos c
    omega
  | mark _ hmark _ => exact absurd hmark (by simp)
  | @word _ run _ _ hne hrun _ _ =>
    obtain ⟨c, run', rfl⟩ := List.exists_cons_of_ne_nil hne
    have hc := hend c rfl
    rw [hrun c List.mem_cons_self] at hc
    exact absurd hc (by simp)

/-- Each token ends before the next one begins. -/
theorem Cut.apart (h : Cut noMark offset cs ts) :
    ts.Pairwise fun t u => t.stop < u.offset := by
  induction h with
  | nil => exact .nil
  | blank _ _ ih => exact ih
  | mark _ hmark _ _ => exact absurd hmark (by simp)
  | @word offset run cs ts _ _ hmaximal hrest ih =>
    refine .cons ?_ ih
    rw [stop_ofList]
    exact hrest.offset_lt hmaximal

/-- A character is blank or in one of the tokens. -/
theorem Cut.covers (h : Cut noMark offset cs ts) :
    ∀ (before after : List Char) (c : Char), cs = before ++ c :: after →
      isBlank c = true ∨ ∃ t ∈ ts, t.offset ≤ offset + byteLength before
        ∧ offset + byteLength before + c.utf8Size ≤ t.stop := by
  induction h with
  | nil =>
    intro before after c hcs
    exact absurd hcs (by simp)
  | @blank offset d cs ts hblank _ ih =>
    intro before after c hcs
    cases before with
    | nil =>
      injection hcs with hdc
      exact .inl (hdc ▸ hblank)
    | cons b before =>
      injection hcs with hdb hcs
      have hcover := ih before after c hcs
      rwa [hdb, Nat.add_assoc offset, ← byteLength_cons] at hcover
  | mark _ hmark _ _ => exact absurd hmark (by simp)
  | @word offset run cs ts _ _ _ _ ih =>
    intro before after c hcs
    have behind : ∀ rest, before = run ++ rest → cs = rest ++ c :: after →
        isBlank c = true ∨ ∃ t ∈ ⟨String.ofList run, offset⟩ :: ts,
          t.offset ≤ offset + byteLength before
            ∧ offset + byteLength before + c.utf8Size ≤ t.stop := by
      intro rest hbefore hrest
      have hcover := ih rest after c hrest
      rw [Nat.add_assoc offset, ← byteLength_append, ← hbefore] at hcover
      refine hcover.imp_right ?_
      rintro ⟨t, ht, hin⟩
      exact ⟨t, List.mem_cons_of_mem _ ht, hin⟩
    rcases List.append_eq_append_iff.1 hcs with ⟨rest, hbefore, hrest⟩ | ⟨rest, hrun, hrest⟩
    · exact behind rest hbefore hrest
    · cases rest with
      | nil => exact behind [] (by rw [hrun]; simp) hrest.symm
      | cons d rest =>
        -- the character is one of the run
        injection hrest with hcd
        refine .inr ⟨_, List.mem_cons_self, Nat.le_add_right .., ?_⟩
        rw [stop_ofList, hrun, byteLength_append, byteLength_cons, hcd]
        omega

/-! ## §4. The tokens of a text. -/

/-- What the scanner finds are the maximal runs of the text. -/
theorem areRuns_scan (text : String) : AreRuns text (scan noMark text) := by
  have hcut : Cut noMark 0 text.toList (scan noMark text) := scan_eq_iff.1 rfl
  refine ⟨fun t => ⟨?_, mem_scan_of_maximalRun⟩, hcut.apart, ?_⟩
  · exact hcut.maximalRun [] rfl rfl (seam_nil _) t
  · rintro offset c ⟨before, after, htext, rfl⟩
    have hchars : text.toList = before.toList ++ c :: after.toList := by
      rw [htext, String.toList_append, String.toList_append, String.toList_singleton,
        List.append_assoc]
      rfl
    have hcover := hcut.covers _ _ _ hchars
    rwa [Nat.zero_add, byteLength_toList] at hcover

/-- A text has one list of maximal runs. -/
theorem AreRuns.unique {us : List Token} (hts : AreRuns text ts) (hus : AreRuns text us) :
    ts = us := by
  have hstop : ∀ t : Token, t.offset ≤ t.stop := fun t => Nat.le_add_right ..
  have hirrefl : Std.Irrefl fun t u : Token => t.stop < u.offset := by
    refine ⟨fun t h => ?_⟩
    have ht := hstop t
    omega
  have hantisymm : Std.Antisymm fun t u : Token => t.stop < u.offset := by
    refine ⟨fun t u h h' => ?_⟩
    have ht := hstop t
    have hu := hstop u
    omega
  -- lists in one strict order that have the same members are the same
  refine hts.apart.eq_of_mem_iff hus.apart fun t => ?_
  rw [hts.mem_iff, hus.mem_iff]

end runs

end Trivariate.Text
