/-
  Trivariate.Proofs.Text.Cut
  ──────────────────────────
  **HOW A TEXT IS CUT INTO TOKENS.**

  The rule that the scanner follows, without its pending run: blanks are
  passed over, a mark is a token of its own, and a word is a run of other
  characters that nothing extends.  Every token carries the byte offset of
  its first character.

  Main results:

      cut_scanFrom      what the scanner finds is a cut of the text
      Cut.scanFrom_eq   and a text has no other cut
      scan_eq_iff       hence the scanner's tokens are the cut of the text
      Worded.word       how the words of a text are put together
-/
import Trivariate.Text.Token

namespace Trivariate.Text

/-! ## §1. Cuts. -/

/-- A character of a word. -/
def isInner (isMark : Char → Bool) (c : Char) : Bool :=
  !isBlank c && !isMark c

/-- The characters begin no word: what stands before them ends here. -/
def EndsWord (isMark : Char → Bool) (cs : List Char) : Prop :=
  ∀ c, cs.head? = some c → isInner isMark c = false

/-- The characters, the first of which stands at the byte offset, are cut into
these tokens. -/
inductive Cut (isMark : Char → Bool) : Nat → List Char → List Token → Prop where
  | nil {offset : Nat} : Cut isMark offset [] []
  | blank {offset : Nat} {c : Char} {cs : List Char} {ts : List Token}
      (blank : isBlank c = true) (rest : Cut isMark (offset + c.utf8Size) cs ts) :
      Cut isMark offset (c :: cs) ts
  | mark {offset : Nat} {c : Char} {cs : List Char} {ts : List Token}
      (notBlank : isBlank c = false) (mark : isMark c = true)
      (rest : Cut isMark (offset + c.utf8Size) cs ts) :
      Cut isMark offset (c :: cs) (⟨String.singleton c, offset⟩ :: ts)
  | word {offset : Nat} {run cs : List Char} {ts : List Token}
      (nonempty : run ≠ []) (inner : ∀ c ∈ run, isInner isMark c = true)
      (maximal : EndsWord isMark cs)
      (rest : Cut isMark (offset + byteLength run) cs ts) :
      Cut isMark offset (run ++ cs) (⟨String.ofList run, offset⟩ :: ts)

variable {isMark : Char → Bool}

theorem isInner_iff {c : Char} :
    isInner isMark c = true ↔ isBlank c = false ∧ isMark c = false := by
  simp [isInner]

theorem endsWord_nil : EndsWord isMark [] := by
  intro c hc
  exact absurd hc (by simp)

theorem endsWord_cons {c : Char} {cs : List Char} (h : isInner isMark c = false) :
    EndsWord isMark (c :: cs) := by
  intro d hd
  rw [List.head?_cons] at hd
  injection hd with hd
  rw [← hd]
  exact h

/-! ## §2. The scanner cuts. -/

theorem byteLength_reverse (cs : List Char) :
    byteLength cs.reverse = byteLength cs := by
  induction cs with
  | nil => rfl
  | cons c cs ih =>
    rw [List.reverse_cons, byteLength_append, ih, byteLength_cons, byteLength_cons,
      byteLength_nil]
    omega

/-- With nothing pending the scanner cuts what follows; with a run pending it
cuts that run and what follows. -/
theorem cut_scanFrom (cs : List Char) :
    (∀ offset, Cut isMark offset cs (scanFrom isMark offset none cs))
      ∧ ∀ start run, run ≠ [] → (∀ c ∈ run, isInner isMark c = true) →
          Cut isMark start (run.reverse ++ cs)
            (scanFrom isMark (start + byteLength run) (some (start, run)) cs) := by
  induction cs with
  | nil =>
    refine ⟨fun offset => .nil, ?_⟩
    -- a run that is pending at the end is the last word
    intro start run hne hrun
    exact .word (by simpa using hne) (by simpa using hrun) endsWord_nil .nil
  | cons c cs ih =>
    obtain ⟨ihNone, ihRun⟩ := ih
    have hnone : ∀ offset, Cut isMark offset (c :: cs)
        (scanFrom isMark offset none (c :: cs)) := by
      intro offset
      unfold scanFrom
      by_cases hb : isBlank c = true
      · rw [if_pos hb]
        exact .blank hb (ihNone _)
      · rw [if_neg hb]
        by_cases hm : isMark c = true
        · rw [if_pos hm]
          exact .mark (by simpa using hb) hm (ihNone _)
        · -- a word begins
          rw [if_neg hm]
          have hc : isInner isMark c = true := isInner_iff.2 (by simp_all)
          have h := ihRun offset [c] (by simp) (by simpa using hc)
          rw [byteLength_cons, byteLength_nil, Nat.add_zero] at h
          exact h
    refine ⟨hnone, ?_⟩
    intro start run hne hrun
    by_cases hc : isInner isMark c = true
    · -- the pending run grows
      obtain ⟨hb, hm⟩ := isInner_iff.1 hc
      have h := ihRun start (c :: run) (by simp) (List.forall_mem_cons.2 ⟨hc, hrun⟩)
      rw [List.reverse_cons, List.append_assoc, byteLength_cons] at h
      unfold scanFrom
      rw [if_neg (by simp [hb]), if_neg (by simp [hm]),
        show start + byteLength run + c.utf8Size
          = start + (c.utf8Size + byteLength run) by omega]
      exact h
    · -- the pending run is a word, and the rest is scanned afresh
      have hscan : scanFrom isMark (start + byteLength run) (some (start, run)) (c :: cs)
          = ⟨String.ofList run.reverse, start⟩
            :: scanFrom isMark (start + byteLength run) none (c :: cs) := by
        simp only [isInner, Bool.and_eq_true, Bool.not_eq_true'] at hc
        unfold scanFrom
        by_cases hb : isBlank c = true
        · rw [if_pos hb, if_pos hb]
          rfl
        · rw [if_neg hb, if_neg hb]
          have hm : isMark c = true := by simp_all
          rw [if_pos hm, if_pos hm]
          rfl
      rw [hscan]
      refine .word (by simpa using hne) (by simpa using hrun)
        (endsWord_cons (by simpa using hc)) ?_
      rw [byteLength_reverse]
      exact hnone _

/-! ## §3. A text has one cut. -/

/-- A run of inner characters is read into the pending run. -/
theorem scanFrom_pending (run : List Char) (cs : List Char) :
    ∀ offset start pending, (∀ c ∈ run, isInner isMark c = true) →
      scanFrom isMark offset (some (start, pending)) (run ++ cs)
        = scanFrom isMark (offset + byteLength run)
            (some (start, run.reverse ++ pending)) cs := by
  induction run with
  | nil =>
    intro offset start pending _
    rfl
  | cons c run ih =>
    intro offset start pending hrun
    obtain ⟨hc, hrest⟩ := List.forall_mem_cons.1 hrun
    obtain ⟨hb, hm⟩ := isInner_iff.1 hc
    have h := ih (offset + c.utf8Size) start (c :: pending) hrest
    rw [List.cons_append, scanFrom, if_neg (by simp [hb]), if_neg (by simp [hm])]
    show scanFrom isMark _ (some (start, c :: pending)) _ = _
    rw [h, byteLength_cons, List.reverse_cons, List.append_assoc,
      show offset + c.utf8Size + byteLength run
        = offset + (c.utf8Size + byteLength run) by omega]
    rfl

/-- A pending run that nothing extends is a token, and what follows is scanned
afresh. -/
theorem scanFrom_endsWord {cs : List Char} (hcs : EndsWord isMark cs)
    (offset start : Nat) (pending : List Char) :
    scanFrom isMark offset (some (start, pending)) cs
      = ⟨String.ofList pending.reverse, start⟩
        :: scanFrom isMark offset none cs := by
  cases cs with
  | nil => rfl
  | cons c cs =>
    have hc : isInner isMark c = false := hcs c rfl
    unfold scanFrom
    by_cases hb : isBlank c = true
    · rw [if_pos hb, if_pos hb]
      rfl
    · rw [if_neg hb, if_neg hb]
      have hm : isMark c = true := by
        simp only [isInner, Bool.and_eq_false_iff, Bool.not_eq_false'] at hc
        exact hc.resolve_left hb
      rw [if_pos hm, if_pos hm]
      rfl

/-- The tokens of a cut are those that the scanner finds. -/
theorem Cut.scanFrom_eq {offset : Nat} {cs : List Char} {ts : List Token}
    (h : Cut isMark offset cs ts) : scanFrom isMark offset none cs = ts := by
  induction h with
  | nil => rfl
  | blank hb _ ih =>
    rw [scanFrom, if_pos hb, ih]
    rfl
  | mark hb hm _ ih =>
    rw [scanFrom, if_neg (by simp [hb]), if_pos hm, ih]
    rfl
  | @word offset run cs ts hne hrun hcs _ ih =>
    cases run with
    | nil => exact absurd rfl hne
    | cons c run =>
      obtain ⟨hc, hrest⟩ := List.forall_mem_cons.1 hrun
      obtain ⟨hb, hm⟩ := isInner_iff.1 hc
      rw [List.cons_append, scanFrom, if_neg (by simp [hb]), if_neg (by simp [hm])]
      show scanFrom isMark _ (some (offset, [c])) _ = _
      -- the run is read up to what does not extend it, and the rest afresh
      rw [scanFrom_pending run cs _ _ _ hrest, scanFrom_endsWord hcs]
      rw [byteLength_cons, ← Nat.add_assoc] at ih
      rw [ih, List.reverse_append, List.reverse_reverse]
      rfl

/-- The scanner finds the tokens of a text's cut. -/
theorem scan_eq_iff {text : String} {ts : List Token} :
    scan isMark text = ts ↔ Cut isMark 0 text.toList ts := by
  constructor
  · rintro rfl
    exact (cut_scanFrom text.toList).1 0
  · intro h
    exact h.scanFrom_eq

/-- What is said of the cut of a text is said of the tokens that the scanner
finds. -/
theorem exists_cut_iff {text : String} {P : List Token → Prop} :
    (∃ ts, Cut isMark 0 text.toList ts ∧ P ts) ↔ P (scan isMark text) := by
  constructor
  · rintro ⟨ts, hcut, h⟩
    rw [scan_eq_iff.2 hcut]
    exact h
  · intro h
    exact ⟨scan isMark text, scan_eq_iff.1 rfl, h⟩

/-! ## §4. The words of characters, wherever they stand. -/

/-- The characters hold these words, at whatever offset they begin. -/
def Worded (isMark : Char → Bool) (cs : List Char) (ws : List String) : Prop :=
  ∀ offset, ∃ ts, Cut isMark offset cs ts ∧ ts.map Token.text = ws

theorem worded_nil : Worded isMark [] [] :=
  fun _ => ⟨[], .nil, rfl⟩

theorem Worded.blank {c : Char} {cs : List Char} {ws : List String}
    (hc : isBlank c = true) (h : Worded isMark cs ws) :
    Worded isMark (c :: cs) ws := by
  intro offset
  obtain ⟨ts, hcut, hws⟩ := h (offset + c.utf8Size)
  exact ⟨ts, .blank hc hcut, hws⟩

theorem Worded.mark {c : Char} {cs : List Char} {ws : List String}
    (hb : isBlank c = false) (hc : isMark c = true) (h : Worded isMark cs ws) :
    Worded isMark (c :: cs) (String.singleton c :: ws) := by
  intro offset
  obtain ⟨ts, hcut, hws⟩ := h (offset + c.utf8Size)
  refine ⟨_, .mark hb hc hcut, ?_⟩
  rw [List.map_cons, hws]

theorem Worded.word {w : String} {cs : List Char} {ws : List String}
    (hne : w.toList ≠ []) (hw : ∀ c ∈ w.toList, isInner isMark c = true)
    (hcs : EndsWord isMark cs) (h : Worded isMark cs ws) :
    Worded isMark (w.toList ++ cs) (w :: ws) := by
  intro offset
  obtain ⟨ts, hcut, hws⟩ := h (offset + byteLength w.toList)
  refine ⟨_, .word hne hw hcs hcut, ?_⟩
  rw [List.map_cons, hws, String.ofList_toList]

theorem Worded.scan {text : String} {ws : List String}
    (h : Worded isMark text.toList ws) :
    (scan isMark text).map Token.text = ws := by
  obtain ⟨ts, hcut, hws⟩ := h 0
  rw [scan_eq_iff.2 hcut, hws]

/-! ## §5. Characters whose words do not depend on what follows. -/

/-- The characters hold these words, before anything that does not extend the
last one. -/
def Holds (isMark : Char → Bool) (cs : List Char) (ws : List String) : Prop :=
  ∀ rest us, EndsWord isMark rest → Worded isMark rest us →
    Worded isMark (cs ++ rest) (ws ++ us)

theorem holds_word {w : String} (hne : w.toList ≠ [])
    (hw : ∀ c ∈ w.toList, isInner isMark c = true) :
    Holds isMark w.toList [w] := by
  intro rest us hend hrest
  exact hrest.word hne hw hend

theorem isBlank_space : isBlank ' ' = true := by decide

theorem endsWord_blank {c : Char} {cs : List Char} (hc : isBlank c = true) :
    EndsWord isMark (c :: cs) :=
  endsWord_cons (by simp [isInner, hc])

theorem endsWord_mark {c : Char} {cs : List Char} (hc : isMark c = true) :
    EndsWord isMark (c :: cs) :=
  endsWord_cons (by simp [isInner, hc])

section each

variable {α : Type} {text : α → List Char} {words : α → List String} {es : List α}

/-- Parts with a blank behind each of them hold their words. -/
theorem worded_blankBehind (h : ∀ e ∈ es, Holds isMark (text e) (words e))
    {rest : List Char} {us : List String} (hrest : Worded isMark rest us) :
    Worded isMark (es.flatMap (fun e => text e ++ [' ']) ++ rest)
      (es.flatMap words ++ us) := by
  induction es with
  | nil => exact hrest
  | cons e es ih =>
    obtain ⟨hhead, htail⟩ := List.forall_mem_cons.1 h
    have hes := ih htail
    have he := hhead _ _ (endsWord_blank isBlank_space) (hes.blank isBlank_space)
    simpa only [List.flatMap_cons, List.append_assoc, List.cons_append,
      List.nil_append] using he

/-- Parts with a blank before each of them hold their words, and extend no word
that stands before them. -/
theorem worded_blankBefore (h : ∀ e ∈ es, Holds isMark (text e) (words e))
    {rest : List Char} {us : List String} (hend : EndsWord isMark rest)
    (hrest : Worded isMark rest us) :
    EndsWord isMark (es.flatMap (fun e => ' ' :: text e) ++ rest)
      ∧ Worded isMark (es.flatMap (fun e => ' ' :: text e) ++ rest)
          (es.flatMap words ++ us) := by
  induction es with
  | nil => exact ⟨hend, hrest⟩
  | cons e es ih =>
    obtain ⟨hhead, htail⟩ := List.forall_mem_cons.1 h
    -- what follows a part is the blank of the next one, or the rest
    obtain ⟨hend', hes⟩ := ih htail
    have he := (hhead _ _ hend' hes).blank isBlank_space
    refine ⟨endsWord_blank isBlank_space, ?_⟩
    simpa only [List.flatMap_cons, List.append_assoc, List.cons_append,
      List.nil_append] using he

end each

end Trivariate.Text
