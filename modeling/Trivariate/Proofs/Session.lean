/-
  Trivariate.Proofs.Session
  ─────────────────────────
  **WHAT A SESSION KEEPS.**

  A step puts into its slot the tree that it answers, and leaves the slot empty
  when it answers anything else; the slots before it stay as they are.  So the
  slots of a session are read off its answers, and each answer is determined by
  the answers before it: of those, by the ones whose slots the step names.

  Some steps take an operation and its operands on trust.  When the counts fit
  in these, every tree of a session is built from the constants and texts that
  its steps give.  One step keeps this, and so does the session.

  Main results:

      Step.run_kept       a step keeps the tree that it answers
      Step.run_congr      a step looks at the slots it names, and at no other
      answers_split       each answer, from the answers before it
      Step.run_append     what a step finds does not change in later slots
      Step.built          a step keeps that all trees are built
      built_of_answers    and so does a session
-/
import Trivariate.Proofs.Expr.Built
import Trivariate.Proofs.Parse.Offender
import Trivariate.Session

namespace Trivariate.Session

open Trivariate.Expr (Built)

/-! ## §1. One step. -/

/-- The tree that is answered; other answers have none. -/
def Answer.tree? : Answer → Option Expr
  | .built e => some e
  | _ => none

/-- No question is answered with a tree. -/
theorem Query.tree?_answer {slots : Slots} {query : Query} {a : Answer}
    (h : query.answer slots = .ok a) : a.tree? = none := by
  cases query with
  | value slot p | values slot points | text slot n | shape slot =>
    obtain ⟨e, -, rfl⟩ := map_eq_ok.1 h
    rfl
  | equal left right =>
    obtain ⟨e, -, h⟩ := bind_eq_ok.1 h
    obtain ⟨d, -, h⟩ := bind_eq_ok.1 h
    injection h with h
    subst h
    rfl

/-- What a step puts into its slot is the tree that it answers. -/
theorem Step.run_kept (slots : Slots) (step : Step) :
    (step.run slots).1 = (step.run slots).2.tree? := by
  cases step with
  | build recipe =>
    cases h : recipe.build slots with
    | error fault => simp only [run, h, Answer.tree?]
    | ok e => simp only [run, h, Answer.tree?]
  | ask query =>
    cases h : query.answer slots with
    | error fault => simp only [run, h, Answer.tree?]
    | ok a => simp only [run, h, Query.tree?_answer h]

/-! ## §2. The slots that are looked at. -/

/-- The slots that a recipe names. -/
def Recipe.slots : Recipe → List Nat
  | .const _ => []
  | .var _ => []
  | .checked _ args => args
  | .unchecked _ args => args
  | .node _ args => args
  | .parse _ _ => []
  | .reparse slot _ => [slot]
  | .diff slot _ => [slot]
  | .operand slot _ => [slot]

/-- The slots that a question names. -/
def Query.slots : Query → List Nat
  | .value slot _ => [slot]
  | .values slot _ => [slot]
  | .text slot _ => [slot]
  | .shape slot => [slot]
  | .equal left right => [left, right]

def Step.slots : Step → List Nat
  | .build recipe => recipe.slots
  | .ask query => query.slots

section congr

variable {s s' : Slots}

theorem Slots.getEach_congr {is : List Nat} (h : ∀ i ∈ is, s.get i = s'.get i) :
    s.getEach is = s'.getEach is := by
  unfold getEach
  induction is with
  | nil => rfl
  | cons i is ih =>
    obtain ⟨hi, his⟩ := List.forall_mem_cons.1 h
    rw [List.mapM_cons, List.mapM_cons, hi, ih his]

theorem Recipe.build_congr {recipe : Recipe} (h : ∀ i ∈ recipe.slots, s.get i = s'.get i) :
    recipe.build s = recipe.build s' := by
  have hargs : s.getEach recipe.slots = s'.getEach recipe.slots := Slots.getEach_congr h
  cases recipe with
  | const value | var name | parse n text => rfl
  | checked token args | unchecked token args | node op args =>
    simp only [slots] at hargs
    simp only [build, hargs]
  | reparse slot n | diff slot name | operand slot index =>
    simp only [build, List.forall_mem_singleton.1 h]

theorem Query.answer_congr {query : Query} (h : ∀ i ∈ query.slots, s.get i = s'.get i) :
    query.answer s = query.answer s' := by
  cases query with
  | equal left right =>
    obtain ⟨hleft, hright⟩ := List.forall_mem_cons.1 h
    simp only [answer, hleft, List.forall_mem_singleton.1 hright]
  | _ => simp only [answer, List.forall_mem_singleton.1 h]

/-- A step looks at no slot but those that it names. -/
theorem Step.run_congr {step : Step} (h : ∀ i ∈ step.slots, s.get i = s'.get i) :
    step.run s = step.run s' := by
  cases step with
  | build recipe => simp only [run, Recipe.build_congr h]
  | ask query => simp only [run, Query.answer_congr h]

end congr

/-! ## §3. Runs. -/

/-- The slots that these answers leave behind. -/
def slotsOf (as : List Answer) : Slots := (as.map Answer.tree?).toArray

theorem slotsOf_append (as bs : List Answer) :
    slotsOf (as ++ bs) = slotsOf as ++ slotsOf bs := by
  simp [slotsOf]

/-- A slot that is filled keeps what it holds, whatever slots are added. -/
theorem get_slotsOf_append {as : List Answer} {i : Nat} (h : i < as.length)
    (bs : List Answer) : (slotsOf (as ++ bs)).get i = (slotsOf as).get i := by
  have hslot : (slotsOf (as ++ bs))[i]? = (slotsOf as)[i]? := by
    rw [slotsOf_append]
    exact Array.getElem?_append_left (by simpa [slotsOf] using h)
  unfold Slots.get
  rw [hslot]

theorem answersFrom_cons (s : Slots) (step : Step) (steps : List Step) :
    answersFrom s (step :: steps)
      = (step.run s).2 :: answersFrom (s.push (step.run s).1) steps := rfl

/-- A session goes on from the slots that its answers leave behind. -/
theorem answersFrom_append (s : Slots) (steps more : List Step) :
    answersFrom s (steps ++ more)
      = answersFrom s steps ++ answersFrom (s ++ slotsOf (answersFrom s steps)) more := by
  induction steps generalizing s with
  | nil => simp [answersFrom, slotsOf]
  | cons step steps ih =>
    have hslots : ∀ as, s.push (step.run s).1 ++ slotsOf as
        = s ++ slotsOf ((step.run s).2 :: as) := by
      intro as
      rw [Step.run_kept]
      simp [slotsOf]
    rw [List.cons_append, answersFrom_cons, answersFrom_cons, ih, hslots, List.cons_append]

/-- In a session a step answers what it answers on the slots that the answers
before it leave behind. -/
theorem answers_split (before after : List Step) (step : Step) :
    let as := answers before
    let a := (step.run (slotsOf as)).2
    answers (before ++ step :: after)
      = as ++ a :: answersFrom (slotsOf (as ++ [a])) after := by
  intro as a
  have hslots : (slotsOf as).push (step.run (slotsOf as)).1 = slotsOf (as ++ [a]) := by
    rw [Step.run_kept, slotsOf_append]
    simp [slotsOf, a]
  have hrest : answers (before ++ step :: after)
      = as ++ answersFrom (slotsOf as) (step :: after) := by
    rw [answers, answersFrom_append, Array.empty_append]
    rfl
  rw [hrest, answersFrom_cons, hslots]

/-- What a step finds in slots that were there when it was run does not change
when more steps are run. -/
theorem Step.run_append {step : Step} {as : List Answer}
    (h : ∀ i ∈ step.slots, i < as.length) (bs : List Answer) :
    step.run (slotsOf (as ++ bs)) = step.run (slotsOf as) :=
  Step.run_congr fun i hi => get_slotsOf_append (h i hi) bs

/-! ## §4. What is built. -/

/-- The constants and the texts that the steps give. -/
def sourcesOf (steps : List Step) : Sources where
  constants := {value | .build (.const value) ∈ steps}
  texts := {t | .build (.parse t.1 t.2) ∈ steps}

/-- Operands that are taken on trust are as many as their operation takes. -/
def Recipe.Fits : Recipe → Prop
  | .unchecked token args =>
      ∀ op, Op.ofToken? token = some op → op.arity.accepts args.length = true
  | .node op args => op.arity.accepts args.length = true
  | _ => True

def Step.Fits : Step → Prop
  | .build recipe => recipe.Fits
  | .ask _ => True

/-- What a recipe gives is among the sources. -/
def Recipe.Given (S : Sources) : Recipe → Prop
  | .const value => value ∈ S.constants
  | .parse n text => (n, text) ∈ S.texts
  | _ => True

def Step.Given (S : Sources) : Step → Prop
  | .build recipe => recipe.Given S
  | .ask _ => True

section built

variable {S : Sources} {s : Slots} {e : Expr}

/-- Every tree in the slots is built from the sources. -/
def AllBuilt (S : Sources) (s : Slots) : Prop :=
  ∀ i e, s.get i = .ok e → e.Built S

theorem get_eq_ok {i : Nat} : s.get i = .ok e ↔ s[i]? = some (some e) := by
  unfold Slots.get
  split <;> simp_all

theorem AllBuilt.getEach (hs : AllBuilt S s) {is : List Nat} {es : List Expr}
    (h : s.getEach is = .ok es) : ∀ e ∈ es, e.Built S := by
  intro e he
  obtain ⟨i, -, hi⟩ := exists_of_mem_mapM h he
  exact hs i e hi

theorem readOp_eq_ok {token : String} {op : Op} :
    readOp token = .ok op ↔ Op.ofToken? token = some op := by
  unfold readOp
  cases Op.ofToken? token with
  | none => simp
  | some op' => simp

/-- An operation around trees that are built, when the count fits. -/
theorem built_node {op : Op} {args : List Nat} {operands : List Expr} (hs : AllBuilt S s)
    (hcount : op.arity.accepts args.length = true) (h : s.getEach args = .ok operands) :
    (Expr.node op operands).Built S := by
  have hlength := (mapM_eq_ok.1 h).length_eq
  rw [hlength] at hcount
  exact .operation (hs.getEach h) (Expr.build?_eq_ok.2 ⟨hcount, rfl⟩)

/-- What a recipe builds from trees that are built is built. -/
theorem Recipe.built {recipe : Recipe} (hs : AllBuilt S s) (hfits : recipe.Fits)
    (hgiven : recipe.Given S) (h : recipe.build s = .ok e) : e.Built S := by
  cases recipe with
  | const value =>
    injection h with h
    rw [← h]
    exact .const hgiven
  | var name =>
    obtain ⟨v, -, rfl⟩ := map_eq_ok.1 h
    exact .var v
  | checked token args =>
    obtain ⟨op, -, h⟩ := bind_eq_ok.1 h
    obtain ⟨operands, hargs, h⟩ := bind_eq_ok.1 h
    exact .operation (hs.getEach hargs) (mapError_eq_ok.1 h)
  | unchecked token args =>
    obtain ⟨op, hop, h⟩ := bind_eq_ok.1 h
    obtain ⟨operands, hargs, h⟩ := bind_eq_ok.1 h
    injection h with h
    rw [← h]
    exact built_node hs (hfits op (readOp_eq_ok.1 hop)) hargs
  | node op args =>
    obtain ⟨operands, hargs, rfl⟩ := map_eq_ok.1 h
    exact built_node hs hfits hargs
  | parse n text => exact .read hgiven (mapError_eq_ok.1 h)
  | reparse slot n =>
    obtain ⟨d, hd, h⟩ := bind_eq_ok.1 h
    have hbuilt := hs slot d hd
    have hcount : d.WellFormed := Expr.wellFormed_of_demand hbuilt.sound
    have hsame := Parse.eq_of_parse_render (fun _ => hcount) (mapError_eq_ok.1 h)
    rwa [hsame]
  | diff slot name =>
    obtain ⟨d, hd, h⟩ := bind_eq_ok.1 h
    obtain ⟨v, -, h⟩ := bind_eq_ok.1 h
    injection h with h
    rw [← h]
    exact .diff v (hs slot d hd)
  | operand slot index =>
    obtain ⟨d, hd, h⟩ := bind_eq_ok.1 h
    split at h
    next part hpart =>
      injection h with h
      rw [← h]
      exact .operand (hs slot d hd) (List.mem_of_getElem? hpart)
    next => exact absurd h (by simp)

/-- What a step puts into its slot is built, when the trees in the slots are. -/
theorem Step.built {step : Step} (hs : AllBuilt S s) (hfits : step.Fits)
    (hgiven : step.Given S) (h : (step.run s).1 = some e) : e.Built S := by
  cases step with
  | build recipe =>
    cases hbuild : recipe.build s with
    | error fault =>
      simp only [run, hbuild] at h
      exact absurd h (by simp)
    | ok d =>
      simp only [run, hbuild] at h
      injection h with h
      rw [← h]
      exact Recipe.built hs hfits hgiven hbuild
  | ask query =>
    cases hanswer : query.answer s with
    | error fault =>
      simp only [run, hanswer] at h
      exact absurd h (by simp)
    | ok a =>
      simp only [run, hanswer] at h
      exact absurd h (by simp)

theorem AllBuilt.push (hs : AllBuilt S s) {kept : Option Expr}
    (hkept : ∀ e, kept = some e → e.Built S) : AllBuilt S (s.push kept) := by
  intro i e h
  rw [get_eq_ok, Array.getElem?_push] at h
  split at h
  next =>
    injection h with h
    exact hkept e h
  next => exact hs i e (get_eq_ok.2 h)

/-- From slots in which every tree is built a session answers no other. -/
theorem built_of_answersFrom {steps : List Step} (hs : AllBuilt S s)
    (hsteps : ∀ step ∈ steps, step.Fits ∧ step.Given S)
    (he : .built e ∈ answersFrom s steps) : e.Built S := by
  induction steps generalizing s with
  | nil => exact absurd he List.not_mem_nil
  | cons step steps ih =>
    obtain ⟨⟨hfits, hgiven⟩, hsteps⟩ := List.forall_mem_cons.1 hsteps
    have hkept : ∀ d, (step.run s).1 = some d → d.Built S :=
      fun _ hd => Step.built hs hfits hgiven hd
    rw [answersFrom_cons] at he
    rcases List.mem_cons.1 he with he | he
    · refine hkept e ?_
      rw [Step.run_kept, ← he]
      rfl
    · exact ih (hs.push hkept) hsteps he

end built

/-- Every tree of a session is built from the constants and the texts that its
steps give, when operands that are taken on trust are as many as they should
be. -/
theorem built_of_answers {steps : List Step} (hfits : ∀ step ∈ steps, step.Fits)
    {e : Expr} (he : .built e ∈ answers steps) : e.Built (sourcesOf steps) := by
  refine built_of_answersFrom ?_ (fun step hstep => ⟨hfits step hstep, ?_⟩) he
  · intro i e h
    rw [get_eq_ok] at h
    exact absurd h (by simp)
  · cases step with
    | ask query => trivial
    | build recipe =>
      cases recipe with
      | const value => exact hstep
      | parse n text => exact hstep
      | _ => trivial

/-- In particular its operations have as many operands as they take. -/
theorem wellFormed_of_answers {steps : List Step} (hfits : ∀ step ∈ steps, step.Fits)
    {e : Expr} (he : .built e ∈ answers steps) : e.WellFormed :=
  Expr.wellFormed_of_demand (built_of_answers hfits he).sound

end Trivariate.Session
