/-
  Trivariate.Proofs.Parse.Run
  ───────────────────────────
  **READING WORD BY WORD.**

  Both readers are a step that may fail, folded over the words of the text.
  What one step keeps, the whole run keeps; and a run that fails does so at
  one word, before which all went well.

  Main results:

      run_keeps       an invariant of the step is one of the run
      run_error_iff   where and why a run fails
-/
import Trivariate.Proofs.Outcome
import Trivariate.Text.Token

namespace Trivariate.Parse

open Trivariate.Text (Token)

variable {σ ε : Type} {step : σ → Token → Except ε σ}

/-! ## §1. Runs that succeed. -/

theorem run_cons_ok {t : Token} {ts : List Token} {s r : σ} :
    (t :: ts).foldlM step s = .ok r
      ↔ ∃ s', step s t = .ok s' ∧ ts.foldlM step s' = .ok r := by
  rw [List.foldlM_cons, bind_eq_ok]

theorem run_append_ok {ts us : List Token} {s r : σ} :
    (ts ++ us).foldlM step s = .ok r
      ↔ ∃ s', ts.foldlM step s = .ok s' ∧ us.foldlM step s' = .ok r := by
  rw [List.foldlM_append, bind_eq_ok]

/-- What relates the words read so far to the state, and is kept by every
step, is kept by a run. -/
theorem run_keeps (Inv : List String → σ → Prop)
    (keeps : ∀ {ws s t s'}, Inv ws s → step s t = .ok s' → Inv (ws ++ [t.text]) s')
    {ts : List Token} {ws : List String} {s r : σ} (hs : Inv ws s)
    (h : ts.foldlM step s = .ok r) : Inv (ws ++ ts.map Token.text) r := by
  induction ts generalizing s ws with
  | nil =>
    rw [List.foldlM_nil] at h
    injection h with h
    rw [← h, List.map_nil, List.append_nil]
    exact hs
  | cons t ts ih =>
    obtain ⟨s', hstep, hrest⟩ := run_cons_ok.1 h
    have hr := ih (keeps hs hstep) hrest
    rw [List.append_assoc] at hr
    exact hr

/-! ## §2. Runs that fail. -/

/-- A run fails when, after some words that are read, a word is not. -/
theorem run_error_iff {ts : List Token} {s : σ} {fault : ε} :
    ts.foldlM step s = .error fault
      ↔ ∃ before t after s', ts = before ++ t :: after
          ∧ before.foldlM step s = .ok s' ∧ step s' t = .error fault := by
  induction ts generalizing s with
  | nil =>
    constructor
    · intro h
      rw [List.foldlM_nil] at h
      exact absurd h (by simp [pure, Except.pure])
    · rintro ⟨before, t, after, s', hts, -, -⟩
      exact absurd hts (by simp)
  | cons u ts ih =>
    rw [List.foldlM_cons]
    constructor
    · intro h
      cases hstep : step s u with
      | error fault' =>
        -- the first word is at fault
        rw [hstep] at h
        injection h with h
        exact ⟨[], u, ts, s, rfl, rfl, h ▸ hstep⟩
      | ok s₁ =>
        rw [hstep] at h
        obtain ⟨before, t, after, s', rfl, hrun, hfault⟩ := ih.1 h
        exact ⟨u :: before, t, after, s', rfl, run_cons_ok.2 ⟨s₁, hstep, hrun⟩, hfault⟩
    · rintro ⟨before, t, after, s', hts, hrun, hfault⟩
      cases before with
      | nil =>
        injection hts with hut _
        rw [List.foldlM_nil] at hrun
        injection hrun with hs
        rw [hs, hut, hfault]
        rfl
      | cons b before =>
        injection hts with hub hts
        obtain ⟨s₁, hstep, hrest⟩ := run_cons_ok.1 hrun
        rw [hub, hstep]
        exact ih.2 ⟨before, t, after, s', hts, hrest, hfault⟩

end Trivariate.Parse
