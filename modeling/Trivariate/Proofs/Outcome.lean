/-
  Trivariate.Proofs.Outcome
  ─────────────────────────
  **COMPUTATIONS THAT CAN FAIL.**

  A computation has a result or a fault.  One that is made of others has a
  result when its parts have theirs, and so a result is traced back to the
  parts that it is made from.

  Main results:

      bind_eq_ok   the result of a computation behind another one
      mapM_eq_ok   the results of a computation on each member of a list
-/
import Mathlib.Data.List.Forall2
import Mathlib.Data.Set.Subsingleton

namespace Trivariate

variable {ε ε' α β : Type} {x : Except ε α}

theorem bind_eq_ok {f : α → Except ε β} {b : β} :
    x >>= f = .ok b ↔ ∃ a, x = .ok a ∧ f a = .ok b := by
  cases x with
  | error fault => simp [bind, Except.bind]
  | ok a => simp [bind, Except.bind]

theorem map_eq_ok {f : α → β} {b : β} :
    x.map f = .ok b ↔ ∃ a, x = .ok a ∧ f a = b := by
  cases x with
  | error fault => simp [Except.map]
  | ok a => simp [Except.map]

theorem map_eq_error {f : α → β} {fault : ε} :
    x.map f = .error fault ↔ x = .error fault := by
  cases x with
  | error fault' => simp [Except.map]
  | ok a => simp [Except.map]

theorem mapError_eq_ok {g : ε → ε'} {a : α} : x.mapError g = .ok a ↔ x = .ok a := by
  cases x with
  | error fault => simp [Except.mapError]
  | ok b => simp [Except.mapError]

/-- Every member has its result, and these are the results in their order. -/
theorem mapM_eq_ok {f : α → Except ε β} {as : List α} {bs : List β} :
    as.mapM f = .ok bs ↔ List.Forall₂ (fun a b => f a = .ok b) as bs := by
  induction as generalizing bs with
  | nil =>
    rw [List.mapM_nil, List.forall₂_nil_left_iff]
    show Except.ok [] = .ok bs ↔ _
    rw [Except.ok.injEq, eq_comm]
  | cons a as ih =>
    rw [List.mapM_cons, bind_eq_ok, List.forall₂_cons_left_iff]
    refine exists_congr fun b => ?_
    rw [bind_eq_ok]
    constructor
    · rintro ⟨ha, bs', hbs', hbs⟩
      exact ⟨bs', ha, ih.1 hbs', (Except.ok.inj hbs).symm⟩
    · rintro ⟨bs', ha, hbs', rfl⟩
      exact ⟨ha, bs', ih.2 hbs', rfl⟩

/-- Each of the results is that of some member. -/
theorem exists_of_mem_mapM {f : α → Except ε β} {as : List α} {bs : List β}
    (h : as.mapM f = .ok bs) {b : β} (hb : b ∈ bs) : ∃ a ∈ as, f a = .ok b := by
  have hall := mapM_eq_ok.1 h
  clear h
  induction hall with
  | nil => exact absurd hb List.not_mem_nil
  | @cons a _ as _ ha _ ih =>
    rcases List.mem_cons.1 hb with rfl | hb
    · exact ⟨a, List.mem_cons_self, ha⟩
    · obtain ⟨a', ha', hb'⟩ := ih hb
      exact ⟨a', List.mem_cons_of_mem a ha', hb'⟩

/-- What is the result in just one case holds in at most one. -/
theorem subsingleton_of_ok_iff {P : α → Prop} (h : ∀ a, x = .ok a ↔ P a) :
    {a | P a}.Subsingleton := by
  intro a ha b hb
  have hab := ((h a).2 ha).symm.trans ((h b).2 hb)
  injection hab

end Trivariate
