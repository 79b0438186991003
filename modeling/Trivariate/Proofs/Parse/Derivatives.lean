/-
  Trivariate.Proofs.Parse.Derivatives
  ───────────────────────────────────
  **THE CHAIN OF A TEXT'S DERIVATIVES.**

  A chain is built member by member, each one the derivative of the one before.
  The members are what the tree has as derivatives along the initial parts of
  the list of variables: along the first one, along the first two, and so on.

  A text has a chain when all the names are names of variables and the text can
  be read; without names it has the empty chain, and need not be readable.  All
  members have texts in the notation of the text, and are read back from these.

  Main results:

      cons_diffChain         a tree and its chain, along initial parts
      derivativesOf_eq_ok    which texts have a chain, and which chain
      parse_render_of_mem    the members of a chain are read back
-/
import Trivariate.Derivative
import Trivariate.Proofs.Parse.Closure

namespace Trivariate

open Trivariate.Parse (parse_render_of_readable readable_diffAlong)

/-! ## §1. Chains. -/

/-- A tree and the chain of its derivatives are the derivatives along all the
initial parts of the list of variables. -/
theorem Expr.cons_diffChain (e : Expr) (vs : List Var) :
    e :: e.diffChain vs = vs.inits.map e.diffAlong := by
  induction vs generalizing e with
  | nil => rfl
  | cons v vs ih =>
    rw [diffChain, ih (e.diff v), List.inits_cons, List.map_cons, List.map_map]
    rfl

/-- The members of a chain are derivatives of the tree. -/
theorem Expr.exists_of_mem_diffChain {e d : Expr} {vs : List Var}
    (h : d ∈ e.diffChain vs) : ∃ us, us <+: vs ∧ d = e.diffAlong us := by
  have hd : d ∈ vs.inits.map e.diffAlong := by
    rw [← cons_diffChain]
    exact List.mem_cons_of_mem e h
  obtain ⟨us, hus, rfl⟩ := List.mem_map.1 hd
  exact ⟨us, (List.mem_inits us vs).1 hus, rfl⟩

/-! ## §2. Names. -/

theorem Var.read_eq_ok {name : String} {v : Var} :
    Var.read name = .ok v ↔ name = v.name := by
  unfold Var.read
  rw [eq_comm (a := name), ← Var.ofName?_eq_some]
  cases Var.ofName? name with
  | none => simp
  | some u => simp

/-- Names are read as the variables whose names they are. -/
theorem Var.mapM_read_eq_ok {names : List String} {vs : List Var} :
    names.mapM Var.read = .ok vs ↔ names = vs.map Var.name := by
  simp only [mapM_eq_ok, Var.read_eq_ok]
  rw [← List.forall₂_eq_eq_eq, List.forall₂_map_right_iff]

/-! ## §3. The chain of a text. -/

section text

variable {n : Notation} {text : String} {names : List String} {ds : List Expr}

/-- With a name, a text has a chain when all the names are those of variables and
the text can be read. -/
theorem derivativesOf_cons_eq_ok {name : String} :
    derivativesOf n text (name :: names) = .ok ds
      ↔ ∃ e vs, parse n text = .ok e ∧ name :: names = vs.map Var.name
          ∧ ds = e.diffChain vs := by
  unfold derivativesOf derivativeOf
  simp only [bind_eq_ok, mapError_eq_ok, map_eq_ok, Var.read_eq_ok, Var.mapM_read_eq_ok]
  constructor
  · rintro ⟨v, rfl, -, ⟨e, he, rfl⟩, vs, rfl, hds⟩
    exact ⟨e, v :: vs, he, rfl, (Except.ok.inj hds).symm⟩
  · rintro ⟨e, vs, he, hnames, rfl⟩
    obtain ⟨v, us, rfl, hname, hnames⟩ := List.map_eq_cons_iff.1 hnames.symm
    exact ⟨v, hname.symm, e.diff v, ⟨e, he, rfl⟩, us, hnames.symm, rfl⟩

/-- A text has a chain when all the names are those of variables and it can be
read, or when there are no names: then it has the empty one. -/
theorem derivativesOf_eq_ok :
    derivativesOf n text names = .ok ds
      ↔ names = [] ∧ ds = []
        ∨ ∃ e vs, parse n text = .ok e ∧ names = vs.map Var.name ∧ ds = e.diffChain vs := by
  cases names with
  | nil =>
    constructor
    · intro h
      exact .inl ⟨rfl, (Except.ok.inj h).symm⟩
    · rintro (⟨-, rfl⟩ | ⟨e, vs, -, hnames, rfl⟩)
      · rfl
      · rw [List.map_eq_nil_iff.1 hnames.symm]
        rfl
  | cons name names =>
    rw [derivativesOf_cons_eq_ok]
    simp

/-- Every member of a text's chain is read back from its text, in the notation of
the text. -/
theorem parse_render_of_mem (h : derivativesOf n text names = .ok ds) {d : Expr}
    (hd : d ∈ ds) : parse n (d.render n) = .ok d := by
  rcases derivativesOf_eq_ok.1 h with ⟨-, rfl⟩ | ⟨e, vs, he, -, rfl⟩
  · exact absurd hd List.not_mem_nil
  · obtain ⟨us, -, rfl⟩ := Expr.exists_of_mem_diffChain hd
    exact parse_render_of_readable (readable_diffAlong he us)

end text

end Trivariate
