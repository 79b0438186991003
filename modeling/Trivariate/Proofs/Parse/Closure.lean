/-
  Trivariate.Proofs.Parse.Closure
  ───────────────────────────────
  **EACH NOTATION IS CLOSED UNDER DIFFERENTIATION.**

  What words can spell is a demand on trees: every operation takes as many
  operands as it has, and in flat text a fixed number of them; a constant is
  zero, one or two, or one of the words is a literal of that value.  The rules
  of differentiation make nothing else, so the demand holds of every
  derivative of a tree that has been read.  A tree that meets it has a text in
  the notation it was read in, and this text is read as the tree.

  Main results:

      readable_of_parse         what is read meets the demand
      readable_diffAlong        and so do its derivatives
      parse_render              a tree of the notation is read back
      parse_render_diffAlong    so is every derivative of what is read
-/
import Trivariate.Parse
import Trivariate.Proofs.Numeric.Literal
import Trivariate.Proofs.Parse.RoundTrip

namespace Trivariate.Parse

open Trivariate.Numeric (literal? isNaN_literal?)
open Trivariate.Text (Token scan)

/-! ## §1. What words can spell. -/

/-- The words of a text in a notation. -/
def wordsOf (n : Notation) (text : String) : List String :=
  (scan n.isMark text).map Token.text

/-- What a tree is like that these words can spell in the notation. -/
def readable (n : Notation) (ws : List String) : Demand where
  const value :=
    value = 0 ∨ value = 1 ∨ value = 2 ∨ ∃ w ∈ ws, literal? w = some value
  var _ := True
  node op operands :=
    op.arity.accepts operands.length = true
      ∧ (n = .flat → op ≠ .sumExp ∧ op ≠ .logSumExp)

/-- The constants with a name are zero, one and two. -/
theorem named_eq {word : String} {e : Expr} (h : namedConstant? word = some e) :
    e = .zero ∨ e = .one ∨ e = .two := by
  have hmem := List.mem_map_of_mem (f := Prod.snd) (namedConstant?_eq_some.1 h)
  simpa using hmem

/-- An operation with a fixed number of operands. -/
theorem readable_fixed {n : Notation} {ws : List String} {op : Op}
    {operands : List Expr} (count : op.arity = .fixed operands.length) :
    (readable n ws).node op operands := by
  refine ⟨?_, fun _ => ⟨?_, ?_⟩⟩
  · rw [count]
    exact beq_self_eq_true _
  · intro hop
    rw [hop] at count
    exact absurd count (by simp [Op.arity])
  · intro hop
    rw [hop] at count
    exact absurd count (by simp [Op.arity])

/-- The trees that flat words spell meet the demand, also when there are more
words around these. -/
theorem Flat.Spells.readable {ws us : List String} {es : List Expr}
    (h : Flat.Spells ws es) (hws : ws ⊆ us) :
    ∀ e ∈ es, e.Everywhere (readable .flat us) := by
  induction h with
  | nil => simp
  | var _ ih =>
    refine List.forall_mem_cons.2 ⟨.var trivial, ih ?_⟩
    exact (List.cons_subset.1 hws).2
  | @const word value _ _ reads _ ih =>
    obtain ⟨hword, hrest⟩ := List.cons_subset.1 hws
    refine List.forall_mem_cons.2 ⟨.const ?_, ih hrest⟩
    exact .inr (.inr (.inr ⟨word, hword, reads⟩))
  | named names _ ih =>
    refine List.forall_mem_cons.2 ⟨?_, ih (List.cons_subset.1 hws).2⟩
    rcases named_eq names with rfl | rfl | rfl
    · exact .const (.inl rfl)
    · exact .const (.inr (.inl rfl))
    · exact .const (.inr (.inr (.inl rfl)))
  | node _ count _ operands rest =>
    obtain ⟨hoperands, hrest⟩ := List.append_subset.1 hws
    refine List.forall_mem_cons.2 ⟨?_, rest (List.cons_subset.1 hrest).2⟩
    exact .node (readable_fixed count) (operands hoperands)

/-- The trees that grouped words spell meet the demand. -/
theorem Grouped.Spells.readable {n : Notation} (hn : n ≠ .flat)
    {ws us : List String} {es : List Expr} (h : Grouped.Spells ws es)
    (hws : ws ⊆ us) : ∀ e ∈ es, e.Everywhere (readable n us) := by
  induction h with
  | nil => simp
  | var _ ih =>
    refine List.forall_mem_cons.2 ⟨.var trivial, ih ?_⟩
    exact (List.cons_subset.1 hws).2
  | @const word value _ _ reads _ ih =>
    obtain ⟨hword, hrest⟩ := List.cons_subset.1 hws
    refine List.forall_mem_cons.2 ⟨.const ?_, ih hrest⟩
    exact .inr (.inr (.inr ⟨word, hword, reads⟩))
  | group _ _ count _ left right rest =>
    -- the words of a group, from the inside of its parentheses outwards
    obtain ⟨hleft, hws⟩ := List.append_subset.1 (List.cons_subset.1 hws).2
    obtain ⟨hright, hws⟩ := List.append_subset.1 (List.cons_subset.1 hws).2
    refine List.forall_mem_cons.2 ⟨?_, rest (List.cons_subset.1 hws).2⟩
    refine .node ⟨count, fun hflat => absurd hflat hn⟩ ?_
    exact List.forall_mem_append.2 ⟨left hleft, right hright⟩

/-- A tree that is read from a text meets the demand of the text's words. -/
theorem readable_of_parse {n : Notation} {text : String} {e : Expr}
    (h : parse n text = .ok e) : e.Everywhere (readable n (wordsOf n text)) := by
  have hself : wordsOf n text ⊆ wordsOf n text := List.Subset.refl _
  cases n with
  | flat =>
    have hspells := Flat.spells_of_parse h
    exact hspells.readable hself e (List.mem_singleton_self e)
  | operationFirst =>
    have hspells := Grouped.spells_of_parse h
    exact hspells.readable (by decide) hself e (List.mem_singleton_self e)
  | operationLast =>
    have hspells := Grouped.spells_of_parse h
    exact hspells.readable (by decide) hself e (List.mem_singleton_self e)

/-! ## §2. What the demand gives. -/

section readable

variable {n : Notation} {ws : List String} {e : Expr}

theorem wellFormed_of_readable (h : e.Everywhere (readable n ws)) :
    e.WellFormed :=
  h.wellFormed fun _ _ here => here.1

theorem noNaN_of_readable (h : e.Everywhere (readable n ws)) : e.NoNaN := by
  refine h.imp ?_ (fun _ _ => trivial) fun _ _ _ => trivial
  intro value here
  show value.isNaN = false
  rcases here with rfl | rfl | rfl | ⟨w, -, reads⟩
  · decide +kernel
  · decide +kernel
  · decide +kernel
  · exact isNaN_literal? reads

theorem noVariadic_of_readable (h : e.Everywhere (readable .flat ws)) :
    e.NoVariadic :=
  h.imp (fun _ _ => trivial) (fun _ _ => trivial) fun _ _ here => here.2 rfl

/-- The rules make sums of exponentials only where there are some already. -/
theorem readable_differentiable (n : Notation) (ws : List String) :
    (readable n ws).Differentiable where
  zero := .inl rfl
  one := .inr (.inl rfl)
  two := .inr (.inr (.inl rfl))
  add _ _ := readable_fixed rfl
  subtract _ _ := readable_fixed rfl
  multiply _ _ := readable_fixed rfl
  negate _ := readable_fixed rfl
  quotient _ _ := readable_fixed rfl
  distance _ _ := readable_fixed rfl
  exponential h _ := by
    refine ⟨rfl, fun hflat => ?_⟩
    rcases h with h | h
    · exact absurd rfl (h.2 hflat).1
    · exact absurd rfl (h.2 hflat).2
  sumExp h := ⟨rfl, fun hflat => absurd rfl (h.2 hflat).2⟩
  logarithm _ _ := readable_fixed rfl

end readable

/-! ## §3. Derivatives are read back. -/

/-- A tree is read back from its text in a notation, when every operation takes
as many operands as it has, in flat text a fixed number of them, and no
constant is NaN. -/
theorem parse_render {n : Notation} {e : Expr} (hcount : e.WellFormed)
    (hnan : e.NoNaN) (hfixed : n = .flat → e.NoVariadic) :
    parse n (e.render n) = .ok e := by
  cases n with
  | flat =>
    refine Flat.parse_of_spells ?_
    show Flat.Spells ((scan Notation.flat.isMark _).map Token.text) [e]
    rw [scan_render]
    exact Flat.spells_wordsIn hcount (hfixed rfl) hnan
  | operationFirst => exact Grouped.parse_render (by decide) hcount hnan
  | operationLast => exact Grouped.parse_render (by decide) hcount hnan

/-- What meets the demand of a notation is read back from its text in it. -/
theorem parse_render_of_readable {n : Notation} {ws : List String} {e : Expr}
    (h : e.Everywhere (readable n ws)) : parse n (e.render n) = .ok e := by
  refine parse_render (wellFormed_of_readable h) (noNaN_of_readable h) ?_
  rintro rfl
  exact noVariadic_of_readable h

/-- Every derivative of what is read meets the demand of the text's words. -/
theorem readable_diffAlong {n : Notation} {text : String} {e : Expr}
    (h : parse n text = .ok e) (vs : List Var) :
    (e.diffAlong vs).Everywhere (readable n (wordsOf n text)) := by
  have hread := readable_of_parse h
  exact hread.diffAlong (readable_differentiable n _)
    (.inr (wellFormed_of_readable hread)) vs

/-- Of a tree that is read from a text, every derivative, by any variables one
after another, is read back from its text in the same notation.  It has no NaN,
and in flat text no operation that takes any number of operands. -/
theorem parse_render_diffAlong {n : Notation} {text : String} {e : Expr}
    (h : parse n text = .ok e) (vs : List Var) :
    parse n ((e.diffAlong vs).render n) = .ok (e.diffAlong vs)
      ∧ (e.diffAlong vs).NoNaN ∧ (n = .flat → (e.diffAlong vs).NoVariadic) := by
  have hderived := readable_diffAlong h vs
  refine ⟨parse_render_of_readable hderived, noNaN_of_readable hderived, ?_⟩
  rintro rfl
  exact noVariadic_of_readable hderived

/-- A quotient by a distance that is read from flat text, by two variables in
turn. -/
theorem parse_render_diffAlong_quotient :
    let e : Expr := .divide (.var .x) (.node (.distance .two) [.var .y, .two])
    let d := e.diffAlong [.y, .x]
    parse .flat "x y TWO distance2 /" = .ok e
      ∧ parse .flat (d.render .flat) = .ok d
      ∧ d.NoNaN ∧ (Notation.flat = .flat → d.NoVariadic) := by
  intro e d
  have h : parse .flat "x y TWO distance2 /" = .ok e := by
    rfl
  exact ⟨h, parse_render_diffAlong h [.y, .x]⟩

end Trivariate.Parse
