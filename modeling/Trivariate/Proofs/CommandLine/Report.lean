/-
  Trivariate.Proofs.CommandLine.Report
  ────────────────────────────────────
  **WHAT A RUN PRINTS IS READ BACK.**

  A run prints a line for the expression it was asked for and a line for each
  point.  The lines can be told apart, for no text that stands in one has a line
  feed.  The first is read in the output notation; in the others the point is
  read as a point is on the command line, and the value as a coordinate is.
  That an infinity has another name there than in an expression does no harm,
  for each reader knows the name that stands where it reads.

  Main results:

      Point.read_text       a point is read back from its text
      prints_unlines        lines are told apart by their line feeds
      Config.run_readable   a run prints what can be read back, or nothing
-/
import Trivariate.CommandLine.Run
import Trivariate.Proofs.Parse.Offender

namespace Trivariate

open Trivariate.Numeric (mem_numeral readNumber readNumber_valueText valueText)
open Trivariate.Parse.Grouped (isParenthesis)
open Trivariate.Text

/-! ## §1. Points. -/

/-- A value has no blank, and no comma. -/
theorem mem_valueText {x : Float} {c : Char} (h : c ∈ (valueText x).toList) :
    isBlank c = false ∧ c ≠ ',' := by
  unfold valueText at h
  rw [String.toList_ofList] at h
  constructor
  · have hinner := List.all_eq_true.1 (isInner_numeral (by decide) x) c h
    exact (isInner_iff.1 hinner).1
  · have hcomma : ',' ∉ ['-', '.', 'N', 'a'] ++ "inf".toList := by decide
    rcases mem_numeral h with hdigit | hc
    · exact Numeric.ne_of_isDigit hdigit (by decide)
    · rintro rfl
      exact hcomma hc

theorem trim_valueText (x : Float) :
    trim (valueText x).toList = (valueText x).toList :=
  trim_of_no_blank fun _ hc => (mem_valueText hc).1

theorem Point.text_eq (p : Point Float) :
    p.text = s!"{valueText p.x}, {valueText p.y}, {valueText p.z}" := by
  simp [Point.text, toString, String.append_assoc]

/-- A point is read back from its text, NaN and infinities included. -/
theorem Point.read_text (p : Point Float) : Point.read p.text = .ok p := by
  have hcomma : ∀ x, ',' ∉ (valueText x).toList :=
    fun x hc => (mem_valueText hc).2 rfl
  have hchars : p.text.toList = (valueText p.x).toList
      ++ ',' :: ((' ' :: (valueText p.y).toList)
      ++ ',' :: (' ' :: (valueText p.z).toList)) := by
    simp [Point.text]
  have hsplit : p.text.toList.splitOn ',' = [(valueText p.x).toList,
      ' ' :: (valueText p.y).toList, ' ' :: (valueText p.z).toList] := by
    have hblank : ∀ x, ',' ∉ ' ' :: (valueText x).toList := by
      intro x
      simpa using hcomma x
    rw [hchars, List.splitOn_append_cons_self_of_not_mem (hcomma p.x),
      List.splitOn_append_cons_self_of_not_mem (hblank p.y),
      List.splitOn_eq_singleton (hblank p.z)]
  have hread : ∀ x, readNumber (trim (valueText x).toList) = .ok x := by
    intro x
    rw [trim_valueText, readNumber_valueText]
  unfold Point.read
  rw [hsplit]
  simp only [List.mapM_cons, List.mapM_nil, trim_blank_cons isBlank_space, hread]
  rfl

namespace CommandLine

/-! ## §2. Lines. -/

/-- The text is these lines, each of them with its line feed, and none of them
has another. -/
def Prints (text : String) (lines : List String) : Prop :=
  text.toList = lines.flatMap (fun line => line.toList ++ ['\n'])
    ∧ ∀ line ∈ lines, '\n' ∉ line.toList

theorem prints_unlines {lines : List String}
    (h : ∀ line ∈ lines, '\n' ∉ line.toList) : Prints (unlines lines) lines := by
  refine ⟨?_, h⟩
  unfold unlines
  rw [String.toList_join, List.flatMap_map]
  simp

theorem lineFeed_notMem_render (n : Notation) (e : Expr) :
    '\n' ∉ (e.render n).toList := by
  intro h
  rcases isInner_render h with hmem | hinner
  · exact absurd hmem (by decide)
  · exact absurd hinner (by decide)

theorem lineFeed_notMem_valueLine (p : Point Float) (value : Float) :
    '\n' ∉ (valueLine p value).toList := by
  have hvalue : ∀ x, '\n' ∉ (valueText x).toList :=
    fun x hc => absurd (mem_valueText hc).1 (by decide)
  simp [valueLine, Point.text_eq, toString, hvalue]

/-! ## §3. What the lines say. -/

/-- How the line of an expression is read in its notation. -/
inductive ResultLine (n : Notation) (e : Expr) (line : String) : Prop where
  | read (shown : n = .flat → e.NoVariadic) (back : parse n line = .ok e)
  /-- Flat text cannot show every operation. -/
  | unreadable (op : Op) (position : Nat) (flat : n = .flat)
      (variadic : ¬e.NoVariadic) (any : op.arity = .variadic)
      (fault : parse n line = .error (.variadicInFlat op position))

/-- How the line of a point is read: the point between the parentheses, and
behind the sign of equality the value of the expression.  There is one NaN, which
is read as itself. -/
def ValueLine (e : Expr) (p : Point Float) (line : String) : Prop :=
  ∃ x y z value : String, line = s!"f({x}, {y}, {z}) = {value}"
    ∧ Point.read s!"{x}, {y}, {z}" = .ok p
    ∧ readNumber value.toList = .ok (e.evaluate p)

theorem resultLine_render {n : Notation} {e : Expr} (hcount : e.WellFormed)
    (hnan : e.NoNaN) : ResultLine n e (e.render n) := by
  by_cases hshown : n = .flat → e.NoVariadic
  · exact .read hshown (Parse.parse_render hcount hnan hshown)
  · obtain ⟨rfl, hvariadic⟩ := Classical.not_imp.1 hshown
    obtain ⟨op, position, hop, hfault⟩ :=
      Parse.parse_flat_render_variadic hcount hnan hvariadic
    exact .unreadable op position rfl hvariadic hop hfault

theorem valueLine_evaluate (e : Expr) (p : Point Float) :
    ValueLine e p (valueLine p (e.evaluate p)) := by
  refine ⟨valueText p.x, valueText p.y, valueText p.z, valueText (e.evaluate p),
    ?_, ?_, readNumber_valueText _⟩
  · rw [valueLine, Point.text_eq]
    simp [toString, String.append_assoc]
  · rw [← Point.text_eq]
    exact p.read_text

/-! ## §4. Runs. -/

namespace Config

variable {c : Config} {e : Expr}

/-- The expression that is asked for, when `e` is the one that was given. -/
def resultOf (c : Config) (e : Expr) : Expr :=
  e.diffAlong c.diff?.toList

theorem report_of_parse (h : parse c.input c.expression = .ok e) :
    c.report = .ok ⟨c.resultOf e, (c.resultOf e).evaluateMany c.points⟩ := by
  unfold report resultOf
  rw [h]
  cases c.diff? with
  | none => rfl
  | some v => rfl

/-- What is asked for can be written, except for what flat text cannot show. -/
theorem readable_resultOf (h : parse c.input c.expression = .ok e) :
    (c.resultOf e).WellFormed ∧ (c.resultOf e).NoNaN := by
  have hresult := Parse.readable_diffAlong h c.diff?.toList
  exact ⟨Parse.wellFormed_of_readable hresult, Parse.noNaN_of_readable hresult⟩

theorem stdout_of_error {fault : ParseError}
    (h : parse c.input c.expression = .error fault) : c.run.stdout = "" := by
  unfold run report
  rw [h]

theorem stdout_of_parse (h : parse c.input c.expression = .ok e) :
    c.run.stdout = unlines ((c.resultOf e).render c.output
      :: c.points.map fun p => valueLine p ((c.resultOf e).evaluate p)) := by
  unfold run
  rw [report_of_parse h]
  -- the values are those at the points, so each point meets its own
  show unlines (_ :: List.zipWith valueLine c.points (c.points.map _)) = _
  rw [List.zipWith_map_right, List.zipWith_self]
  rfl

/-- **What a run prints is read back.**  It prints nothing if the expression
cannot be read; else the expression asked for, on a line that is read as it if
flat text can show it, and for each point, in their order, a line that is read
as the point and the value at it. -/
theorem run_readable (c : Config) :
    match parse c.input c.expression with
    | .error _ => c.run.stdout = ""
    | .ok e => ∃ first rest, Prints c.run.stdout (first :: rest)
        ∧ ResultLine c.output (c.resultOf e) first
        ∧ List.Forall₂ (ValueLine (c.resultOf e)) c.points rest := by
  cases h : parse c.input c.expression with
  | error fault => exact stdout_of_error h
  | ok e =>
    obtain ⟨hcount, hnan⟩ := readable_resultOf h
    refine ⟨(c.resultOf e).render c.output,
      c.points.map fun p => valueLine p ((c.resultOf e).evaluate p),
      ?_, resultLine_render hcount hnan, ?_⟩
    · rw [stdout_of_parse h]
      refine prints_unlines (List.forall_mem_cons.2 ⟨lineFeed_notMem_render _ _, ?_⟩)
      intro line hline
      obtain ⟨p, -, rfl⟩ := List.mem_map.1 hline
      exact lineFeed_notMem_valueLine p _
    · rw [List.forall₂_map_right_iff, List.forall₂_same]
      exact fun p _ => valueLine_evaluate _ p

/-- An infinity has one name in the expression and another one in points and
values. -/
example :
    let c : Config := ⟨"(* (+ x y) -Infinity)", .operationFirst, .flat, none,
      [⟨Numeric.infinity, -0, Numeric.nan⟩, ⟨0.5, 1, 0⟩], .warn⟩
    c.run.stdout = "x y + -Infinity *\nf(inf, -0, NaN) = -inf\nf(0.5, 1, 0) = -inf\n" := by
  decide +kernel

end Config

end CommandLine

end Trivariate
