/-
  Trivariate.Proofs.Parse.Along
  ─────────────────────────────
  **READING ALONG THE CHARACTERS.**

  Both readers cut the whole text into words first and then go through the
  words.  Here the text is gone through only once: from an offset on, between
  two words, what is read depends on the characters that are left and on the
  state.  A blank is passed over, a mark is read, and so is a word that nothing
  extends.

  Main results:

      along_blank, along_mark, along_word   how reading goes on
      Flat.parse_eq_along,
      Grouped.parse_eq_along                a text is read so from its start
-/
import Mathlib.Data.List.TakeWhile
import Trivariate.Parse.Flat
import Trivariate.Parse.Grouped
import Trivariate.Proofs.Text.Cut

namespace Trivariate.Parse

open Trivariate.Text

/-! ## §1. Readers. -/

/-- A reader of words: the characters that are words of their own, what a word
does to the state, and what is made of the state at the end of the text. -/
structure Reader (σ : Type) where
  isMark : Char → Bool
  step : σ → Token → Except ParseError σ
  finish : σ → Except ParseError Expr

namespace Reader

variable {σ : Type} (R : Reader σ)

/-- What is read of these characters, the first of which stands at the offset,
when the state before them is `s`. -/
def along (offset : Nat) (cs : List Char) (s : σ) : Except ParseError Expr := do
  let last ← (scanFrom R.isMark offset none cs).foldlM R.step s
  R.finish last

/-! ## §2. How reading goes on. -/

/-- Reading goes on behind the first of the tokens. -/
theorem along_of_scan {offset next : Nat} {cs rest : List Char} {t : Token}
    (h : scanFrom R.isMark offset none cs = t :: scanFrom R.isMark next none rest)
    (s : σ) :
    R.along offset cs s = R.step s t >>= R.along next rest := by
  unfold along
  rw [h, List.foldlM_cons]
  cases R.step s t with
  | error fault => rfl
  | ok s' => rfl

variable {offset : Nat} {c : Char} {cs : List Char}

theorem along_blank (h : isBlank c = true) (s : σ) :
    R.along offset (c :: cs) s = R.along (offset + c.utf8Size) cs s := by
  unfold along
  rw [scanFrom, if_pos h]
  rfl

theorem along_space (offset : Nat) (cs : List Char) (s : σ) :
    R.along offset (' ' :: cs) s = R.along (offset + 1) cs s :=
  R.along_blank isBlank_space s

/-- Any number of blanks are passed over. -/
theorem along_blanks (offset : Nat) (cs : List Char) (s : σ) :
    R.along offset cs s
      = R.along (offset + byteLength (cs.takeWhile isBlank)) (cs.dropWhile isBlank) s := by
  induction cs generalizing offset with
  | nil => rfl
  | cons c cs ih =>
    by_cases hblank : isBlank c = true
    · rw [R.along_blank hblank, ih, List.takeWhile_cons_of_pos hblank,
        List.dropWhile_cons_of_pos hblank, byteLength_cons, Nat.add_assoc]
    · rw [List.takeWhile_cons_of_neg hblank, List.dropWhile_cons_of_neg hblank]
      rfl

theorem along_mark (hblank : isBlank c = false) (hmark : R.isMark c = true) (s : σ) :
    R.along offset (c :: cs) s
      = R.step s ⟨String.singleton c, offset⟩ >>= R.along (offset + c.utf8Size) cs :=
  R.along_of_scan (Cut.mark hblank hmark ((cut_scanFrom cs).1 _)).scanFrom_eq s

/-- A run of inner characters that nothing extends is one word. -/
theorem along_word {run : List Char} (hne : run ≠ [])
    (hinner : ∀ c ∈ run, isInner R.isMark c = true) (hend : EndsWord R.isMark cs)
    (s : σ) :
    R.along offset (run ++ cs) s
      = R.step s ⟨String.ofList run, offset⟩
        >>= R.along (offset + byteLength run) cs :=
  R.along_of_scan (Cut.word hne hinner hend ((cut_scanFrom cs).1 _)).scanFrom_eq s

/-- An inner character begins a word, which goes on as long as it can. -/
theorem along_first_word (h : isInner R.isMark c = true) (s : σ) :
    R.along offset (c :: cs) s
      = R.step s ⟨String.ofList ((c :: cs).takeWhile (isInner R.isMark)), offset⟩
        >>= R.along (offset + byteLength ((c :: cs).takeWhile (isInner R.isMark)))
          ((c :: cs).dropWhile (isInner R.isMark)) := by
  have hne : (c :: cs).takeWhile (isInner R.isMark) ≠ [] := by
    rw [List.takeWhile_cons_of_pos h]
    exact List.cons_ne_nil _ _
  have hend : EndsWord R.isMark ((c :: cs).dropWhile (isInner R.isMark)) := by
    intro d hd
    have hnot := List.head?_dropWhile_not (isInner R.isMark) (c :: cs)
    rw [hd] at hnot
    exact hnot
  have hinner : ∀ d ∈ (c :: cs).takeWhile (isInner R.isMark), isInner R.isMark d = true :=
    fun _ => List.mem_takeWhile_imp
  rw [← R.along_word hne hinner hend, List.takeWhile_append_dropWhile]

end Reader

/-! ## §3. The two readers. -/

/-- The reader of flat texts of `length` bytes. -/
def Flat.reader (length : Nat) : Reader Flat.Stack :=
  ⟨fun _ => false, Flat.step, Flat.finish length⟩

/-- The reader of grouped texts of `length` bytes. -/
def Grouped.reader (length : Nat) : Reader Grouped.Progress :=
  ⟨Grouped.isParenthesis, Grouped.step, Grouped.finish length⟩

theorem Flat.parse_eq_along (text : String) :
    Flat.parse text = (Flat.reader text.utf8ByteSize).along 0 text.toList [] := rfl

theorem Grouped.parse_eq_along (text : String) :
    Grouped.parse text
      = (Grouped.reader text.utf8ByteSize).along 0 text.toList .start := rfl

end Trivariate.Parse
