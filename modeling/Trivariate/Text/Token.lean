/-
  Trivariate.Text.Token
  ─────────────────────
  **WORDS WITH THEIR BYTE OFFSETS.**

  A text is cut into words: maximal runs of characters that are neither blank
  nor a mark, and each mark as a word of its own.  Which characters are marks
  is a parameter: the flat notation has none, the grouped notations have the
  two parentheses.  Every word carries the byte offset, in the UTF-8 text, at
  which it starts; errors point there.

  The scanner is one structural recursion over the characters.  It carries
  the offset of the next character and the run read so far, last character
  first.
-/
import Trivariate.Text.Blank

namespace Trivariate.Text

/-! ## §1. Offsets. -/

/-- The number of bytes the characters take in UTF-8. -/
def byteLength (cs : List Char) : Nat :=
  cs.foldr (fun c n => c.utf8Size + n) 0

@[simp] theorem byteLength_nil : byteLength [] = 0 := rfl

@[simp] theorem byteLength_cons (c : Char) (cs : List Char) :
    byteLength (c :: cs) = c.utf8Size + byteLength cs := rfl

@[simp] theorem byteLength_append (cs ds : List Char) :
    byteLength (cs ++ ds) = byteLength cs + byteLength ds := by
  induction cs with
  | nil => rw [List.nil_append, byteLength_nil, Nat.zero_add]
  | cons c cs ih =>
    rw [List.cons_append, byteLength_cons, byteLength_cons, ih, Nat.add_assoc]

/-! ## §2. The scanner. -/

/-- A word of a text and the byte offset at which it starts. -/
structure Token where
  text : String
  offset : Nat
  deriving Repr, DecidableEq

/-- The word being read, if any: its start and its characters, last first. -/
abbrev Run := Option (Nat × List Char)

/-- The token of a run that ends here. -/
def Run.finish : Run → List Token
  | none => []
  | some (start, cs) => [⟨String.ofList cs.reverse, start⟩]

/-- The run after one more character, which stands at `offset`. -/
def Run.extend (offset : Nat) (c : Char) : Run → Run
  | none => some (offset, [c])
  | some (start, cs) => some (start, c :: cs)

/-- The tokens of the remaining characters, the first of which stands at
`offset`, when `run` has been read just before them. -/
def scanFrom (isMark : Char → Bool) (offset : Nat) (run : Run) :
    List Char → List Token
  | [] => run.finish
  | c :: cs =>
      if isBlank c then
        run.finish ++ scanFrom isMark (offset + c.utf8Size) none cs
      else if isMark c then
        run.finish ++ ⟨String.singleton c, offset⟩
          :: scanFrom isMark (offset + c.utf8Size) none cs
      else
        scanFrom isMark (offset + c.utf8Size) (run.extend offset c) cs

/-- The words and marks of a text, in order. -/
def scan (isMark : Char → Bool) (text : String) : List Token :=
  scanFrom isMark 0 none text.toList

/-- Tabs and runs of blanks separate words; offsets count bytes. -/
example : scan (fun _ => false) "x  2\t+" = [⟨"x", 0⟩, ⟨"2", 3⟩, ⟨"+", 5⟩] := by
  decide +kernel

/-- A mark ends the word before it and is a token of its own. -/
example : scan (fun c => c == '(') "é(x" = [⟨"é", 0⟩, ⟨"(", 2⟩, ⟨"x", 3⟩] := by
  decide +kernel

end Trivariate.Text
