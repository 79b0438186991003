/-
  Trivariate.Proofs.Parse.Cursor.Grouped
  ──────────────────────────────────────
  **READING GROUPED TEXT WITH A CURSOR.**

  A grouped text can be read with no list of words: by recursion on groups,
  with a cursor that is a byte offset and moves by the bytes of one character
  at a time.  Every look at the text is a slice of it, and a slice exists only
  between boundaries.  Nor does anything say beforehand that the loops end: how
  often they may go round is a number that is given.  So each part of this
  reader may fail to have a result, and not only give an error.

  It has one for every text when the loops may go round more often than there
  are characters, and it is that of the reader of words: the cursor is always on
  a boundary, every word and every group moves it on, and the calls that are
  open are the open groups.

  Main results:

      skip_runAt, word_runAt   where the loops over characters end
      group_runAt              a group is read as inside any open groups
      expression_runAt         a text is read as word by word
-/
import Trivariate.Proofs.Parse.Along
import Trivariate.Proofs.Parse.Grouped
import Trivariate.Proofs.Text.Position

namespace Trivariate.Parse.Cursor

open Trivariate.Text
open Trivariate.Parse.Grouped (Group Progress isParenthesis step step_start step_inside)

/-! ## §1. Parts of the reader. -/

/-- A part of the reader, from a cursor on.  It has no result when a slice does
not exist or a loop goes round too often. -/
abbrev Reading := StateT Nat (ExceptT ParseError Option)

/-- What a part of the reader gives with the cursor at the offset, and where it
leaves the cursor. -/
def Reading.runAt {α : Type} (x : Reading α) (offset : Nat) :
    Option (Except ParseError (α × Nat)) :=
  (StateT.run x offset).run

/-- The text between two offsets. -/
def slice (text : String) (start stop : Nat) : Reading String :=
  liftM (slice? text start stop)

/-- A loop has gone round too often. -/
def stuck {α : Type} : Reading α :=
  liftM (none : Option α)

/-- The outcome of what does not look at the text. -/
def settle {α : Type} (x : Except ParseError α) : Reading α :=
  liftM x

/-- The character at the cursor; there is none at the end. -/
def peek (text : String) : Reading (Option Char) := do
  let rest ← slice text (← get) text.utf8ByteSize
  return rest.toList.head?

/-- Move the cursor behind the character. -/
def bump (c : Char) : Reading Unit :=
  modify (· + c.utf8Size)

/-- Move the cursor on for as long as the next character is one of these. -/
def skip (p : Char → Bool) (text : String) : Nat → Reading Unit
  | 0 => stuck
  | turns + 1 => do
      match ← peek text with
      | none => return
      | some c =>
          if p c then
            bump c
            skip p text turns
          else return

/-- The characters up to the next that ends a word; the empty text where there
is such a character at the cursor. -/
def word (text : String) (turns : Nat) : Reading String := do
  let start ← get
  skip (isInner isParenthesis) text turns
  slice text start (← get)

/-- The node of a group whose parenthesis stands before the cursor, with what
has been read of it. -/
def group (text : String) : Nat → Group → Reading Expr
  | 0, _ => stuck
  | turns + 1, g => do
      skip isBlank text (turns + 1)
      match ← peek text with
      | none => throw (.unclosedGroup g.start)
      | some c =>
          if c = ')' then
            bump c
            settle g.close
          else if c = '(' then
            let start ← get
            bump c
            let e ← group text turns (.opened start)
            group text turns (g.push e)
          else
            let start ← get
            let w ← word text (turns + 1)
            group text turns (← settle (g.read ⟨w, start⟩))

/-- The leaf that a word stands for. -/
def leaf (w : String) (start : Nat) : Reading Expr :=
  match leaf? w with
  | some e => return e
  | none => throw (.invalidElement w start)

/-- A group or a leaf. -/
def element (text : String) (turns : Nat) : Reading Expr := do
  let start ← get
  if (← peek text) = some '(' then
    bump '('
    group text turns (.opened start)
  else
    let w ← word text turns
    if w = "" then throw (.emptyInput start)
    else leaf w start

/-- One element and nothing else. -/
def expression (text : String) (turns : Nat) : Reading Expr := do
  skip isBlank text turns
  let e ← element text turns
  skip isBlank text turns
  let stop ← get
  if stop = text.utf8ByteSize then return e
  else
    let _rest ← slice text stop text.utf8ByteSize
    throw (.trailingInput stop)

/-! ## §2. Running the parts. -/

section run

variable {α β : Type} {x : Reading α} {f : α → Reading β} {offset next : Nat}
  {a : α} {fault : ParseError}

theorem runAt_bind (h : x.runAt offset = some (.ok (a, next))) :
    (x >>= f).runAt offset = (f a).runAt next := by
  show (x offset >>= fun r => f r.1 r.2) = f a next
  rw [show x offset = some (.ok (a, next)) from h]
  rfl

theorem runAt_bind_error (h : x.runAt offset = some (.error fault)) :
    (x >>= f).runAt offset = some (.error fault) := by
  show (x offset >>= fun r => f r.1 r.2) = _
  rw [show x offset = some (.error fault) from h]
  rfl

theorem get_runAt : (get : Reading Nat).runAt offset = some (.ok (offset, offset)) := rfl

theorem bump_runAt (c : Char) :
    (bump c).runAt offset = some (.ok ((), offset + c.utf8Size)) := rfl

theorem settle_runAt (r : Except ParseError α) (offset : Nat) :
    (settle r).runAt offset = some (r.map (·, offset)) := by
  cases r with
  | error fault => rfl
  | ok a => rfl

theorem slice_runAt {text piece : String} {start stop : Nat}
    (h : slice? text start stop = some piece) :
    (slice text start stop).runAt offset = some (.ok (piece, offset)) := by
  unfold slice
  rw [h]
  rfl

end run

section text

variable {text : String} {offset : Nat} {c : Char} {cs : List Char}

/-- On a boundary the next character is seen. -/
theorem peek_runAt (h : Ahead text offset cs) :
    (peek text).runAt offset = some (.ok (cs.head?, offset)) := by
  unfold peek
  rw [runAt_bind get_runAt, runAt_bind (slice_runAt h.slice?_rest), String.toList_ofList]
  rfl

/-- The cursor comes to stand behind the last of the characters. -/
theorem skip_runAt (p : Char → Bool) {turns : Nat} (hturns : cs.length < turns)
    (h : Ahead text offset cs) :
    (skip p text turns).runAt offset
      = some (.ok ((), offset + byteLength (cs.takeWhile p))) := by
  induction turns generalizing offset cs with
  | zero => exact absurd hturns (Nat.not_lt_zero _)
  | succ turns ih =>
    rw [skip, runAt_bind (peek_runAt h)]
    cases cs with
    | nil => rfl
    | cons c cs =>
      show (if p c = true then _ else _ : Reading Unit).runAt offset = _
      by_cases hc : p c = true
      · rw [if_pos hc, runAt_bind (bump_runAt c), ih (Nat.lt_of_succ_lt_succ hturns) h.cons,
          List.takeWhile_cons_of_pos hc, byteLength_cons, Nat.add_assoc]
      · rw [if_neg hc, List.takeWhile_cons_of_neg hc]
        rfl

/-- The characters up to the next that ends a word. -/
def firstWord (cs : List Char) : String :=
  String.ofList (cs.takeWhile (isInner isParenthesis))

/-- A word is cut out of the text. -/
theorem word_runAt {turns : Nat} (hturns : cs.length < turns)
    (h : Ahead text offset cs) :
    (word text turns).runAt offset
      = some (.ok (firstWord cs,
          offset + byteLength (cs.takeWhile (isInner isParenthesis)))) := by
  have hcut : Ahead text offset (cs.takeWhile (isInner isParenthesis)
      ++ cs.dropWhile (isInner isParenthesis)) := by
    rwa [List.takeWhile_append_dropWhile]
  unfold word
  rw [runAt_bind get_runAt, runAt_bind (skip_runAt _ hturns h),
    runAt_bind get_runAt,
    slice_runAt hcut.slice?_eq]
  rfl

end text

/-! ## §3. Reading as word by word. -/

section group

variable {text : String}

/-- Reading along these characters word by word. -/
abbrev words (text : String) (offset : Nat) (cs : List Char) (p : Progress) :
    Except ParseError Expr :=
  (Grouped.reader text.utf8ByteSize).along offset cs p

/-- Blanks before a word are passed over. -/
theorem words_blanks (text : String) (offset : Nat) (cs : List Char) (p : Progress) :
    words text offset cs p
      = words text (offset + byteLength (cs.takeWhile isBlank)) (cs.dropWhile isBlank) p :=
  Reader.along_blanks _ offset cs p

/-- What a part of the reader gives, with the cursor at the offset and these
characters ahead, is what word by word becomes of `p` there: an error, or `q` of
the tree once the words of the tree have been read. -/
inductive Follows (text : String) (p : Progress) (q : Expr → Progress) (offset : Nat)
    (cs : List Char) : Option (Except ParseError (Expr × Nat)) → Prop where
  | fails {fault : ParseError} (same : words text offset cs p = .error fault) :
      Follows text p q offset cs (some (.error fault))
  | goesOn {e : Expr} {next : Nat} {rest : List Char} (ahead : Ahead text next rest)
      (shorter : rest.length < cs.length)
      (same : words text offset cs p = words text next rest (q e)) :
      Follows text p q offset cs (some (.ok (e, next)))

/-- It is the same from a place further back that leads here. -/
theorem Follows.before {p p' : Progress} {q : Expr → Progress} {offset next : Nat}
    {cs rest : List Char} {r : Option (Except ParseError (Expr × Nat))}
    (h : Follows text p' q next rest r) (hlen : rest.length ≤ cs.length)
    (hsame : words text offset cs p = words text next rest p') :
    Follows text p q offset cs r := by
  cases h with
  | fails same => exact .fails (hsame.trans same)
  | goesOn ahead shorter same =>
    exact .goesOn ahead (Nat.lt_of_lt_of_le shorter hlen) (hsame.trans same)

/-- The first word is no parenthesis. -/
theorem firstWord_ne_parenthesis (cs : List Char) :
    firstWord cs ≠ "(" ∧ firstWord cs ≠ ")" := by
  have hinner : ∀ d, isInner isParenthesis d = false →
      firstWord cs ≠ String.singleton d := by
    intro d hd heq
    have hchars := congrArg String.toList heq
    rw [firstWord, String.toList_ofList, String.toList_singleton] at hchars
    have hmem : d ∈ cs.takeWhile (isInner isParenthesis) := by
      rw [hchars]
      exact List.mem_singleton_self d
    rw [List.mem_takeWhile_imp hmem] at hd
    exact absurd hd (by decide)
  exact ⟨hinner '(' (by decide), hinner ')' (by decide)⟩

section word

variable {offset : Nat} {c : Char} {cs : List Char}

/-- Behind the first word the cursor is on a boundary again. -/
theorem ahead_firstWord (h : Ahead text offset cs) :
    Ahead text (offset + byteLength (cs.takeWhile (isInner isParenthesis)))
      (cs.dropWhile (isInner isParenthesis)) := by
  refine Ahead.append ?_
  rwa [List.takeWhile_append_dropWhile]

/-- The first word is read as a whole. -/
theorem words_firstWord (text : String) (h : isInner isParenthesis c = true) (offset : Nat)
    (cs : List Char) (p : Progress) :
    words text offset (c :: cs) p
      = step p ⟨firstWord (c :: cs), offset⟩
        >>= words text (offset + byteLength ((c :: cs).takeWhile (isInner isParenthesis)))
          ((c :: cs).dropWhile (isInner isParenthesis)) :=
  Reader.along_first_word _ h p

theorem length_behind_firstWord (h : isInner isParenthesis c = true) (cs : List Char) :
    ((c :: cs).dropWhile (isInner isParenthesis)).length ≤ cs.length := by
  rw [List.dropWhile_cons_of_pos h]
  exact (List.dropWhile_suffix _).length_le

end word

/-! ## §4. Groups. -/

section cases

variable {g : Group} {outer : List Group} {offset : Nat} {c : Char} {cs : List Char}

/-- A closing parenthesis ends the group. -/
theorem follows_close (h : Ahead text offset (')' :: cs)) :
    Follows text (.inside g outer) (.after · outer) offset (')' :: cs)
      ((do bump ')'; settle g.close : Reading Expr).runAt offset) := by
  have hword : words text offset (')' :: cs) (.inside g outer)
      = g.close.map (.after · outer) >>= words text (offset + 1) cs :=
    Reader.along_mark _ (by decide) rfl _
  rw [runAt_bind (bump_runAt ')'), settle_runAt]
  cases hclose : g.close with
  | error fault =>
    rw [hclose] at hword
    exact .fails hword
  | ok e =>
    rw [hclose] at hword
    exact .goesOn h.cons (Nat.lt_succ_self _) hword

/-- A group is read as word by word, inside any outer groups, when fewer than
`turns` characters are ahead. -/
def GroupsFollow (text : String) (turns : Nat) : Prop :=
  ∀ (g : Group) (outer : List Group) (offset : Nat) (cs : List Char), cs.length < turns →
    Ahead text offset cs →
      Follows text (.inside g outer) (.after · outer) offset cs
        ((group text turns g).runAt offset)

/-- An opening parenthesis begins a group inside the group; when that one is
closed, its node is an operand. -/
theorem follows_open {turns : Nat} (ih : GroupsFollow text turns)
    (hlen : cs.length < turns)
    (h : Ahead text offset ('(' :: cs)) :
    Follows text (.inside g outer) (.after · outer) offset ('(' :: cs)
      ((do
        let start ← get
        bump '('
        let e ← group text turns (.opened start)
        group text turns (g.push e) : Reading Expr).runAt offset) := by
  have hword : words text offset ('(' :: cs) (.inside g outer)
      = words text (offset + 1) cs (.inside (.opened offset) (g :: outer)) :=
    Reader.along_mark _ (by decide) rfl _
  have hinner := ih (.opened offset) (g :: outer) (offset + 1) cs hlen h.cons
  rw [runAt_bind get_runAt, runAt_bind (bump_runAt '(')]
  show Follows _ _ _ _ _ (Reading.runAt _ (offset + 1))
  cases hgroup : (group text turns (.opened offset)).runAt (offset + 1) with
  | none =>
    rw [hgroup] at hinner
    cases hinner
  | some r =>
    rw [hgroup] at hinner
    cases hinner with
    | fails same =>
      rw [runAt_bind_error hgroup]
      exact .fails (hword.trans same)
    | goesOn ahead shorter same =>
      -- what follows the inner group is read by the group again
      rw [runAt_bind hgroup]
      refine (ih (g.push _) outer _ _ (by omega) ahead).before ?_ (hword.trans same)
      rw [List.length_cons]
      omega

/-- Any other character begins a word, which the group reads. -/
theorem follows_word {turns : Nat} (ih : GroupsFollow text turns)
    (hlen : cs.length < turns) (hinner : isInner isParenthesis c = true)
    (h : Ahead text offset (c :: cs)) :
    Follows text (.inside g outer) (.after · outer) offset (c :: cs)
      ((do
        let start ← get
        let w ← word text (turns + 1)
        group text turns (← settle (g.read ⟨w, start⟩)) : Reading Expr).runAt
          offset) := by
  have hword := words_firstWord text hinner offset cs (.inside g outer)
  rw [step_inside, if_neg (firstWord_ne_parenthesis (c :: cs)).1,
    if_neg (firstWord_ne_parenthesis (c :: cs)).2] at hword
  have hle := length_behind_firstWord hinner cs
  rw [runAt_bind get_runAt, runAt_bind (word_runAt (Nat.succ_lt_succ hlen) h)]
  have hread := settle_runAt (g.read ⟨firstWord (c :: cs), offset⟩)
  cases hg : g.read ⟨firstWord (c :: cs), offset⟩ with
  | error fault =>
    rw [hg] at hread hword
    rw [runAt_bind_error (hread _)]
    exact .fails hword
  | ok g' =>
    rw [hg] at hread hword
    rw [runAt_bind (hread _)]
    refine (ih g' outer _ _ (by omega) (ahead_firstWord h)).before ?_ hword
    rw [List.length_cons]
    omega

end cases

/-- A group is read as word by word, inside any outer groups. -/
theorem group_runAt (turns : Nat) : GroupsFollow text turns := by
  induction turns with
  | zero =>
    intro g outer offset cs hlen
    exact absurd hlen (Nat.not_lt_zero _)
  | succ turns ih =>
    intro g outer offset cs hlen h
    have hcut : Ahead text offset (cs.takeWhile isBlank ++ cs.dropWhile isBlank) := by
      rwa [List.takeWhile_append_dropWhile]
    have hrest := hcut.append
    have hle : (cs.dropWhile isBlank).length ≤ cs.length :=
      (List.dropWhile_suffix isBlank).length_le
    have hhead := List.head?_dropWhile_not isBlank cs
    rw [group, runAt_bind (skip_runAt isBlank hlen h), runAt_bind (peek_runAt hrest)]
    refine Follows.before ?_ hle (words_blanks text offset cs _)
    generalize offset + byteLength (cs.takeWhile isBlank) = start at *
    generalize cs.dropWhile isBlank = ahead at *
    cases ahead with
    | nil => exact .fails rfl
    | cons c rest =>
      have hblank : isBlank c = false := hhead
      have hshort : rest.length < turns := by
        rw [List.length_cons] at hle
        omega
      show Follows _ _ _ _ _ ((if c = ')' then _ else _ : Reading Expr).runAt start)
      by_cases hclose : c = ')'
      · subst hclose
        exact follows_close hrest
      · rw [if_neg hclose]
        by_cases hopen : c = '('
        · subst hopen
          exact follows_open ih hshort hrest
        · rw [if_neg hopen]
          have hinner : isInner isParenthesis c = true := by
            simp [isInner, isParenthesis, hblank, hclose, hopen]
          exact follows_word ih hshort hinner hrest

/-! ## §5. The whole text. -/

section element

variable {turns offset : Nat} {c : Char} {cs : List Char}

/-- A group that is no operand is the whole expression. -/
theorem follows_group (hturns : cs.length < turns) (h : Ahead text offset ('(' :: cs)) :
    Follows text .start .done offset ('(' :: cs)
      ((do
        bump '('
        group text turns (.opened offset) : Reading Expr).runAt offset) := by
  have hword : words text offset ('(' :: cs) .start
      = words text (offset + 1) cs (.inside (.opened offset) []) :=
    Reader.along_mark _ (by decide) rfl _
  rw [runAt_bind (bump_runAt '(')]
  refine Follows.before ?_ (Nat.le_succ _) hword
  exact group_runAt turns (.opened offset) [] (offset + 1) cs hturns h.cons

/-- What is no group is one word: a leaf, or a word that means nothing.  At the
end and before a closing parenthesis there is none. -/
theorem follows_leaf (hturns : cs.length < turns) (h : Ahead text offset cs)
    (hblank : ∀ c ∈ cs.head?, isBlank c = false) (hopen : cs.head? ≠ some '(') :
    Follows text .start .done offset cs
      ((do
        let w ← word text turns
        if w = "" then throw (.emptyInput offset) else leaf w offset :
          Reading Expr).runAt offset) := by
  rw [runAt_bind (word_runAt hturns h)]
  cases cs with
  | nil =>
    -- the offset is that of the end
    refine .fails ?_
    have hend : offset = text.utf8ByteSize := h.size
    rw [hend]
    rfl
  | cons c cs =>
    by_cases hclose : c = ')'
    · subst hclose
      refine .fails ?_
      exact Reader.along_mark _ (by decide) rfl _
    · have hinner : isInner isParenthesis c = true := by
        have hc : c ≠ '(' := fun h => hopen (congrArg some h)
        simp [isInner, isParenthesis, hblank c rfl, hclose, hc]
      have hword := words_firstWord text hinner offset cs .start
      rw [step_start, if_neg (firstWord_ne_parenthesis (c :: cs)).1,
        if_neg (firstWord_ne_parenthesis (c :: cs)).2] at hword
      have hne : firstWord (c :: cs) ≠ "" := by
        rw [firstWord, List.takeWhile_cons_of_pos hinner]
        simp
      rw [if_neg hne]
      unfold leaf
      cases hleaf : leaf? (firstWord (c :: cs)) with
      | none =>
        rw [hleaf] at hword
        exact .fails hword
      | some e =>
        rw [hleaf] at hword
        exact .goesOn (ahead_firstWord h)
          (Nat.lt_succ_of_le (length_behind_firstWord hinner cs)) hword

/-- Where no blank is next, a tree is read as word by word. -/
theorem element_runAt (hturns : cs.length < turns) (h : Ahead text offset cs)
    (hblank : ∀ c ∈ cs.head?, isBlank c = false) :
    Follows text .start .done offset cs ((element text turns).runAt offset) := by
  unfold element
  rw [runAt_bind get_runAt, runAt_bind (peek_runAt h)]
  by_cases hopen : cs.head? = some '('
  · rw [if_pos hopen]
    obtain ⟨rest, rfl⟩ := List.head?_eq_some_iff.1 hopen
    exact follows_group (Nat.lt_of_succ_lt hturns) h
  · rw [if_neg hopen]
    exact follows_leaf hturns h hblank hopen

/-- Behind a tree there are only blanks, or the rest is said to be too much. -/
theorem follows_end (e : Expr) (hturns : cs.length < turns) (h : Ahead text offset cs) :
    (do
      skip isBlank text turns
      let stop ← get
      if stop = text.utf8ByteSize then return e
      else
        let _rest ← slice text stop text.utf8ByteSize
        throw (.trailingInput stop) : Reading Expr).runAt offset
      = some ((words text offset cs (.done e)).map (·, text.utf8ByteSize)) := by
  have hcut : Ahead text offset (cs.takeWhile isBlank ++ cs.dropWhile isBlank) := by
    rwa [List.takeWhile_append_dropWhile]
  have hrest := hcut.append
  have hhead := List.head?_dropWhile_not isBlank cs
  rw [runAt_bind (skip_runAt isBlank hturns h), runAt_bind get_runAt, words_blanks]
  generalize offset + byteLength (cs.takeWhile isBlank) = stop at *
  generalize cs.dropWhile isBlank = rest at *
  cases rest with
  | nil =>
    have hend : stop = text.utf8ByteSize := hrest.size
    rw [if_pos hend, hend]
    rfl
  | cons c rest =>
    have hne : stop ≠ text.utf8ByteSize := by
      have hsize := hrest.size
      have hpos := Char.utf8Size_pos c
      rw [byteLength_cons] at hsize
      omega
    have hword : words text stop (c :: rest) (.done e) = .error (.trailingInput stop) := by
      by_cases hmark : isParenthesis c = true
      · exact Reader.along_mark _ hhead hmark _
      · have hinner : isInner isParenthesis c = true := by
          simp [isInner, hmark, show isBlank c = false from hhead]
        exact words_firstWord text hinner stop rest _
    rw [if_neg hne, runAt_bind (slice_runAt hrest.slice?_rest), hword]
    rfl

end element

/-- A text is read with a cursor as it is word by word. -/
theorem expression_runAt {turns : Nat} (hturns : text.toList.length < turns) :
    (expression text turns).runAt 0
      = some ((Grouped.parse text).map (·, text.utf8ByteSize)) := by
  have hcut : Ahead text 0 (text.toList.takeWhile isBlank ++ text.toList.dropWhile isBlank) := by
    rw [List.takeWhile_append_dropWhile]
    exact ahead_start text
  have hblank : ∀ c ∈ (text.toList.dropWhile isBlank).head?, isBlank c = false := by
    intro c hc
    have hhead := List.head?_dropWhile_not isBlank text.toList
    rw [hc] at hhead
    exact hhead
  have hsame : Grouped.parse text = words text 0 text.toList .start :=
    Grouped.parse_eq_along text
  have hrest : (text.toList.dropWhile isBlank).length < turns :=
    Nat.lt_of_le_of_lt (List.dropWhile_suffix isBlank).length_le hturns
  have hfollows := element_runAt hrest hcut.append hblank
  unfold expression
  rw [runAt_bind (skip_runAt isBlank hturns (ahead_start text)), hsame, words_blanks]
  generalize 0 + byteLength (text.toList.takeWhile isBlank) = start at *
  generalize text.toList.dropWhile isBlank = rest at *
  cases helement : (element text turns).runAt start with
  | none =>
    rw [helement] at hfollows
    cases hfollows
  | some r =>
    rw [helement] at hfollows
    cases hfollows with
    | fails same =>
      rw [runAt_bind_error helement, same]
      rfl
    | goesOn ahead shorter same =>
      rw [runAt_bind helement, same]
      exact follows_end _ (Nat.lt_trans shorter hrest) ahead

end group

end Trivariate.Parse.Cursor
