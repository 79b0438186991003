/-
  Trivariate.Parse.Grouped
  ────────────────────────
  **GROUPED TEXT.**

  A grouped text is one leaf or one group; a group is an opening parenthesis,
  its items and a closing one.  Exactly one item of a group is an operation,
  wherever it stands, and the others are its operands, leaves or groups.  So
  one grammar reads both grouped notations.

  The words are read in order against the groups that are open.  Outside of
  groups a word must be a leaf, for an operation alone is no expression; named
  constants belong to flat text alone.
-/
import Trivariate.Parse.Error
import Trivariate.Parse.Leaf
import Trivariate.Text.Token

namespace Trivariate.Parse.Grouped

open Trivariate.Text (Token scan)

/-! ## §1. Groups. -/

/-- A group that is not closed yet: where it opens, its operation if it has
been read, and the operands read so far, the last one first. -/
structure Group where
  start : Nat
  op? : Option Op
  operands : List Expr

/-- The group that opens at `start`. -/
def Group.opened (start : Nat) : Group := ⟨start, none, []⟩

/-- The group with one more operand. -/
def Group.push (g : Group) (e : Expr) : Group :=
  { g with operands := e :: g.operands }

/-- The node of a group that is closed now. -/
def Group.close (g : Group) : Except ParseError Expr :=
  match g.op? with
  | none => .error (.missingOperation g.start)
  | some op =>
      match Expr.build? op g.operands.reverse with
      | .ok e => .ok e
      | .error fault => .error (.arityMismatch fault g.start)

/-- The group after a word that is no parenthesis. -/
def Group.read (g : Group) (t : Token) : Except ParseError Group :=
  match Op.ofToken? t.text, g.op?, leaf? t.text with
  | some op, some _, _ => .error (.duplicateOperation op t.offset)
  | some op, none, _ => .ok { g with op? := some op }
  | none, _, some leaf => .ok (g.push leaf)
  | none, _, none => .error (.invalidElement t.text t.offset)

/-! ## §2. One word. -/

/-- How far a text has been read. -/
inductive Progress where
  /-- Nothing yet. -/
  | start
  /-- Inside a group, which is inside the outer ones, innermost first. -/
  | inside (group : Group) (outer : List Group)
  /-- The expression is complete. -/
  | done (e : Expr)

/-- What is read after the expression `e` is complete inside `outer`. -/
def Progress.after (e : Expr) : List Group → Progress
  | [] => .done e
  | g :: outer => .inside (g.push e) outer

/-- What is read after one more word. -/
def step : Progress → Token → Except ParseError Progress
  | .start, t =>
      if t.text = "(" then .ok (.inside (.opened t.offset) [])
      else if t.text = ")" then .error (.emptyInput t.offset)
      else
        match leaf? t.text with
        | some leaf => .ok (.done leaf)
        | none => .error (.invalidElement t.text t.offset)
  | .inside g outer, t =>
      if t.text = "(" then .ok (.inside (.opened t.offset) (g :: outer))
      else if t.text = ")" then g.close.map (.after · outer)
      else (g.read t).map (.inside · outer)
  | .done _, t => .error (.trailingInput t.offset)

/-! ## §3. The whole text. -/

/-- The result of a text of `length` bytes that has been read so far. -/
def finish (length : Nat) : Progress → Except ParseError Expr
  | .start => .error (.emptyInput length)
  | .inside g _ => .error (.unclosedGroup g.start)
  | .done e => .ok e

/-- Parentheses are words of their own. -/
def isParenthesis (c : Char) : Bool := c == '(' || c == ')'

/-- The words of a grouped text. -/
def words (text : String) : List Token :=
  scan isParenthesis text

/-- The expression that a grouped text spells. -/
def parse (text : String) : Except ParseError Expr := do
  let progress ← (words text).foldlM step .start
  finish text.utf8ByteSize progress

end Trivariate.Parse.Grouped
