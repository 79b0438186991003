/-
  Trivariate.Session
  ──────────────────
  **SESSIONS OF NUMBERED SLOTS.**

  A session is a list of steps.  Step number `i` owns slot `i`: a step that
  builds an expression keeps it there, and any other step, or one that fails,
  leaves its slot empty.  Later steps name expressions by their slots.  A
  failing step stops nothing; every step has its own answer.
-/
import Trivariate.Expr.Diff
import Trivariate.Expr.Eval
import Trivariate.Expr.Render
import Trivariate.Parse

namespace Trivariate.Session

/-! ## §1. Steps. -/

/-- A way to build an expression. -/
inductive Recipe where
  | const (value : Float)
  | var (name : String)
  /-- A node whose operand count is checked. -/
  | checked (token : String) (args : List Nat)
  /-- A node with any operand count. -/
  | unchecked (token : String) (args : List Nat)
  /-- A node of an operation that is known to fit. -/
  | node (op : Op) (args : List Nat)
  | parse (n : Notation) (text : String)
  /-- The text of a slot, read again in the notation it is written in. -/
  | reparse (slot : Nat) (n : Notation)
  | diff (slot : Nat) (name : String)
  | operand (slot : Nat) (index : Nat)

/-- A question about the expressions in slots. -/
inductive Query where
  | value (slot : Nat) (p : Point Float)
  | values (slot : Nat) (points : List (Point Float))
  | text (slot : Nat) (n : Notation)
  | shape (slot : Nat)
  | equal (left right : Nat)

inductive Step where
  | build (recipe : Recipe)
  | ask (query : Query)

/-- Why a step has no answer of its own kind. -/
inductive Fault where
  | noSuchSlot
  | noSuchOperand
  | unknownToken
  | arityMismatch (fault : ArityMismatch)
  | unknownVariable (fault : UnknownVariable)
  | unparsable (fault : ParseError)

/-- What a step answers. -/
inductive Answer where
  | built (e : Expr)
  | value (x : Float)
  | values (xs : List Float)
  | text (s : String)
  | shape (op? : Option Op) (operands size depth : Nat)
  | equal (holds : Bool)
  | fault (f : Fault)

/-! ## §2. Slots. -/

/-- The slots of the steps run so far. -/
abbrev Slots := Array (Option Expr)

def Slots.get (slots : Slots) (i : Nat) : Except Fault Expr :=
  match slots[i]? with
  | some (some e) => .ok e
  | _ => .error .noSuchSlot

def Slots.getEach (slots : Slots) (is : List Nat) : Except Fault (List Expr) :=
  is.mapM slots.get

/-! ## §3. Running. -/

def readOp (token : String) : Except Fault Op :=
  match Op.ofToken? token with
  | some op => .ok op
  | none => .error .unknownToken

def readVar (name : String) : Except Fault Var :=
  (Var.read name).mapError .unknownVariable

def readText (n : Notation) (text : String) : Except Fault Expr :=
  (Trivariate.parse n text).mapError .unparsable

/-- The expression that a recipe builds from the slots. -/
def Recipe.build (slots : Slots) : Recipe → Except Fault Expr
  | .const value => .ok (.const value)
  | .var name => (readVar name).map .var
  | .checked token args => do
      let op ← readOp token
      let operands ← slots.getEach args
      (Expr.build? op operands).mapError .arityMismatch
  | .unchecked token args => do
      let op ← readOp token
      let operands ← slots.getEach args
      .ok (.node op operands)
  | .node op args => (slots.getEach args).map (.node op)
  | .parse n text => readText n text
  | .reparse slot n => do
      let e ← slots.get slot
      readText n (e.render n)
  | .diff slot name => do
      let e ← slots.get slot
      let v ← readVar name
      .ok (e.diff v)
  | .operand slot index => do
      let e ← slots.get slot
      match e.operands[index]? with
      | some d => .ok d
      | none => .error .noSuchOperand

/-- The answer to a question about the slots. -/
def Query.answer (slots : Slots) : Query → Except Fault Answer
  | .value slot p => (slots.get slot).map fun e => .value (e.evaluate p)
  | .values slot points =>
      (slots.get slot).map fun e => .values (e.evaluateMany points)
  | .text slot n => (slots.get slot).map fun e => .text (e.render n)
  | .shape slot =>
      (slots.get slot).map fun e =>
        .shape e.op? e.operands.length e.size e.depth
  | .equal left right => do
      let e ← slots.get left
      let d ← slots.get right
      .ok (.equal (e == d))

/-- What a step puts into its slot, and its answer. -/
def Step.run (slots : Slots) : Step → Option Expr × Answer
  | .build recipe =>
      match recipe.build slots with
      | .ok e => (some e, .built e)
      | .error f => (none, .fault f)
  | .ask query =>
      match query.answer slots with
      | .ok a => (none, a)
      | .error f => (none, .fault f)

/-- The answers of the steps, when these slots are filled already. -/
def answersFrom (slots : Slots) : List Step → List Answer
  | [] => []
  | step :: steps =>
      let (kept, answer) := step.run slots
      answer :: answersFrom (slots.push kept) steps

/-- The answers of a session. -/
def answers (steps : List Step) : List Answer :=
  answersFrom #[] steps

end Trivariate.Session
