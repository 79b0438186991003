/-
  Trivariate.CommandLine.Arguments
  ────────────────────────────────
  **READING THE ARGUMENTS.**

  Arguments are read from left to right.  What an argument gives, the
  expression or an option's value, takes effect when the next option or
  expression begins, or at the end; so of two faults the one whose option
  began first is reported, except that an argument that is no option at all
  is reported at once.

  A value follows its option, as the next argument or behind an equals sign;
  behind a letter it may follow directly.  Two hyphens alone end the options.
  The next argument is a point's value whatever it looks like, for points may
  begin with a minus sign.
-/
import Trivariate.CommandLine.Config

namespace Trivariate.CommandLine

/-! ## §1. What has been read. -/

/-- What an argument gave that has not taken effect yet. -/
inductive Pending where
  | nothing
  | expression (text : String)
  /-- An option whose value comes next. -/
  | option (key : Key)
  | value (key : Key) (text : String)
  deriving Repr, DecidableEq

/-- Why reading stops before there is a run. -/
inductive Stop where
  | asked (flag : Flag)
  | misuse (fault : UsageError)
  deriving Repr, DecidableEq

/-- The settings given so far, what is to take effect next, and whether the
options have ended. -/
structure Reader where
  draft : Draft
  pending : Pending
  optionsEnded : Bool

namespace Reader

/-- Nothing has been read. -/
def start : Reader := ⟨.empty, .nothing, false⟩

/-- Let what is pending take effect. -/
def settle (r : Reader) : Except Stop Draft :=
  match r.pending with
  | .nothing => .ok r.draft
  | .expression text => .ok { r.draft with expression? := some text }
  | .option key => .error (.misuse (.missingValue key))
  | .value key text => (r.draft.set key text).mapError .misuse

/-! ## §2. One argument. -/

/-- After a flag nothing else is read. -/
def flag (r : Reader) (flag : Flag) : Except Stop Reader := do
  let _ ← r.settle
  .error (.asked flag)

/-- An option whose value is still to come. -/
def option (r : Reader) (key : Key) : Except Stop Reader := do
  let draft ← r.settle
  .ok { r with draft, pending := .option key }

/-- An option with its value in the same argument. -/
def attached (r : Reader) (key : Key) (value : String) : Except Stop Reader := do
  let draft ← r.settle
  let draft ← (draft.set key value).mapError .misuse
  .ok { r with draft, pending := .nothing }

/-- Whether the expression has been given. -/
def hasExpression (r : Reader) : Bool :=
  match r.pending with
  | .expression _ => true
  | _ => r.draft.expression?.isSome

/-- An argument that is no option: the expression, of which there is one. -/
def expression (r : Reader) (arg : String) : Except Stop Reader :=
  if r.hasExpression then .error (.misuse (.unknownArgument arg))
  else do
    let draft ← r.settle
    .ok { r with draft, pending := .expression arg }

/-- An argument of two hyphens and `body`: a name, and perhaps an equals sign
and a value. -/
def long (r : Reader) (arg : String) (body : List Char) :
    Except Stop Reader :=
  let name := String.ofList (body.takeWhile (· != '='))
  let value? :=
    match body.dropWhile (· != '=') with
    | [] => none
    | _ :: value => some (String.ofList value)
  match Flag.ofLong? name, Key.ofLong? name, value? with
  | some flag, _, none => r.flag flag
  | some flag, _, some value => .error (.misuse (.unexpectedValue flag value))
  | none, some key, none => r.option key
  | none, some key, some value => r.attached key value
  | none, none, _ => .error (.misuse (.unknownArgument arg))

/-- An argument of one hyphen, a letter and `rest`: an option's value, if
there is any, perhaps behind an equals sign. -/
def short (r : Reader) (arg : String) (letter : Char) (rest : List Char) :
    Except Stop Reader :=
  match Flag.ofShort? letter, Key.ofShort? letter, rest with
  | some flag, _, _ => r.flag flag
  | none, some key, [] => r.option key
  | none, some key, '=' :: value => r.attached key (String.ofList value)
  | none, some key, value => r.attached key (String.ofList value)
  | none, none, _ => .error (.misuse (.unknownArgument arg))

/-- The reader after one more argument. -/
def next (r : Reader) (arg : String) : Except Stop Reader :=
  if r.optionsEnded then r.expression arg
  else
    match r.pending, arg.toList with
    | .option .point, _ => .ok { r with pending := .value .point arg }
    | _, ['-', '-'] => .ok { r with optionsEnded := true }
    | _, '-' :: '-' :: body => r.long arg body
    | _, '-' :: letter :: rest => r.short arg letter rest
    | .option key, _ => .ok { r with pending := .value key arg }
    | _, _ => r.expression arg

end Reader

/-! ## §3. All arguments. -/

/-- The run that the arguments ask for. -/
def Config.ofArguments (args : List String) : Except Stop Config := do
  let r ← args.foldlM Reader.next .start
  let draft ← r.settle
  draft.config.mapError .misuse

end Trivariate.CommandLine
