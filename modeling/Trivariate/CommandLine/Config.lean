/-
  Trivariate.CommandLine.Config
  ─────────────────────────────
  **WHAT A RUN IS ASKED TO DO.**

  The settings of one run, the options that choose them, and what can be
  wrong with an option's value.  An option has one value; only points may be
  given more than once.
-/
import Trivariate.CommandLine.Coordinates
import Trivariate.Notation

namespace Trivariate.CommandLine

/-! ## §1. Log levels. -/

/-- How much a run reports on its own working. -/
inductive LogLevel where
  | error
  | warn
  | info
  | debug
  | trace
  deriving Repr, DecidableEq

def LogLevel.all : List LogLevel := [.error, .warn, .info, .debug, .trace]

def LogLevel.name : LogLevel → String
  | .error => "error"
  | .warn => "warn"
  | .info => "info"
  | .debug => "debug"
  | .trace => "trace"

/-- The level in capitals, as log lines show it. -/
def LogLevel.label (level : LogLevel) : String :=
  level.name.toUpper

/-- The level of a name, which is in small letters. -/
def LogLevel.ofName? (name : String) : Option LogLevel :=
  LogLevel.all.find? (·.name = name)

/-! ## §2. Options. -/

/-- An option that takes a value. -/
inductive Key where
  /-- The notation of the expression. -/
  | input
  /-- The variable to differentiate by. -/
  | diff
  /-- The notation of the result. -/
  | output
  /-- A point to evaluate at. -/
  | point
  | logLevel
  deriving Repr, DecidableEq

def Key.all : List Key := [.input, .diff, .output, .point, .logLevel]

/-- The option's name behind two hyphens. -/
def Key.long : Key → String
  | .input => "notation"
  | .diff => "diff"
  | .output => "output"
  | .point => "at"
  | .logLevel => "log-level"

/-- The option's letter behind one hyphen. -/
def Key.short : Key → Char
  | .input => 'n'
  | .diff => 'd'
  | .output => 'o'
  | .point => 'a'
  | .logLevel => 'l'

def Key.ofLong? (name : String) : Option Key :=
  Key.all.find? (·.long = name)

def Key.ofShort? (letter : Char) : Option Key :=
  Key.all.find? (·.short = letter)

/-- What a run is asked for in place of a result. -/
inductive Flag where
  | help
  | version
  deriving Repr, DecidableEq

def Flag.ofLong? : String → Option Flag
  | "help" => some .help
  | "version" => some .version
  | _ => none

def Flag.ofShort? : Char → Option Flag
  | 'h' => some .help
  | 'V' => some .version
  | _ => none

/-! ## §3. Misuse. -/

/-- Why arguments are not a run. -/
inductive UsageError where
  | missingExpression
  /-- An argument that is no option, or a second expression. -/
  | unknownArgument (arg : String)
  /-- An option that ends without its value. -/
  | missingValue (key : Key)
  /-- A value that is not one of the option's names. -/
  | invalidValue (key : Key) (value : String)
  /-- A flag that is given a value. -/
  | unexpectedValue (flag : Flag) (value : String)
  /-- An option given twice. -/
  | repeated (key : Key)
  | badVariable (fault : UnknownVariable)
  | badPoint (fault : PointFault)
  deriving Repr, DecidableEq

/-- One line on what is wrong.  Of these only what is said of a variable's name
and of a point is the program's text.  The other lines are not: the program
leaves them to a package that reads its arguments, whose wording is not given
here, and the words below are made up. -/
def UsageError.message : UsageError → String
  | .missingExpression => "an expression is required"
  | .unknownArgument arg => s!"unexpected argument '{arg}'"
  | .missingValue key => s!"a value is required for '--{key.long}'"
  | .invalidValue key value => s!"invalid value '{value}' for '--{key.long}'"
  | .unexpectedValue _ value => s!"unexpected value '{value}'"
  | .repeated key => s!"the option '--{key.long}' was given twice"
  | .badVariable fault => fault.message
  | .badPoint fault => fault.message

/-! ## §4. Settings. -/

/-- The settings of a run. -/
structure Config where
  expression : String
  input : Notation
  output : Notation
  diff? : Option Var
  points : List (Point Float)
  logLevel : LogLevel

/-- The settings given so far. -/
structure Draft where
  expression? : Option String
  input? : Option Notation
  output? : Option Notation
  diff? : Option Var
  /-- In the order in which they were given. -/
  points : List (Point Float)
  logLevel? : Option LogLevel

namespace Draft

/-- Nothing is given. -/
def empty : Draft := ⟨none, none, none, none, [], none⟩

/-- The value of an option that may be given once. -/
def once {α : Type} (key : Key) (given : Option α)
    (read : Except UsageError α) : Except UsageError (Option α) :=
  match given with
  | some _ => .error (.repeated key)
  | none => read.map some

/-- The value that `found` is, which must be one of an option's names. -/
def named {α : Type} (key : Key) (value : String) (found : Option α) :
    Except UsageError α :=
  match found with
  | some a => .ok a
  | none => .error (.invalidValue key value)

/-- The settings after one more option.  That an option is given twice is
found before its value is read. -/
def set (d : Draft) (key : Key) (value : String) : Except UsageError Draft :=
  match key with
  | .input =>
      (once key d.input? (named key value (Notation.ofName? value))).map
        fun input? => { d with input? }
  | .output =>
      (once key d.output? (named key value (Notation.ofName? value))).map
        fun output? => { d with output? }
  | .diff =>
      (once key d.diff? ((Var.read value).mapError .badVariable)).map
        fun diff? => { d with diff? }
  | .logLevel =>
      (once key d.logLevel? (named key value (LogLevel.ofName? value))).map
        fun logLevel? => { d with logLevel? }
  | .point =>
      ((Point.read value).mapError .badPoint).map
        fun p => { d with points := d.points ++ [p] }

/-- The settings of the run: what is not given has its default, the operation
first for the expression, the same notation for the result, and warnings. -/
def config (d : Draft) : Except UsageError Config :=
  match d.expression? with
  | none => .error .missingExpression
  | some expression =>
      let input := d.input?.getD .operationFirst
      .ok ⟨expression, input, d.output?.getD input, d.diff?, d.points,
        d.logLevel?.getD .warn⟩

end Draft

end Trivariate.CommandLine
