/-
  Trivariate.Variable
  ───────────────────
  **THE THREE VARIABLES.**

  Expressions are over `x`, `y` and `z`.  A point gives each of them a value;
  names are matched exactly, with no blanks and no other letter case.
-/

namespace Trivariate

/-! ## §1. Names. -/

/-- A variable of an expression. -/
inductive Var where
  | x
  | y
  | z
  deriving Repr, DecidableEq

def Var.all : List Var := [.x, .y, .z]

def Var.name : Var → String
  | .x => "x"
  | .y => "y"
  | .z => "z"

/-- The variable of a name. -/
def Var.ofName? (name : String) : Option Var :=
  Var.all.find? (·.name = name)

theorem Var.ofName?_eq_some {name : String} {v : Var} :
    Var.ofName? name = some v ↔ v.name = name := by
  constructor
  · intro h
    simpa using List.find?_some h
  · rintro rfl
    cases v <;> decide

/-! ## §2. A name that is none. -/

/-- A text that names no variable. -/
structure UnknownVariable where
  name : String
  deriving Repr, DecidableEq

def UnknownVariable.message (fault : UnknownVariable) : String :=
  s!"Unknown variable '{fault.name}', expected one of x, y, z"

/-- The variable of a name, or the fault that says it is none. -/
def Var.read (name : String) : Except UnknownVariable Var :=
  match Var.ofName? name with
  | some v => .ok v
  | none => .error ⟨name⟩

/-! ## §3. Points. -/

/-- A value for each variable. -/
structure Point (α : Type) where
  x : α
  y : α
  z : α
  deriving Repr

/-- The value of a variable at a point. -/
def Point.get {α : Type} (p : Point α) : Var → α
  | .x => p.x
  | .y => p.y
  | .z => p.z

end Trivariate
