import MixedInteger.Fault
import MixedInteger.Model.Registry
import MixedInteger.Problem.Query
import MixedInteger.Solver.Outcome

/-! A model and the problem beneath it. Variables are columns and affine constraints
are rows; both keep their identity when columns and rows are renumbered. A bound
or type constraint is no row: it is there when the state of its variable says
so, and its identity is the variable's. -/

namespace MixedInteger

inductive ObjectiveKind where
  | singleVariable
  | scalarAffine
deriving DecidableEq, Repr

def ObjectiveKind.text : ObjectiveKind → String
  | singleVariable => "SINGLE_VARIABLE"
  | scalarAffine => "SCALAR_AFFINE"

def ObjectiveKind.kind : ObjectiveKind → Kind
  | singleVariable => .singleVariable
  | scalarAffine => .scalarAffine

inductive ObjectiveSense where
  | minimize
  | maximize
  | feasibility
deriving DecidableEq, Repr

def ObjectiveSense.text : ObjectiveSense → String
  | minimize => "MIN"
  | maximize => "MAX"
  | feasibility => "FEASIBILITY"

def ObjectiveSense.ofText? : String → Option ObjectiveSense
  | "MIN" => some minimize
  | "MAX" => some maximize
  | "FEASIBILITY" => some feasibility
  | _ => none

/-- What is remembered of the last solve. -/
structure SolveRecord (α : Type) [Scalar α] where
  called : Bool := false
  code : ReturnCode := .done
  /-- The last solve was a search. -/
  bySearch : Bool := false
  objectiveBound : α := Scalar.nan
  relativeGap : α := Scalar.nan
  seconds : α := Scalar.nan
  /-- Shows that the problem is unbounded, by columns. -/
  ray : Option (List α) := none
  /-- Shows that the problem is infeasible, by rows. -/
  certificate : Option (List α) := none

structure Model (α : Type) [Scalar α] where
  presolve : Bool := false
  method : Method := .simplex
  stores : Parameter.Stores α := {}
  /-- Parameters as they were given. -/
  given : List (String × Value α) := []
  silent : Bool := false
  problem : Problem α := {}
  last : SolveRecord α := {}
  vars : Registry VariableInfo := {}
  affine : Registry (ConstraintInfo α) := {}
  variableNames : NameIndex (IndexArg α) := { kind := "variable" }
  constraintNames : NameIndex ConstraintIndex := { kind := "constraint" }
  binaries : Int := 0
  integers : Int := 0
  objectiveKind : ObjectiveKind := .scalarAffine
  feasibility : Bool := true

variable {α : Type} [Scalar α]

/-- Calls that change a model. What a call did before it failed stays. -/
abbrev Modelling (α : Type) [Scalar α] := EStateM (Fault α) (Model α)

/-- The constraint index among the arguments; other things have no function and no set. -/
def IndexArg.constraint? : IndexArg α → Except (Fault α) ConstraintIndex
  | .constraint c => .ok c
  | _ => .error .missingPart

namespace Model

def invalid {β : Type} (i : IndexArg α) : Except (Fault α) β := .error (.model (.invalidIndex i))

/-! ### Identities -/

/-- The variable of an index, or of the constraint on a single variable. -/
def info (m : Model α) (i : IndexArg α) : Except (Fault α) VariableInfo :=
  let found := match i with
    | .var v => m.vars.get? v.value
    | .constraint c => if c.function = .singleVariable then m.vars.get? c.value else none
    | .raw _ => none
  match found with
  | some info => .ok info
  | none => invalid i

def affineInfo (m : Model α) (c : ConstraintIndex) : Except (Fault α) (ConstraintInfo α) :=
  let found := if c.function = .scalarAffine then m.affine.get? c.value else none
  match found.filter fun info => info.set.kind = c.set with
  | some info => .ok info
  | none => invalid (.constraint c)

def carries (m : Model α) (c : ConstraintIndex) : Bool :=
  match c.function with
  | .singleVariable => ((m.vars.get? c.value).map fun info => info.carries c.set).getD false
  | .scalarAffine => ((m.affine.get? c.value).map fun info => info.set.kind == c.set).getD false
  | _ => false

def isValid (m : Model α) : IndexArg α → Bool
  | .var v => m.vars.contains v.value
  | .constraint c => m.carries c
  | .raw _ => false

/-- The variable of a live constraint on a single variable. -/
def liveInfo (m : Model α) (c : ConstraintIndex) : Except (Fault α) VariableInfo :=
  if m.carries c then m.info (.constraint c) else invalid (.constraint c)

/-- Columns and coefficients of a function in canonical form. -/
def rowOf (m : Model α) (f : AffineFunction α) : Except (Fault α) (List Int × List α) := do
  let terms := f.canonical.terms
  let columns ← terms.mapM fun t => do return ((← m.info (.var t.var)).column : Int)
  return (columns, terms.map (·.coefficient))

/-- Variables in the order of their columns. -/
def variableOf (m : Model α) (column : Nat) : VariableIndex :=
  ⟨m.vars.keys.getD (column - 1) 0⟩

def variableIndices (m : Model α) : List VariableIndex :=
  (m.vars.keys.mergeSort (· ≤ ·)).map fun (k : Nat) => ⟨k⟩

/-! ### The whole model -/

/-- Forgets everything but parameters and method. -/
def emptied (m : Model α) : Model α :=
  { presolve := m.presolve, method := m.method, stores := m.stores, given := m.given
    silent := m.silent }

def isEmpty (m : Model α) : Bool :=
  m.objectiveKind = .scalarAffine && m.feasibility && m.vars.size = 0 && m.affine.size = 0 &&
    !m.variableNames.built && !m.constraintNames.built && m.last.ray.isNone &&
    m.last.certificate.isNone

def described (m : Model α) : String :=
  s!"Optimizer({m.vars.size} variables, {m.affine.size} affine constraints, method=" ++
    m.method.text ++ ")"

def objectiveSense (m : Model α) : ObjectiveSense :=
  if m.feasibility then .feasibility
  else if m.problem.direction = .maximize then .maximize else .minimize

end Model

namespace Modelling

def ofExcept {β : Type} : Except (Fault α) β → Modelling α β
  | .ok b => pure b
  | .error e => throw e

/-- Reads the model. -/
def query {β : Type} (f : Model α → Except (Fault α) β) : Modelling α β := do
  ofExcept (f (← get))

/-- Changes the problem beneath the model. -/
def change (f : Problem α → Except (ProblemError α) (Problem α)) : Modelling α Unit := do
  let m ← get
  match f m.problem with
  | .ok p => set { m with problem := p }
  | .error e => throw (.problem e)

/-- Appends or edits a row. -/
def editRow {β : Type} (edit : RowEdit α β) : Modelling α β := do
  let m ← get
  match edit m.problem with
  | .ok b p =>
    set { m with problem := p }
    return b
  | .error e p =>
    set { m with problem := p }
    throw (.affineRow e)

def modifyInfo (v : Int) (f : VariableInfo → VariableInfo) : Modelling α Unit :=
  modify fun m => { m with vars := m.vars.modify v f }

/-- Counts a variable that takes on a type or gives it up. -/
def count (t : TypeState) (change : Int) : Modelling α Unit :=
  match t with
  | .binary => modify fun m => { m with binaries := m.binaries + change }
  | .integer => modify fun m => { m with integers := m.integers + change }
  | .continuous => pure ()

/-- Writes bounds of a column; an absent one stays. Crossed bounds are let through. -/
def setVariableBound (column : Nat) (c : BoundChange α) : Modelling α Unit := do
  let m ← get
  match m.problem.column column with
  | .error e => throw (.problem e)
  | .ok col =>
    let lower := c.lower.getD col.lower
    let upper := c.upper.getD col.upper
    let write (p : Problem α) := p.setColumnBounds column (boundKind lower upper) lower upper
    if upper < lower then change fun p => p.leniently write else change write

end Modelling

end MixedInteger
