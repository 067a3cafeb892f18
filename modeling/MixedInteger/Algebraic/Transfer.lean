import MixedInteger.Algebraic.Basic
import MixedInteger.Model.Constraint
import MixedInteger.Model.Objective
import MixedInteger.Model.Variable
import MixedInteger.Job.Outcome
import MixedInteger.Journal

/-! Algebraic models as models of variables and constraints, and solutions on the way
back. The constant of a body moves to the bounds; a constraint with two different
bounds becomes two rows, which are named after it. -/

namespace MixedInteger

/-- Where the parts of an algebraic model went. -/
structure Correspondence where
  vars : Declared := []
  /-- The rows of each active constraint. -/
  rows : List (String × List ConstraintIndex) := []

namespace Algebraic

open Modelling

variable {E α : Type} [Scalar α]

/-! ### Variables -/

/-- A fixed variable must have a value. -/
def fixedValue (v : Variable α) : Modelling α α :=
  match v.value with
  | some x => pure x
  | none => throw (.conversion .invalid)

def constrain (x : VariableIndex) (s : ScalarSet α) : Modelling α Unit := do
  let _ ← addConstraint (.single x) (.set s)

def addDomain (x : VariableIndex) (v : Variable α) : Modelling α Unit := do
  if v.fixed then constrain x (.equalTo (← fixedValue v))
  else
    if let some l := v.lower then constrain x (.greaterThan l)
    if let some u := v.upper then constrain x (.lessThan u)
  if v.binary then constrain x .zeroOne
  else if v.integer then constrain x .integer

def declare (declared : Declared) (v : Variable α) : Modelling α Declared := do
  let x ← addVariable
  setVariableName (.var x) v.name
  addDomain x v
  return declared ++ [(v.name, x)]

/-! ### Constraints and objective -/

def linear (a : Report E α) (what name : String) (e : E) : Modelling α (LinearForm α) :=
  match a.linear? e with
  | some f => pure f
  | none => throw (.notImported (.notLinear what name))

def termsOf (declared : Declared) (f : LinearForm α) : Modelling α (List (Term α)) :=
  f.terms.mapM fun t =>
    match declared.lookup t.2 with
    | some x => pure ⟨t.1, x⟩
    | none => throw .missingKey

/-- The sets that the body lies in, without its constant. An equality must have its bound. -/
def rowSets (r : Row E α) (constant : α) : Modelling α (List (ScalarSet α)) :=
  if r.equality then
    match r.upper with
    | some u => pure [.equalTo (u - constant)]
    | none => throw (.conversion .kind)
  else
    pure ((r.lower.map fun l => .greaterThan (l - constant)).toList ++
      (r.upper.map fun u => .lessThan (u - constant)).toList)

/-- Names of the rows of a constraint. -/
def rowNames (name : String) (count : Nat) : List String :=
  if count = 1 then [name] else [name ++ "_lb", name ++ "_ub"]

def addRow (a : Report E α) (declared : Declared) (r : Row E α) :
    Modelling α (String × List ConstraintIndex) := do
  let f ← linear a "constraint" r.name r.body
  let terms ← termsOf declared f
  let sets ← rowSets r f.constant
  let indices ← sets.mapM fun s => addConstraint (.affine ⟨terms, 0⟩) (.set s)
  for (c, name) in indices.zip (rowNames r.name indices.length) do
    setConstraintName (.constraint c) name
  return (r.name, indices)

def setGoal (a : Report E α) (declared : Declared) : Modelling α Unit := do
  match a.objectives.filter (·.active) with
  | [] => setObjectiveSense .feasibility
  | [o] =>
    let f ← linear a "objective" o.name o.body
    setObjective (.affine ⟨← termsOf declared f, f.constant⟩)
    setObjectiveSense (if o.maximize then .maximize else .minimize)
  | os => throw (.notImported (.objectives a.name os.length))

/-- Replaces the model by an algebraic one. -/
def transfer (a : Report E α) : Modelling α Correspondence := do
  modify Model.emptied
  modify fun m => { m with problem := { m.problem with name := a.name } }
  let declared ← a.vars.foldlM declare []
  let rows ← (a.rows.filter (·.active)).mapM (addRow a declared)
  setGoal a declared
  return ⟨declared, rows⟩

/-- The transfer, told about. -/
def transferNotice (a : Report E α) (c : Correspondence) : Notice α :=
  .imported c.vars.length c.rows.length a.name

/-! ### Solutions -/

/-- Values of the variables that are not fixed, and duals of constraints. -/
structure Solution (α : Type) where
  values : List (String × α)
  /-- Absent where the solve has no duals; a constraint without rows has none. -/
  duals : Option (List (String × Option α)) := none

def valuesOf (a : Report E α) (m : Model α) (c : Correspondence) :
    Except (Fault α) (List (String × α)) :=
  let free := (a.vars.zip c.vars).filter fun e => !e.1.fixed
  free.mapM fun e => do return (e.1.name, ← m.variablePrimal (.var e.2.2))

/-- The dual of a constraint is the sum over its rows. -/
def dualOf (m : Model α) (indices : List ConstraintIndex) : Except (Fault α) (Option α) := do
  let duals ← indices.mapM fun c => m.constraintDual (.constraint c)
  return if duals.isEmpty then none else some (Scalar.sum duals)

/-- The solution of a solve that found a feasible point. -/
def solution? (a : Report E α) (wantsDuals : Bool) (m : Model α) (c : Correspondence) :
    Except (Fault α) (Option (Solution α)) := do
  if (← m.primalStatus) ≠ .feasiblePoint then return none
  let values ← valuesOf a m c
  if wantsDuals && (← m.dualStatus) = .feasiblePoint then
    let duals ← c.rows.mapM fun r => do return (r.1, ← dualOf m r.2)
    return some ⟨values, some duals⟩
  return some ⟨values, none⟩

end Algebraic

end MixedInteger
