import MixedInteger.Model.Constraint
import MixedInteger.Model.Objective

/-! Copies of models. Variables and constraints get new identities in the order of
the old ones. -/

namespace MixedInteger

variable {α : Type} [Scalar α]

/-- Old and new identities, variables first. -/
structure IndexMap where
  vars : List (VariableIndex × VariableIndex) := []
  constraints : List (ConstraintIndex × ConstraintIndex) := []
deriving Repr

namespace IndexMap

def var (map : IndexMap) (v : VariableIndex) : Except (Fault α) VariableIndex :=
  match map.vars.lookup v with
  | some w => .ok w
  | none => .error .missingKey

/-- A function over the new variables. -/
def function (map : IndexMap) : Function α → Except (Fault α) (FunctionArg α)
  | .single v => do return .single (← map.var v)
  | .affine f => do
    let terms ← f.terms.mapM fun t => do return ⟨t.coefficient, ← map.var t.var⟩
    return .affine ⟨terms, f.constant⟩

end IndexMap

namespace Modelling

def copyVariable (source : Model α) (map : IndexMap) (v : VariableIndex) :
    Modelling α IndexMap := do
  let new ← addVariable
  let name ← ofExcept (source.variableName (.var v))
  if name ≠ "" then setVariableName (.var new) name
  return { map with vars := map.vars ++ [(v, new)] }

def copyConstraint (source : Model α) (map : IndexMap) (c : ConstraintIndex) :
    Modelling α IndexMap := do
  let f ← ofExcept (source.constraintFunction (.constraint c))
  let f ← ofExcept (map.function f)
  let set ← ofExcept (source.constraintSet (.constraint c))
  let new ← addConstraint f (.set set)
  let name ← ofExcept (source.constraintName (.constraint c))
  if name ≠ "" then setConstraintName (.constraint new) name
  return { map with constraints := map.constraints ++ [(c, new)] }

/-- Replaces the model by a copy of another one. -/
def copyFrom (source : Model α) : Modelling α IndexMap := do
  modify Model.emptied
  let map ← source.variableIndices.foldlM (copyVariable source) {}
  let map ← source.allConstraints.foldlM (copyConstraint source) map
  setObjectiveSense source.objectiveSense
  let f := source.objective
  setObjective (← ofExcept (map.function f))
  match f with
  | .single _ => pure ()
  | .affine _ => modify fun m => { m with objectiveKind := source.objectiveKind }
  modify fun m => { m with problem := { m.problem with name := source.problem.name } }
  return map

/-- A model copied onto itself is emptied first and is then its own source. -/
def copyFromSelf : Modelling α IndexMap := do copyFrom (← get).emptied

end Modelling

end MixedInteger
