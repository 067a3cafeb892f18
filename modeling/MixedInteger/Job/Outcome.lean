import MixedInteger.Job.Description
import MixedInteger.Model.Result
import MixedInteger.Model.Setting

/-! What a run answers: statuses, and values and duals by name as far as the statuses
promise them. -/

namespace MixedInteger

structure Outcome (α : Type) where
  name : String
  termination : TerminationStatus
  raw : String
  primal : ResultStatus
  dual : ResultStatus
  objective : Option α := none
  bound : Option α := none
  gap : Option α := none
  seconds : α
  values : List (String × α) := []
  duals : List (String × α) := []

variable {α : Type} [Scalar α]

namespace Outcome

/-- Values of all variables; without a solution there are none. -/
def valuesOf (m : Model α) (declared : Declared) (primal : ResultStatus) :
    Except (Fault α) (List (String × α)) :=
  if primal = .noSolution then .ok []
  else declared.mapM fun e => do return (e.1, ← m.variablePrimal (.var e.2))

/-- The affine constraints of a model, grouped by their sets. -/
def rows (m : Model α) : List ConstraintIndex :=
  m.allConstraints.filter fun c => c.function = .scalarAffine

/-- Duals of the constraints that have a name; of two with one name the later counts. -/
def dualsOf (m : Model α) (dual : ResultStatus) : Except (Fault α) (List (String × α)) :=
  if dual = .feasiblePoint ∨ dual = .certificate then
    (rows m).foldlM (fun found c => do
      let name ← m.constraintName (.constraint c)
      if name.isEmpty then return found
      return setEntry name (← m.constraintDual (.constraint c)) found) []
  else .ok []

def collect (m : Model α) (declared : Declared) : Except (Fault α) (Outcome α) := do
  let primal ← m.primalStatus
  let dual ← m.dualStatus
  let termination ← m.terminationStatus
  let raw ← m.rawStatus
  let values ← valuesOf m declared primal
  let gap ← if m.last.bySearch then some <$> m.relativeGap else pure none
  return {
    name := m.problem.name
    termination := termination
    raw := raw
    primal := primal
    dual := dual
    objective := if primal = .feasiblePoint then some m.objectiveValue else none
    bound := if m.last.bySearch then some m.objectiveBound else none
    gap := gap
    seconds := m.last.seconds
    values := values
    duals := ← dualsOf m dual }

end Outcome

end MixedInteger
