import MixedInteger.Model.State

/-! The objective of a model. -/

namespace MixedInteger

variable {α : Type} [Scalar α]

namespace Modelling

def setObjectiveSense (sense : ObjectiveSense) : Modelling α Unit :=
  modify fun m => { m with
    problem := { m.problem with
      direction := if sense = .maximize then .maximize else .minimize }
    feasibility := sense = .feasibility }

/-- As `setObjectiveSense`, by name. -/
def setObjectiveSenseByName : Value α → Modelling α Unit
  | .text s =>
    match ObjectiveSense.ofText? s with
    | some sense => setObjectiveSense sense
    | none => throw .unknownWord
  | _ => throw .unknownWord

/-- Sums the coefficients of each column. -/
def costs (m : Model α) (f : AffineFunction α) : Except (Fault α) (List α) :=
  f.terms.foldlM
    (fun costs t => do
      let info ← m.info (.var t.var)
      return costs.modify (info.column - 1) (· + t.coefficient))
    (List.replicate m.problem.columnCount 0)

def setAffineObjective (kind : ObjectiveKind) (f : AffineFunction α) : Modelling α Unit := do
  let costs ← query fun m => costs m f
  modify fun m => { m with
    problem := { m.problem with
      columns := List.zipWith (fun c cost => { c with cost := cost }) m.problem.columns costs
      constant := f.constant }
    objectiveKind := kind }

def setObjective : FunctionArg α → Modelling α Unit
  | .var v | .single v => setAffineObjective .singleVariable ⟨[⟨1, v⟩], 0⟩
  | .affine f => setAffineObjective .scalarAffine f
  | f => throw (.unsupported (.objective f.kind.name))

def modifyObjectiveCoefficient (v : IndexArg α) (value : α) : Modelling α Unit := do
  let info ← query (·.info v)
  change fun p => p.setCost info.column value

def modifyObjectiveConstant (value : α) : Modelling α Unit := change fun p => p.setCost 0 value

end Modelling

namespace Model

def affineObjective (m : Model α) : AffineFunction α :=
  let terms := m.problem.numberedColumns.filter fun e => !(e.2.cost == 0)
  ⟨terms.map fun e => ⟨e.2.cost, m.variableOf e.1⟩, m.problem.constant⟩

/-- A single variable is answered as such when it was set as such. -/
def objective (m : Model α) : Function α :=
  let f := m.affineObjective
  match m.objectiveKind, f.terms with
  | .singleVariable, [t] =>
    if t.coefficient == 1 && f.constant == 0 then .single t.var else .affine f
  | _, _ => .affine f

end Model

end MixedInteger
