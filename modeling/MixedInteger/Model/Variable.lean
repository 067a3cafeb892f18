import MixedInteger.Model.State

/-! Variables of a model. -/

namespace MixedInteger

variable {α : Type} [Scalar α]

namespace Modelling

/-- A free variable in a column that is there already. -/
def registerVariable (column : Nat) : Modelling α VariableIndex := do
  let m ← get
  let (vars, key) := m.vars.add ⟨⟨0⟩, 0, .none, .continuous, "", "", "", ""⟩
  let v : VariableIndex := ⟨key⟩
  set { m with
    vars := vars.modify key fun info => { info with index := v, column := column } }
  change fun p => p.setColumnBounds column .free 0 0
  return v

def addVariable : Modelling α VariableIndex := do
  change fun p => (p.addColumns 1).map (·.1)
  registerVariable ((← get).vars.size + 1)

def addVariables (n : Int) : Modelling α (List VariableIndex) := do
  if n ≤ 0 then return []
  let first := (← get).vars.size + 1
  change fun p => (p.addColumns n).map (·.1)
  (List.range n.toNat).mapM fun i => registerVariable (first + i)

/-- The columns after the deleted one move down. -/
def deleteVariable (v : VariableIndex) : Modelling α Unit := do
  let info ← query (·.info (.var v))
  modify fun m => { m with problem := m.problem.forgetBasis }
  change fun p => p.deleteColumns [(info.column : Int)]
  let named := [info.upperName, info.lowerName, info.typeName].any (· != "")
  if named then modify fun m => { m with constraintNames := m.constraintNames.invalidate }
  modify fun m => { m with variableNames := m.variableNames.update info.name "" (.var v) }
  count info.type (-1)
  modify fun m =>
    match m.vars.delete? v.value with
    | none => m
    | some (rest, _) =>
      let close (other : VariableInfo) : VariableInfo :=
        if info.column < other.column then { other with column := other.column - 1 } else other
      { m with vars := rest.mapValues close }

/-! ### Names -/

def setVariableName (i : IndexArg α) (name : String) : Modelling α Unit := do
  let info ← query (·.info i)
  modifyInfo info.index.value fun info => { info with name := name }
  if name ≠ "" then change fun p => p.setColumnName info.column name
  modify fun m => { m with variableNames := m.variableNames.update info.name name i }

def scanVariableNames (m : Model α) : List (String × IndexArg α) :=
  m.vars.entries.map fun e => (e.2.name, .var ⟨e.1⟩)

def variableByName (name : String) : Modelling α (Option (IndexArg α)) := do
  let m ← get
  let (found, names) := m.variableNames.lookup (scanVariableNames m) name
  set { m with variableNames := names }
  match found with
  | .ok i => return i
  | .error d => throw (.duplicate d)

end Modelling

def Model.variableName (m : Model α) (i : IndexArg α) : Except (Fault α) String := do
  return (← m.info i).name

end MixedInteger
