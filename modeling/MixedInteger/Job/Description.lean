import MixedInteger.Data.Value
import MixedInteger.Data.Mapping
import MixedInteger.Model.Constraint
import MixedInteger.Model.Objective
import MixedInteger.Model.Variable
import MixedInteger.Text.Case

/-! Models described by data: variables with bounds or a fixed value and a type,
constraints and an objective with terms by variable name, and a sense. An absent
part has its default; entries are taken in order, and the first one that is at fault
ends the building. -/

namespace MixedInteger

/-- Declared variables by name, in order. -/
abbrev Declared := List (String × VariableIndex)

variable {α : Type} [Scalar α]

namespace Description

open Modelling

def refuse {β : Type} (e : FormatError α) : Modelling α β := throw (.format e)

def number (v : Value α) : Modelling α α :=
  match v.toReal with
  | .ok x => pure x
  | .error e => throw (.conversion e)

/-- The entries of a list, if there is anything in it. -/
def entries (v : Value α) : Modelling α (List (Value α)) :=
  if !v.truthy then pure []
  else match v.elements? with
    | some xs => pure xs
    | none => throw .wrongKind

/-- A mapping, if there is anything in it. -/
def mapping (v : Value α) : Modelling α (List (Value α × Value α)) :=
  if !v.truthy then pure []
  else match v with
    | .map es => pure es
    | _ => throw .missingPart

/-! ### Variables -/

inductive VariableType where
  | continuous
  | integer
  | binary
deriving DecidableEq, Repr

def VariableType.ofText? : String → Option VariableType
  | "continuous" => some continuous
  | "integer" => some integer
  | "binary" => some binary
  | _ => none

/-- The set of a type constraint. -/
def VariableType.set? : VariableType → Option (ScalarSet α)
  | continuous => none
  | integer => some .integer
  | binary => some .zeroOne

def constrain (v : VariableIndex) (s : ScalarSet α) : Modelling α Unit := do
  let _ ← addConstraint (.single v) (.set s)

/-- A bound, unless it is absent or null. -/
def addBound (v : VariableIndex) (bound : Value α) (set : α → ScalarSet α) : Modelling α Unit :=
  match bound with
  | .null => pure ()
  | b => do constrain v (set (← number b))

/-- A fixed value takes the place of bounds. -/
def addBounds (v : VariableIndex) (item : Value α) : Modelling α Unit := do
  match item.field? "fixed" with
  | some x => constrain v (.equalTo (← number x))
  | none =>
    addBound v (item.field "lower") .greaterThan
    addBound v (item.field "upper") .lessThan

def declare (declared : Declared) (i : Nat) (item : Value α) : Modelling α Declared := do
  match item.field? "name" with
  | none => refuse (.variableEntry i)
  | some label =>
    let name := label.shown
    if (declared.lookup name).isSome then refuse (.declaredTwice name)
    let v ← addVariable
    setVariableName (.var v) name
    addBounds v item
    let type := Text.lower (item.fieldOr "type" (.text "continuous")).shown
    match VariableType.ofText? type with
    | none => refuse (.unknownType name type)
    | some t =>
      if let some s := t.set? then constrain v s
      return declared ++ [(name, v)]

/-! ### Constraints -/

/-- The set of a constraint by its sense. -/
def rowSet? (sense : String) : Option (α → ScalarSet α) :=
  match sense with
  | "<=" => some .lessThan
  | ">=" => some .greaterThan
  | "==" | "=" => some .equalTo
  | _ => none

def variableNamed (declared : Declared) (place : Place α) (key : Value α) :
    Modelling α VariableIndex :=
  let found := match key with
    | .text s => declared.lookup s
    | _ => none
  match found with
  | some v => pure v
  | none => refuse (.unknownVariable place key)

/-- Coefficients by variable name. -/
def terms (declared : Declared) (place : Place α) (v : Value α) : Modelling α (List (Term α)) := do
  (← mapping v).mapM fun e => do
    let x ← variableNamed declared place e.1
    return ⟨← number e.2, x⟩

def addRow (declared : Declared) (i : Nat) (item : Value α) : Modelling α Unit := do
  match item with
  | .map _ =>
    let place : Place α := .constraint (item.fieldOr "name" (.text s!"#{i}"))
    let sense := (item.fieldOr "sense" (.text "<=")).shown
    match rowSet? sense with
    | none => refuse (.unknownSense place sense)
    | some set =>
      let ts ← terms declared place (item.field "terms")
      let rhs ← number (item.fieldOr "rhs" (.real 0))
      let c ← addConstraint (.affine ⟨ts, 0⟩) (.set (set rhs))
      let label := item.field "name"
      if label.truthy then setConstraintName (.constraint c) label.shown
  | _ => refuse (.constraintEntry i)

/-! ### Objective -/

def senseOf (v : Value α) : Modelling α ObjectiveSense := do
  let word := Text.upper (v.fieldOr "sense" (.text "min")).shown
  match ObjectiveSense.ofText? word with
  | some sense => return sense
  | none => refuse (.objectiveSense (Text.lower word))

def buildObjective (declared : Declared) (v : Value α) : Modelling α Unit := do
  let sense ← senseOf v
  let objective : Value α := .map (← mapping (v.field "objective"))
  let ts ← terms declared .objective (objective.field "terms")
  let constant ← number (objective.fieldOr "constant" (.real 0))
  setObjective (.affine ⟨ts, constant⟩)
  setObjectiveSense sense

/-- Replaces the model by the described one; answers with its variables by name. -/
def build (v : Value α) : Modelling α Declared := do
  modify Model.emptied
  let .map _ := v | throw .missingPart
  modify fun m =>
    { m with problem := { m.problem with name := (v.fieldOr "name" (.text "")).shown } }
  let declared ← (← entries (v.field "variables")).zipIdx.foldlM
    (fun declared e => declare declared e.2 e.1) []
  for (item, i) in (← entries (v.field "constraints")).zipIdx do
    addRow declared i item
  buildObjective declared v
  return declared

end Description

end MixedInteger
