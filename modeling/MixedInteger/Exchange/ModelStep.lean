import MixedInteger.Data.Value
import MixedInteger.Exchange.ProblemStep
import MixedInteger.Model.Bound
import MixedInteger.Model.Copy
import MixedInteger.Model.Result
import MixedInteger.Model.Setting

/-! Models as data, with their indices, sets and functions, and steps on a model, called by name
with data as arguments. A variable is its identity; a constraint is a list of two kinds and an
identity; a set is a list of its kind and its numbers. -/

namespace MixedInteger

open Value

section

variable {α : Type} [Scalar α]

def ConstraintIndex.toData (c : ConstraintIndex) : Value α :=
  .list [.text c.function.name, .text c.set.name, .int c.value]

def IndexArg.toData : IndexArg α → Value α
  | .var v => .int v.value
  | .constraint c => c.toData
  | .raw v => v

/-- What the key `raw` holds is taken as it is. -/
def unwrapped (v : Value α) : Value α := v.fieldOr "raw" v

def IndexArg.ofData : Value α → IndexArg α
  | .int i => .var ⟨i⟩
  | .list [f, s, v] => .constraint ⟨Kind.ofName f.asText, Kind.ofName s.asText, v.asInt⟩
  | v => .raw (unwrapped v)

def ScalarSet.toData : ScalarSet α → Value α
  | .lessThan u => .list [.text "LessThan", .real u]
  | .greaterThan l => .list [.text "GreaterThan", .real l]
  | .equalTo v => .list [.text "EqualTo", .real v]
  | .interval l u => .list [.text "Interval", .real l, .real u]
  | .zeroOne => .list [.text "ZeroOne"]
  | .integer => .list [.text "Integer"]

def SetArg.ofData (v : Value α) : SetArg α :=
  match Kind.ofName (v.item 0).asText with
  | .lessThan => .set (.lessThan (v.item 1).asReal)
  | .greaterThan => .set (.greaterThan (v.item 1).asReal)
  | .equalTo => .set (.equalTo (v.item 1).asReal)
  | .interval => .set (.interval (v.item 1).asReal (v.item 2).asReal)
  | .zeroOne => .set .zeroOne
  | .integer => .set .integer
  | _ => .raw (unwrapped v)

def AffineFunction.toData (f : AffineFunction α) : Value α :=
  record [
    ("terms", .list (f.terms.map fun t => .list [.real t.coefficient, .int t.var.value])),
    ("constant", .real f.constant)]

def AffineFunction.ofData (v : Value α) : AffineFunction α :=
  { terms := (v.field "terms").items.map fun t => ⟨(t.item 0).asReal, ⟨(t.item 1).asInt⟩⟩
    constant := (v.fieldOr "constant" (.int 0)).asReal }

def Function.toData : Function α → Value α
  | .single v => record [("sv", .int v.value)]
  | .affine f => f.toData

def FunctionArg.ofData : Value α → FunctionArg α
  | .int i => .var ⟨i⟩
  | v =>
    match v.field? "sv" with
    | some i => .single ⟨i.asInt⟩
    | none => if (v.field? "terms").isSome then .affine (.ofData v) else .raw (unwrapped v)

def BoundChange.toData (c : BoundChange α) : Value α :=
  .list [ofOption (c.lower.map .real), ofOption (c.upper.map .real)]

end

def VariableInfo.toData (key : Nat) (i : VariableInfo) : Value Float :=
  .list [.nat key, .int i.index.value, .nat i.column, .text i.bound.text, .text i.type.text,
    .text i.name, .text i.upperName, .text i.lowerName, .text i.typeName]

def ConstraintInfo.toData (key : Nat) (i : ConstraintInfo Float) : Value Float :=
  .list [.nat key, .nat i.row, i.set.toData, .text i.name]

/-- Named values by name. -/
def namedData (entries : List (String × Value Float)) : Value Float :=
  .list ((entries.mergeSort fun a b => a.1 ≤ b.1).map fun e => .list [.text e.1, e.2])

/-- Null while the index is not built. -/
def NameIndex.toData {I : Type} (encode : I → Value Float) (n : NameIndex I) : Value Float :=
  ofOption (n.map.map fun m => namedData (m.map fun e => (e.1, encode e.2)))

namespace Model

def toData (m : Model Float) : Value Float :=
  record [("problem", m.problem.toData),
    ("variables", .list (m.vars.entries.map fun e => e.2.toData e.1)),
    ("affine", .list (m.affine.entries.map fun e => e.2.toData e.1)),
    ("binaries", .int m.binaries), ("integers", .int m.integers),
    ("variable_names", m.variableNames.toData IndexArg.toData),
    ("constraint_names", m.constraintNames.toData ConstraintIndex.toData),
    ("objective_type", .text m.objectiveKind.text), ("sense", .text m.objectiveSense.text)]

def parametersData (m : Model Float) : Value Float :=
  record [("simplex", Parameter.storeData Parameter.Simplex.fields m.stores.simplex),
    ("interior", Parameter.storeData Parameter.Interior.fields m.stores.interior),
    ("intopt", Parameter.storeData Parameter.Search.fields m.stores.search),
    ("params", record m.given)]

end Model

def IndexMap.toData (map : IndexMap) : Value Float :=
  .list ((map.vars.map fun e => .list [.int e.1.value, .int e.2.value]) ++
    map.constraints.map fun e => .list [e.1.toData, e.2.toData])

/-! ### Steps -/

namespace ModelStep

abbrev Query := Model Float → Except (Fault Float) (Value Float)

/-- Queries without an argument. -/
def queries : List (String × Query) := [
  ("list_of_variable_indices", fun m => .ok (.list (m.variableIndices.map fun v => .int v.value))),
  ("number_of_variables", fun m => .ok (.nat m.vars.size)),
  ("list_of_constraints", fun m =>
    .ok (.list (m.constraintTypes.map fun e => texts [e.1.name, e.2.name]))),
  ("is_empty", fun m => .ok (.bool m.isEmpty)),
  ("get_objective_sense", fun m => .ok (.text m.objectiveSense.text)),
  ("get_objective", fun m => .ok m.objective.toData),
  ("objective_function_type", fun m => .ok (.text m.objectiveKind.kind.name)),
  ("termination_status", fun m => m.terminationStatus.map fun s => .text s.text),
  ("raw_status_string", fun m => m.rawStatus.map .text),
  ("primal_status", fun m => m.primalStatus.map fun s => .text s.text),
  ("dual_status", fun m => m.dualStatus.map fun s => .text s.text),
  ("result_count", fun m => m.resultCount.map .nat),
  ("objective_value", fun m => .ok (solved m.objectiveValue)),
  ("objective_bound", fun m => .ok (solved m.objectiveBound)),
  ("relative_gap", fun m => m.relativeGap.map solved),
  ("solve_time", fun m => .ok (solved m.last.seconds)),
  ("silent", fun m => .ok (.bool m.silent)),
  ("num_binaries", fun m => .ok (.int m.binaries)),
  ("num_integers", fun m => .ok (.int m.integers)),
  ("dump", fun m => .ok m.toData),
  ("params", fun m => .ok m.parametersData),
  ("repr", fun m => .ok (texts [m.described, m.vars.described, m.affine.described,
    m.variableNames.described, m.constraintNames.described, m.problem.described]))]

def value (v : Except (Fault Float) Float) : Except (Fault Float) (Value Float) := v.map solved

/-- Queries about one index. -/
def indexQueries : List (String × (IndexArg Float → Query)) := [
  ("is_valid", fun i m => .ok (.bool (m.isValid i))),
  ("get_constraint_set", fun i m => (m.constraintSet i).map ScalarSet.toData),
  ("get_constraint_function", fun i m => (m.constraintFunction i).map Function.toData),
  ("get_constraint_name", fun i m => (m.constraintName i).map .text),
  ("get_variable_name", fun i m => (m.variableName i).map .text),
  ("variable_primal", fun i m => value (m.variablePrimal i)),
  ("constraint_primal", fun i m => value (m.constraintPrimal i)),
  ("constraint_dual", fun i m => value (m.constraintDual i)),
  ("constraint_basis_status", fun i m => (m.constraintBasis i).map fun b => .text b.text)]

def kinds? (v : Value Float) : Option (Kind × Kind) :=
  match v.items with
  | [f, s] => some (Kind.ofName f.asText, Kind.ofName s.asText)
  | _ => none

def ofQuery (q : Query) : Modelling Float (Value Float) := Modelling.query q

def silently (f : Modelling Float Unit) : Modelling Float (Value Float) := do
  f
  return .null

/-- The constraints of two kinds. -/
def constraintsOf (f s : Value Float) (m : Model Float) : List ConstraintIndex :=
  m.constraintIndices (Kind.ofName f.asText) (Kind.ofName s.asText)

/-- Changes the name of the model when there is an argument, and answers with the name. -/
def name (args : List (Value Float)) : Modelling Float (Value Float) := do
  if let v :: _ := args then
    modify fun m => { m with problem := { m.problem with name := v.asText } }
  return .text (← get).problem.name

def timeLimit (args : List (Value Float)) : Modelling Float (Value Float) := do
  if let v :: _ := args then Modelling.setTimeLimit v
  ofQuery fun m => m.timeLimit.map fun t => ofOption (t.map .real)

def setMethod (v : Value Float) : Modelling Float Unit := do
  let method ← Modelling.ofExcept (Model.methodOf v)
  modify fun m => { m with method := method }

/-- Plants statuses of a basis. -/
def setBasis (columns rows : Value Float) : Modelling Float Unit :=
  let statuses (v : Value Float) : List BasisStatus := v.asInts.map .ofCode
  modify fun m => { m with problem := { m.problem with basic := { m.problem.basic with
    colBasis := statuses columns, rowBasis := statuses rows } } }

open Modelling in
def run (step : String) (args : List (Value Float)) : Modelling Float (Value Float) :=
  let arg (i : Nat) : Value Float := args.getD i .null
  let index : IndexArg Float := .ofData (arg 0)
  match queries.lookup step, indexQueries.lookup step with
  | some q, _ => ofQuery q
  | none, some q => ofQuery (q index)
  | none, none =>
    match step with
    | "add_variable" => return .int (← addVariable).value
    | "add_variables" =>
      return .list ((← addVariables (arg 0).asInt).map fun v => .int v.value)
    | "add_constraint" => return (← addConstraint (.ofData (arg 0)) (.ofData (arg 1))).toData
    | "add_constraints" => do
      let cs ← addConstraints ((arg 0).items.map .ofData) ((arg 1).items.map .ofData)
      return .list (cs.map ConstraintIndex.toData)
    | "delete" => silently (delete index)
    | "set_constraint_set" => silently (setConstraintSet index (.ofData (arg 1)))
    | "set_constraint_function" => silently (setConstraintFunction index (.ofData (arg 1)))
    | "set_constraint_name" => silently (setConstraintName index (arg 1).asText)
    | "set_variable_name" => silently (setVariableName index (arg 1).asText)
    | "get_variable_by_name" =>
      return ofOption ((← variableByName (arg 0).asText).map IndexArg.toData)
    | "get_constraint_by_name" =>
      return ofOption ((← constraintByName (arg 0).asText (kinds? (arg 1))).map
        ConstraintIndex.toData)
    | "modify_constraint_coefficient" =>
      silently (modifyCoefficient index (.ofData (arg 1)) (arg 2).asReal)
    | "modify_objective_coefficient" => silently (modifyObjectiveCoefficient index (arg 1).asReal)
    | "modify_objective_constant" => silently (modifyObjectiveConstant (arg 0).asReal)
    | "list_of_constraint_indices" => ofQuery fun m =>
      .ok (.list ((constraintsOf (arg 0) (arg 1) m).map ConstraintIndex.toData))
    | "number_of_constraints" => ofQuery fun m =>
      .ok (.nat (constraintsOf (arg 0) (arg 1) m).length)
    | "empty" => silently (modify Model.emptied)
    | "set_objective_sense" => silently (setObjectiveSenseByName (arg 0))
    | "set_objective" => silently (setObjective (.ofData (arg 0)))
    | "set_parameter" => silently (setParameter (arg 0) (arg 1))
    | "get_parameter" => ofQuery fun m => (m.parameter (arg 0)).map Parameter.Setting.toData
    | "set_silent" => silently (setSilent (arg 0).truthy)
    | "variable_primals" => ofQuery fun m => do
      return .list (← (arg 0).items.mapM fun v => value (m.variablePrimal (.ofData v)))
    | "name" => name args
    | "time_limit_sec" => timeLimit args
    | "solver_name" => return .text "lpadapter"
    | "set_method" => silently (setMethod (arg 0))
    | "set_basis" => silently (setBasis (arg 0) (arg 1))
    | _ => throw .missingKey

/-! ### New models -/

/-- A new model from options and parameters. Presolving and method may stand among the
parameters, but not in both places. -/
def create (v : Value Float) : Except (Fault Float) (Model Float) := do
  let params := (v.field "params").members
  let twice (key : String) : Bool := (v.field? key).isSome && (params.lookup key).isSome
  if twice "presolve" || twice "method" || (params.lookup "self").isSome then throw .wrongKind
  let option (key : String) (default : Value Float) : Value Float :=
    ((v.field? key).or (params.lookup key)).getD default
  Model.create (option "presolve" (.bool false)) (option "method" (.text "SIMPLEX"))
    (params.filter fun e => e.1 != "presolve" && e.1 != "method")

end ModelStep

end MixedInteger
