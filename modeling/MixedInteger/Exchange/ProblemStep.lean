import MixedInteger.Data.Value
import MixedInteger.Fault
import MixedInteger.Number.Double
import MixedInteger.Parameter.Store
import MixedInteger.Problem.Query
import MixedInteger.Solver.Request

/-! Problems, solutions, requests and parameter stores as data, and steps on a problem,
called by name with data as arguments. Values that come from a solver are rounded to six
decimals. A step answers with data; what it did before it failed stays. -/

namespace MixedInteger

open Value

/-- A value that a solver found. -/
def solved (x : Float) : Value Float := .real (Decimal.roundPlaces 6 x)

def solvedList (xs : List Float) : Value Float := .list (xs.map solved)

def Column.toData (c : Column Float) : Value Float :=
  .list [.text c.name, .int c.bound.code, .real c.lower, .real c.upper, .int c.kind.code,
    .real c.cost]

/-- Column numbers and coefficients in two lists. -/
def entryLists (entries : List (Nat × Float)) : List (Value Float) :=
  [.list (entries.map fun e => .nat e.1), .reals (entries.map (·.2))]

def Row.toData (r : Row Float) : Value Float :=
  .list ([.text r.name, .int r.bound.code, .real r.lower, .real r.upper] ++ entryLists r.entries)

def Problem.toData (p : Problem Float) : Value Float :=
  record [("name", .text p.name), ("dir", .int p.direction.code), ("const", .real p.constant),
    ("cols", .list (p.columns.map Column.toData)), ("rows", .list (p.rows.map Row.toData))]

namespace Solution

def toData (s : Solution Float) : Value Float :=
  record [("status", .int s.status.code), ("dual_status", .int s.dualStatus.code),
    ("obj", solved s.objective), ("col_prim", solvedList s.colPrimal),
    ("col_dual", solvedList s.colDual), ("row_prim", solvedList s.rowPrimal),
    ("row_dual", solvedList s.rowDual), ("col_stat", .list (s.colBasis.map fun b => .int b.code)),
    ("row_stat", .list (s.rowBasis.map fun b => .int b.code))]

def ofData (v : Value Float) : Solution Float :=
  let status (key : String) : SolutionStatus := .ofCode (v.fieldOr key (.int 1)).asInt
  let basis (key : String) : List BasisStatus := (v.field key).asInts.map .ofCode
  { status := status "status"
    dualStatus := status "dual_status"
    objective := (v.fieldOr "obj_val" (.int 0)).asReal
    colPrimal := (v.field "col_prim").asReals
    colDual := (v.field "col_dual").asReals
    rowPrimal := (v.field "row_prim").asReals
    rowDual := (v.field "row_dual").asReals
    colBasis := basis "col_stat"
    rowBasis := basis "row_stat" }

end Solution

namespace LinearProgram

def matrixData (m : List (List Float)) : Value Float := .list (m.map .reals)

/-- An absent bound is null, and so is an infinite one. -/
def boundData (x : Option Float) : Value Float := ofOption ((x.bind finite?).map .real)

def members (lp : LinearProgram Float) : List (String × Value Float) :=
  [("c", .reals lp.cost), ("A_ub", ofOption (lp.ubMatrix.map matrixData)),
    ("b_ub", ofOption (lp.ubBound.map .reals)), ("A_eq", ofOption (lp.eqMatrix.map matrixData)),
    ("b_eq", ofOption (lp.eqBound.map .reals)),
    ("bounds", .list (lp.bounds.map fun b => .list [boundData b.1, boundData b.2]))]

def toData (lp : LinearProgram Float) : Value Float :=
  record (lp.members ++ [("matrix", matrixData lp.matrix),
    ("ub_rows", .list (lp.ubRows.map fun e => .list [.nat e.1, .real e.2])),
    ("eq_rows", .list (lp.eqRows.map .nat)), ("sense", .real lp.sense)])

end LinearProgram

def SolverOptions.toData (o : SolverOptions Float) : Value Float :=
  let entry (key : String) (v : Option (Value Float)) : List (String × Value Float) :=
    (v.map fun v => (key, v)).toList
  record ([("disp", .bool false), ("presolve", .bool o.presolve)] ++
    entry "primal_feasibility_tolerance" (o.primalTolerance.map .real) ++
    entry "dual_feasibility_tolerance" (o.dualTolerance.map .real) ++
    entry "simplex_dual_edge_weight_strategy" (o.edgeWeight.map fun e => .text e.text) ++
    entry "maxiter" (o.iterationLimit.map .int) ++ entry "time_limit" (o.timeLimit.map .real))

def Request.toData (r : Request Float) : Value Float :=
  record (r.program.members ++
    [("method", .text r.method.text), ("options", r.options.toData)])

namespace Parameter

def Setting.toData : Setting Float → Value Float
  | .int i => .int i
  | .real x => .real x

/-- The fields of a store by name. -/
def storeData {S : Type} (fields : List (Field S Float)) (s : S) : Value Float :=
  record (fields.map fun f => (f.name, (f.read s).toData))

end Parameter

/-! ### Steps -/

namespace ProblemStep

abbrev Step := EStateM (Fault Float) (Problem Float)

def ofProblem {β : Type} : Except (ProblemError Float) β → Step β
  | .ok b => pure b
  | .error e => throw (.problem e)

def change (f : Problem Float → Except (ProblemError Float) (Problem Float)) :
    Step (Value Float) := do
  set (← ofProblem (f (← get)))
  return .null

/-- Adds something and answers with its number. -/
def append (f : Problem Float → Except (ProblemError Float) (Problem Float × Nat)) :
    Step (Value Float) := do
  let (p, i) ← ofProblem (f (← get))
  set p
  return .nat i

def editRow {β : Type} (edit : RowEdit Float β) : Step β := fun p =>
  match edit p with
  | .ok b p => .ok b p
  | .error e p => .error (.affineRow e) p

/-! ### Queries -/

abbrev Query := Problem Float → Except (ProblemError Float) (Value Float)

/-- Queries without an argument. -/
def queries : List (String × (Problem Float → Value Float)) := [
  ("get_num_cols", fun p => .nat p.columnCount),
  ("get_num_rows", fun p => .nat p.rowCount),
  ("get_num_int", fun p => .nat p.integerCount),
  ("get_obj_dir", fun p => .int p.direction.code),
  ("get_prob_name", fun p => .text p.name),
  ("get_status", fun p => .int p.basic.status.code),
  ("get_dual_stat", fun p => .int p.basic.dualStatus.code),
  ("get_obj_val", fun p => solved p.basic.objective),
  ("ipt_status", fun p => .int p.interior.status.code),
  ("ipt_obj_val", fun p => solved p.interior.objective),
  ("mip_status", fun p => .int p.integer.status.code),
  ("mip_obj_val", fun p => solved p.integer.objective),
  ("dump", fun p => p.toData),
  ("sol", fun p => p.basic.toData),
  ("ipt", fun p => p.interior.toData),
  ("mip", fun p => p.integer.toData),
  ("repr", fun p => .text p.described),
  ("lp_arrays", fun p => p.linearProgram.toData),
  ("bad_bounds", fun p => ofOption (p.badBounds.map fun o => .text o.message))]

def ofColumn (f : Column Float → Value Float) (j : Int) : Query := fun p => (p.column j).map f

def ofRow (f : Row Float → Value Float) (i : Int) : Query := fun p => (p.row i).map f

def columnValue (s : Problem Float → List Float) (j : Int) : Query := fun p =>
  (p.columnValue (s p) j).map solved

def rowValue (s : Problem Float → List Float) (i : Int) : Query := fun p =>
  (p.rowValue (s p) i).map solved

/-- Queries about one column or row. -/
def itemQueries : List (String × (Int → Query)) := [
  ("get_col_type", ofColumn fun c => .int c.bound.code),
  ("get_col_lb", ofColumn fun c => .real c.lower),
  ("get_col_ub", ofColumn fun c => .real c.upper),
  ("get_col_kind", ofColumn fun c => .int c.kind.code),
  ("get_col_name", ofColumn fun c => .text c.name),
  ("get_row_type", ofRow fun r => .int r.bound.code),
  ("get_row_lb", ofRow fun r => .real r.lower),
  ("get_row_ub", ofRow fun r => .real r.upper),
  ("get_row_name", ofRow fun r => .text r.name),
  ("get_mat_row", fun i p => (p.matrixRow i).map fun es => .list (entryLists es)),
  ("get_mat_col", fun j p => (p.matrixColumn j).map fun es => .list (entryLists es)),
  ("get_obj_coef", fun j p => (p.cost j).map .real),
  ("get_col_prim", columnValue fun p => p.basic.colPrimal),
  ("get_col_dual", columnValue fun p => p.basic.colDual),
  ("get_row_prim", rowValue fun p => p.basic.rowPrimal),
  ("get_row_dual", rowValue fun p => p.basic.rowDual),
  ("get_col_stat", fun j p => (p.columnBasis j).map fun b => .int b.code),
  ("get_row_stat", fun i p => (p.rowBasis i).map fun b => .int b.code),
  ("ipt_col_prim", columnValue fun p => p.interior.colPrimal),
  ("ipt_col_dual", columnValue fun p => p.interior.colDual),
  ("ipt_row_prim", rowValue fun p => p.interior.rowPrimal),
  ("ipt_row_dual", rowValue fun p => p.interior.rowDual),
  ("mip_col_val", columnValue fun p => p.integer.colPrimal),
  ("mip_row_val", rowValue fun p => p.integer.rowPrimal)]

/-! ### Changes -/

def setSolution (family : String) (s : Solution Float) (p : Problem Float) : Problem Float :=
  match family with
  | "ipt" => { p with interior := s }
  | "mip" => { p with integer := s }
  | _ => { p with basic := s }

def run (name : String) (args : List (Value Float)) : Step (Value Float) := do
  let arg (i : Nat) : Value Float := args.getD i .null
  let j := (arg 0).asInt
  match queries.lookup name, itemQueries.lookup name with
  | some f, _ => return f (← get)
  | none, some f => ofProblem (f j (← get))
  | none, none =>
    match name with
    | "add_cols" => append (·.addColumns j)
    | "add_rows" => append (·.addRows j)
    | "del_cols" => change (·.deleteColumns (arg 0).asInts)
    | "del_rows" => change (·.deleteRows (arg 0).asInts)
    | "std_basis" => change fun p => .ok p.forgetBasis
    | "set_col_bnds" =>
      change (·.setColumnBoundsByCode j (arg 1).asInt (arg 2).asReal (arg 3).asReal)
    | "set_row_bnds" =>
      change (·.setRowBoundsByCode j (arg 1).asInt (arg 2).asReal (arg 3).asReal)
    | "set_col_kind" => change (·.setColumnKindByCode j (arg 1).asInt)
    | "set_mat_row" => change (·.setMatrixRow j (arg 1).asInts (arg 2).asReals)
    | "set_obj_dir" => change (·.setDirectionByCode j)
    | "set_obj_coef" => change (·.setCost j (arg 1).asReal)
    | "set_prob_name" => change fun p => .ok { p with name := (arg 0).asText }
    | "set_col_name" => change (·.setColumnName j (arg 1).asText)
    | "set_row_name" => change (·.setRowName j (arg 1).asText)
    | "set_sol" => change fun p => .ok (setSolution (arg 0).asText (.ofData (arg 1)) p)
    | "use_copy" =>
      modify Problem.copy
      return .bool (← get).strict
    | "check" =>
      modify fun p => { p with strict := (arg 0).truthy }
      return .bool (← get).strict
    | "pad" =>
      modify fun p => { p with basic := p.basic.pad j.toNat (arg 1).asInt.toNat }
      return (← get).basic.toData
    | "add_affine_row" =>
      let sense := RowSense.ofText (arg 2).asText
      return .nat (← editRow (Problem.addAffineRow (arg 0).asInts (arg 1).asReals sense
        (arg 3).asReal))
    | "set_row_sense" =>
      editRow (Problem.setRowSense j (RowSense.ofText (arg 1).asText) (arg 2).asReal)
      return .null
    | "integer_bound_problem" =>
      match (← get).fractionalBounds with
      | .ok o => return ofOption (o.map fun o => .text o.message)
      | .error e => throw (.rounding e)
    | _ => throw .missingKey

end ProblemStep

end MixedInteger
