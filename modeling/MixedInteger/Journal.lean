import MixedInteger.Number.Double
import MixedInteger.Problem.Edit
import MixedInteger.Problem.Query
import MixedInteger.Solver.Outcome

/-! What the algorithms report while they run. A notice is kept as what happened,
with a level and a source, and is put into words at the end. -/

namespace MixedInteger

inductive Level where
  | debug
  | info
  | warning
  | error
deriving DecidableEq, Repr

def Level.text : Level → String
  | debug => "DEBUG"
  | info => "INFO"
  | warning => "WARNING"
  | error => "ERROR"

/-- The higher, the more urgent. -/
def Level.number : Level → Nat
  | debug => 10
  | info => 20
  | warning => 30
  | error => 40

inductive Source where
  | continuous
  | search
  | optimizer
  | callbacks
  | runner
  | bridge
deriving DecidableEq, Repr

def Source.text : Source → String
  | continuous => "lp"
  | search => "mip"
  | optimizer => "optimizer"
  | callbacks => "callbacks"
  | runner => "runner"
  | bridge => "pyomo_bridge"

inductive Notice (α : Type) where
  -- Continuous algorithms
  | size (name : String) (rows columns nonZeros : Nat)
  | timeLimit (name : String)
  | iterationLimit (name : String)
  | solverFailure (name message : String)
  | presolvedAway (name : String) (unbounded : Bool)
  | noOptimum (name : String) (unbounded : Bool)
  | optimum (name : String) (objective seconds : α)
  | refused (name : String) (why : Obstacle α)
  | emptyProblem (name : String)
  | interiorSize (rows columns : Nat)
  | interiorFailure (message : String)
  | interiorInfeasible
  | interiorOptimum (objective : α)
  | noRay
  | noCertificate
  -- Search
  | incumbent (solved : Nat) (objective : α) (active : Nat)
  | branched (node column : Nat) (value : α) (level : Nat)
  | gapReached
  | searchRefused (why : Obstacle α)
  | noRoot
  | searchSize (rows columns integers : Nat)
  | searchNoPrimal
  | searchNoDual
  | searchOptimum (objective : α) (nodes : Nat)
  | searchInfeasible
  -- Model
  | mixedPath (binaries integers : Int)
  | continuousPath (method : Method)
  | finished (status : TerminationStatus) (code : ReturnCode) (seconds : α)
  | lazyRow (row : Nat) (reason : Option Reason) (sense : RowSense) (rhs : α)
  -- Runs
  | solving (name : String) (vars types : Nat) (method : Method)
  | progress (reason : Option Reason) (node solved : Nat) (incumbent : Option α) (bound gap : α)
  | result (status : TerminationStatus) (raw : String) (objective : Option α)
  | imported (vars constraints : Nat) (name : String)

namespace Notice

variable {α : Type}

def level : Notice α → Level
  | solverFailure .. | refused .. | emptyProblem .. | interiorFailure .. => .error
  | searchRefused .. | noRoot => .error
  | noRay | noCertificate => .warning
  | mixedPath .. | continuousPath .. | finished .. | lazyRow .. | imported .. => .debug
  | _ => .info

def source : Notice α → Source
  | incumbent .. | branched .. | gapReached | searchRefused .. | noRoot => .search
  | searchSize .. | searchNoPrimal | searchNoDual | searchOptimum .. => .search
  | searchInfeasible => .search
  | mixedPath .. | continuousPath .. | finished .. => .optimizer
  | lazyRow .. => .callbacks
  | solving .. | progress .. | result .. => .runner
  | imported .. => .bridge
  | _ => .continuous

/-- The name of an event; outside of all events it is zero. -/
def reasonName : Option Reason → String
  | some r => r.name
  | none => "0"

open Decimal

/-- Numbers of notices have six decimals at most. -/
def settled (x : Float) : Float := roundPlaces 6 x

def text : Notice Float → String
  | size name m n z => s!"{name}: {m} rows, {n} columns, {z} non-zeros"
  | timeLimit name => name ++ ": time limit exceeded"
  | iterationLimit name => name ++ ": iteration limit exceeded"
  | solverFailure name message => name ++ ": solver failure: " ++ message
  | presolvedAway name unbounded =>
    name ++ ": PROBLEM HAS NO " ++ (if unbounded then "DUAL" else "PRIMAL") ++ " FEASIBLE SOLUTION"
  | noOptimum name unbounded => name ++ ": PROBLEM HAS " ++
      (if unbounded then "UNBOUNDED SOLUTION" else "NO PRIMAL FEASIBLE SOLUTION")
  | optimum name objective seconds => name ++ ": OPTIMAL SOLUTION FOUND, obj = " ++
      generalText 9 (settled objective) ++ " (" ++ fixedText 3 (settled seconds) ++ "s)"
  | refused name why => name ++ ": " ++ why.message
  | emptyProblem name => name ++ ": problem has no rows/columns"
  | interiorSize m n => s!"interior: {m} rows, {n} columns"
  | interiorFailure message => "interior: " ++ message
  | interiorInfeasible => "interior: PROBLEM HAS NO FEASIBLE PRIMAL/DUAL SOLUTION"
  | interiorOptimum objective => "interior: OPTIMAL SOLUTION FOUND, obj = " ++
      generalText 9 (settled objective)
  | noRay => "unbounded_ray: no improving ray found"
  | noCertificate => "infeasibility_ray: rows are satisfiable, no certificate"
  | incumbent solved objective active => "+" ++ padLeft 6 (toString solved) ++ ": mip = " ++
      padLeft 17 (scientificText 9 (settled objective)) ++ s!"; {active} active node(s)"
  | branched node column value level => " " ++ padLeft 6 (toString node) ++
      s!": branch on column {column} = " ++ generalText 6 (settled value) ++ s!" (level {level})"
  | gapReached => "relative mip gap tolerance reached"
  | searchRefused why => "intopt: " ++ why.message
  | noRoot => "intopt: optimal basis to initial LP relaxation not provided"
  | searchSize m n k => s!"intopt: {m} rows, {n} columns ({k} integer)"
  | searchNoPrimal => "PROBLEM HAS NO PRIMAL FEASIBLE SOLUTION"
  | searchNoDual => "LP RELAXATION HAS NO DUAL FEASIBLE SOLUTION"
  | searchOptimum objective nodes => "INTEGER OPTIMAL SOLUTION FOUND, obj = " ++
      generalText 9 (settled objective) ++ s!" ({nodes} nodes)"
  | searchInfeasible => "PROBLEM HAS NO INTEGER FEASIBLE SOLUTION"
  | mixedPath b i => s!"optimize: mixed-integer path ({b} binaries, {i} integers)"
  | continuousPath m => "optimize: continuous path (" ++ m.text ++ ")"
  | finished status code seconds => "optimize: " ++ status.text ++ s!" (raw code {code.code}) in " ++
      fixedText 3 (settled seconds) ++ "s"
  | lazyRow row reason sense rhs => s!"lazy row {row} added at " ++ reasonName reason ++ ": " ++
      sense.text ++ " " ++ shortText (settled rhs)
  | solving name vars types method => "Solving " ++
      (if name.isEmpty then "<unnamed>" else name) ++
      s!": {vars} variables, {types} constraint types, method=" ++ method.text
  | progress reason node solved best bound gap => reasonName reason ++
      s!": node {node}, {solved} solved, incumbent=" ++
      (match best with | none => "-" | some x => generalText 6 x) ++
      ", bound=" ++ generalText 6 (settled bound) ++ ", gap=" ++ generalText 3 (settled gap)
  | result status raw objective => "Result: " ++ status.text ++ " (" ++ raw ++ ") objective=" ++
      (match objective with | none => "None" | some x => shortText (settled x))
  | imported vars constraints name =>
    s!"from_pyomo: {vars} variables, {constraints} constraints from " ++ name

/-- A full record. -/
def line (n : Notice Float) : String := n.level.text ++ " " ++ n.source.text ++ ": " ++ n.text

end Notice

end MixedInteger
