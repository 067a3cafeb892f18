import MixedInteger.Exchange.ModelStep
import MixedInteger.Job.Solve

/-! Options and outcomes as data. -/

namespace MixedInteger

open Value

def RunOptions.toData (o : RunOptions) : Value Float :=
  record [("log_level", .text o.logLevel), ("print_every", .int o.printEvery)]

def ModelOptions.toData (o : ModelOptions Float) : Value Float :=
  record [("method", .text o.method), ("presolve", .bool o.presolve), ("silent", .bool o.silent),
    ("time_limit_sec", ofOption (o.timeLimit.map .real)), ("params", .map o.params)]

def Options.toData (o : Options Float) : Value Float :=
  record [("run", o.run.toData), ("optimizer", o.model.toData)]

def Declared.toData (d : Declared) : Value Float :=
  .list (d.map fun e => .list [.text e.1, .int e.2.value])

/-- Solved values by name. -/
def solvedMembers (entries : List (String × Float)) : Value Float :=
  .list (entries.map fun e => .list [.text e.1, solved e.2])

def Outcome.toData (o : Outcome Float) : Value Float :=
  let maybe (x : Option Float) : Value Float := ofOption (x.map solved)
  record [("name", .text o.name), ("termination_status", .text o.termination.text),
    ("raw_status", .text o.raw), ("primal_status", .text o.primal.text),
    ("dual_status", .text o.dual.text), ("objective_value", maybe o.objective),
    ("objective_bound", maybe o.bound), ("relative_gap", maybe o.gap),
    ("solve_time", solved o.seconds), ("values", solvedMembers o.values),
    ("duals", solvedMembers o.duals)]

end MixedInteger
