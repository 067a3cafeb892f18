/-! What an algorithm answers: a return code, which is zero when it ran to its
end, and the wider statuses that codes and stored solutions are translated to. -/

namespace MixedInteger

inductive ReturnCode where
  | done
  | badBasis
  | singularBasis
  | illConditioned
  | badBounds
  | failure
  | objectiveLower
  | objectiveUpper
  | iterationLimit
  | timeLimit
  | noPrimal
  | noDual
  | noRoot
  | stopped
  | gapReached
  | noFeasible
  | noConvergence
  | unstable
  | other (code : Int)
deriving DecidableEq, Repr

def ReturnCode.code : ReturnCode → Int
  | done => 0
  | badBasis => 1
  | singularBasis => 2
  | illConditioned => 3
  | badBounds => 4
  | failure => 5
  | objectiveLower => 6
  | objectiveUpper => 7
  | iterationLimit => 8
  | timeLimit => 9
  | noPrimal => 10
  | noDual => 11
  | noRoot => 12
  | stopped => 13
  | gapReached => 14
  | noFeasible => 15
  | noConvergence => 16
  | unstable => 17
  | other c => c

/-- The codes in order, from zero. -/
def ReturnCode.known : List ReturnCode :=
  [done, badBasis, singularBasis, illConditioned, badBounds, failure, objectiveLower,
    objectiveUpper, iterationLimit, timeLimit, noPrimal, noDual, noRoot, stopped, gapReached,
    noFeasible, noConvergence, unstable]

def ReturnCode.ofCode (c : Int) : ReturnCode := (known.find? fun r => r.code == c).getD (other c)

inductive TerminationStatus where
  | notCalled
  | optimal
  | infeasible
  | dualInfeasible
  | locallySolved
  | locallyInfeasible
  | iterationLimit
  | timeLimit
  | objectiveLimit
  | slowProgress
  | numericalError
  | invalidModel
  | interrupted
  | otherError
deriving DecidableEq, Repr

def TerminationStatus.text : TerminationStatus → String
  | notCalled => "OPTIMIZE_NOT_CALLED"
  | optimal => "OPTIMAL"
  | infeasible => "INFEASIBLE"
  | dualInfeasible => "DUAL_INFEASIBLE"
  | locallySolved => "LOCALLY_SOLVED"
  | locallyInfeasible => "LOCALLY_INFEASIBLE"
  | iterationLimit => "ITERATION_LIMIT"
  | timeLimit => "TIME_LIMIT"
  | objectiveLimit => "OBJECTIVE_LIMIT"
  | slowProgress => "SLOW_PROGRESS"
  | numericalError => "NUMERICAL_ERROR"
  | invalidModel => "INVALID_MODEL"
  | interrupted => "INTERRUPTED"
  | otherError => "OTHER_ERROR"

inductive ResultStatus where
  | noSolution
  | feasiblePoint
  | infeasiblePoint
  | certificate
deriving DecidableEq, Repr

def ResultStatus.text : ResultStatus → String
  | noSolution => "NO_SOLUTION"
  | feasiblePoint => "FEASIBLE_POINT"
  | infeasiblePoint => "INFEASIBLE_POINT"
  | certificate => "INFEASIBILITY_CERTIFICATE"

/-- The algorithm for models without integer variables. -/
inductive Method where
  | simplex
  | interior
  | exact
deriving DecidableEq, Repr

def Method.text : Method → String
  | simplex => "SIMPLEX"
  | interior => "INTERIOR"
  | exact => "EXACT"

def Method.ofText? : String → Option Method
  | "SIMPLEX" => some simplex
  | "INTERIOR" => some interior
  | "EXACT" => some exact
  | _ => none

/-- The events of a search at which a callback is heard. -/
inductive Reason where
  | rowGeneration
  | newIncumbent
  | heuristic
  | cutGeneration
  | branching
  | selection
  | preprocessing
deriving DecidableEq, Repr

def Reason.code : Reason → Int
  | rowGeneration => 1
  | newIncumbent => 2
  | heuristic => 3
  | cutGeneration => 4
  | branching => 5
  | selection => 6
  | preprocessing => 7

def Reason.name : Reason → String
  | rowGeneration => "IROWGEN"
  | newIncumbent => "IBINGO"
  | heuristic => "IHEUR"
  | cutGeneration => "ICUTGEN"
  | branching => "IBRANCH"
  | selection => "ISELECT"
  | preprocessing => "IPREPRO"

end MixedInteger
