import MixedInteger.Model.State

/-! What a solve came to. A return code that is not zero is explained by the table of
the algorithm that ran; after code zero the status of its solution tells. -/

namespace MixedInteger

/-- The algorithms, each with return codes of its own. -/
inductive Algorithm where
  | simplex
  | exact
  | interior
  | search
deriving DecidableEq, Repr

abbrev Verdict := TerminationStatus × String

namespace Algorithm

def badBasis : String := "Unable to start the search: the initial basis is invalid."

def badBounds : String :=
  "Unable to start the search: some double-bounded variables have incorrect bounds."

def timeLimit : String :=
  "The search was prematurely terminated because the time limit was exceeded."

def iterationLimit : String :=
  "The search was prematurely terminated because the iteration limit was exceeded."

def nothingToSolve : String := "The problem instance has no rows/columns."

def solverFailure : String := "The search was prematurely terminated due to a solver failure."

def simplexVerdict : ReturnCode → Option Verdict
  | .badBasis => some (.invalidModel, badBasis)
  | .singularBasis => some (.numericalError,
      "Unable to start the search: the initial basis matrix is singular.")
  | .illConditioned => some (.numericalError,
      "Unable to start the search: the initial basis matrix is ill-conditioned.")
  | .badBounds => some (.invalidModel, badBounds)
  | .failure => some (.numericalError, solverFailure)
  | .objectiveLower => some (.objectiveLimit, "The objective being maximised reached its " ++
      "lower limit and keeps decreasing (dual simplex only).")
  | .objectiveUpper => some (.objectiveLimit, "The objective being minimised reached its " ++
      "upper limit and keeps increasing (dual simplex only).")
  | .iterationLimit => some (.iterationLimit, iterationLimit)
  | .timeLimit => some (.timeLimit, timeLimit)
  | .noPrimal => some (.infeasible,
      "The LP has no primal feasible solution (reported by the presolver).")
  | .noDual => some (.dualInfeasible,
      "The LP has no dual feasible solution (reported by the presolver).")
  | _ => none

def exactVerdict : ReturnCode → Option Verdict
  | .badBasis => some (.invalidModel, badBasis)
  | .singularBasis => some (.numericalError,
      "Unable to start the search: the initial basis matrix is exactly singular.")
  | .badBounds => some (.invalidModel, badBounds)
  | .failure => some (.invalidModel, nothingToSolve)
  | .iterationLimit => some (.iterationLimit, iterationLimit)
  | .timeLimit => some (.timeLimit, timeLimit)
  | _ => none

def interiorVerdict : ReturnCode → Option Verdict
  | .failure => some (.invalidModel, nothingToSolve)
  | .noConvergence => some (.slowProgress, "Very slow convergence or divergence.")
  | .iterationLimit => some (.iterationLimit, "Iteration limit exceeded.")
  | .unstable => some (.numericalError,
      "Numerical instability on solving the Newtonian system.")
  | _ => none

def searchVerdict : ReturnCode → Option Verdict
  | .badBounds => some (.invalidModel, badBounds)
  | .noRoot => some (.invalidModel, "Unable to start the search: no optimal basis of the LP " ++
      "relaxation was provided.")
  | .noPrimal => some (.infeasible, "Unable to start the search: the LP relaxation has no " ++
      "primal feasible solution.")
  | .noDual => some (.dualInfeasible, "Unable to start the search: the LP relaxation has no " ++
      "dual feasible solution, so an integer feasible solution, if any, is unbounded.")
  | .failure => some (.invalidModel, solverFailure)
  | .gapReached => some (.optimal, "The search was prematurely terminated because the relative " ++
      "mip gap tolerance was reached.")
  | .timeLimit => some (.timeLimit, timeLimit)
  | .stopped => some (.interrupted, "The search was prematurely terminated by the application.")
  | _ => none

/-- What a code that is not zero means. -/
def verdict? : Algorithm → ReturnCode → Option Verdict
  | simplex => simplexVerdict
  | exact => exactVerdict
  | interior => interiorVerdict
  | search => searchVerdict

def verdict (a : Algorithm) (code : ReturnCode) : Verdict :=
  (a.verdict? code).getD (.otherError, s!"Unexpected return code {code.code}.")

end Algorithm

def SolutionStatus.verdict? : SolutionStatus → Option Verdict
  | optimal => some (.optimal, "Solution is optimal")
  | feasible => some (.locallySolved, "Solution is feasible")
  | infeasible => some (.locallyInfeasible, "Solution is infeasible")
  | noFeasible => some (.infeasible, "No feasible primal-dual solution exists.")
  | unbounded => some (.dualInfeasible, "Problem has unbounded solution")
  | undefined => some (.otherError, "Solution is undefined")
  | other _ => none

variable {α : Type} [Scalar α]

namespace Model

/-- The algorithm of the last solve, or of the next one. -/
def algorithm (m : Model α) : Algorithm :=
  if m.last.bySearch then .search
  else match m.method with
    | .simplex => .simplex
    | .exact => .exact
    | .interior => .interior

/-- Where the algorithm keeps its solution. -/
def solution (m : Model α) : Solution α :=
  match m.algorithm with
  | .search => m.problem.integer
  | .interior => m.problem.interior
  | _ => m.problem.basic

def solutionVerdict (m : Model α) : Except (Fault α) Verdict :=
  match m.solution.status.verdict? with
  | some v => .ok v
  | none => .error .missingKey

/-- The outcome of the last solve in words. -/
def verdict (m : Model α) : Except (Fault α) Verdict :=
  if !m.last.called then .ok (.notCalled, "Optimize not called")
  else if m.last.code ≠ .done then .ok (m.algorithm.verdict m.last.code)
  else m.solutionVerdict

def terminationStatus (m : Model α) : Except (Fault α) TerminationStatus :=
  m.verdict.map (·.1)

def rawStatus (m : Model α) : Except (Fault α) String := m.verdict.map (·.2)

/-- Rays can be had after a simplex or exact solve only. -/
def mayHaveRays (m : Model α) : Bool :=
  match m.algorithm with
  | .simplex | .exact => true
  | _ => false

def primalStatus (m : Model α) : Except (Fault α) ResultStatus := do
  return match (← m.solutionVerdict).1 with
    | .optimal | .locallySolved => .feasiblePoint
    | .locallyInfeasible => .infeasiblePoint
    | .dualInfeasible => if m.mayHaveRays then .certificate else .noSolution
    | _ => .noSolution

def dualStatus (m : Model α) : Except (Fault α) ResultStatus := do
  if m.last.bySearch then return .noSolution
  return match (← m.solutionVerdict).1 with
    | .optimal => .feasiblePoint
    | .infeasible | .locallyInfeasible => if m.mayHaveRays then .certificate else .noSolution
    | _ => .noSolution

/-- A point or a certificate counts as a result. -/
def ResultStatus.isResult (s : ResultStatus) : Bool := s = .feasiblePoint || s = .certificate

def resultCount (m : Model α) : Except (Fault α) Nat := do
  if ResultStatus.isResult (← m.primalStatus) then return 1
  if ResultStatus.isResult (← m.dualStatus) then return 1
  return 0

end Model

end MixedInteger
