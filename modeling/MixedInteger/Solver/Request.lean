import MixedInteger.Problem.LinearProgram

/-! What is asked of a solver of linear programs, and what it answers. -/

namespace MixedInteger

/-- Simplex or interior-point. -/
inductive SolverMethod where
  | simplex
  | interior
deriving DecidableEq, Repr

def SolverMethod.text : SolverMethod → String
  | simplex => "highs-ds"
  | interior => "highs-ipm"

inductive EdgeWeight where
  | dantzig
  | steepest
deriving DecidableEq, Repr

def EdgeWeight.text : EdgeWeight → String
  | dantzig => "dantzig"
  | steepest => "steepest-devex"

/-- Absent options are left to the solver. -/
structure SolverOptions (α : Type) where
  presolve : Bool := false
  primalTolerance : Option α := none
  dualTolerance : Option α := none
  edgeWeight : Option EdgeWeight := none
  iterationLimit : Option Int := none
  timeLimit : Option α := none

structure Request (α : Type) where
  program : LinearProgram α
  method : SolverMethod
  options : SolverOptions α

/-- Status zero comes with an optimum, two says infeasible, three unbounded, one
that a limit was reached and four that the numbers made trouble. The marginals
are those of the inequalities, the equations and the two bounds of each column. -/
structure Answer (α : Type) where
  status : Int := 0
  message : String := ""
  point : List α
  value : α
  ubMarginals : List α
  eqMarginals : List α
  lowerMarginals : List α
  upperMarginals : List α

/-- The solver gives no answer at all. -/
inductive SolverError where
  /-- The data hold an infinity or a value that is not a number. -/
  | nonFinite
  | exhausted
deriving DecidableEq, Repr

/-- The world around an algorithm: a solver, which may remember what it was asked,
and a clock. -/
structure Host (α σ : Type) where
  solve : Request α → σ → Except SolverError (Answer α) × σ
  /-- Seconds. -/
  now : σ → α

end MixedInteger
