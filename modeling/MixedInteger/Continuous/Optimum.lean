import MixedInteger.Problem.LinearProgram
import MixedInteger.Solver.Request
import MixedInteger.Solver.Session

/-! An optimum of the linear program, read back as a solution of the problem, and
certificates where there is none. Signs that were changed for the solver are changed
back: duals tell how the objective of the problem itself reacts. A direction in which
the objective improves for ever shows that a problem is unbounded; multipliers of the
rows that combine to a contradiction show that the rows cannot be satisfied. Where
there is no certificate every component is not a number. -/

namespace MixedInteger

variable {α σ : Type} [Scalar α]

/-! ### Optima -/

/-- Values this near to a bound are at the bound. -/
def activeTolerance : α := Scalar.ofDecimal 1 (-7)

/-- How the minimised objective reacts to the right-hand side of each row. -/
def LinearProgram.rowMarginals (lp : LinearProgram α) (a : Answer α) (rows : Nat) : List α :=
  let add (duals : List α) (e : (Nat × α) × α) : List α :=
    duals.modify e.1.1 fun d => d + e.1.2 * e.2
  let inequalities := (lp.ubRows.zip a.ubMarginals).foldl add (List.replicate rows 0)
  ((lp.eqRows.zip a.eqMarginals).map fun e => ((e.1, 1), e.2)).foldl add inequalities

def LinearProgram.activity (lp : LinearProgram α) (x : List α) : List α :=
  lp.matrix.map fun row => dot row x

def Answer.boundMarginals (a : Answer α) : List α :=
  List.zipWith (· + ·) a.lowerMarginals a.upperMarginals

def scaled (s : α) (xs : List α) : List α := xs.map fun x => s * x

/-- The values and duals of an optimum, without a basis. -/
def Problem.optimum (p : Problem α) (lp : LinearProgram α) (a : Answer α) : Solution α :=
  { status := .optimal
    dualStatus := .feasible
    objective := lp.sense * a.value + p.constant
    colPrimal := a.point
    colDual := scaled lp.sense a.boundMarginals
    rowPrimal := lp.activity a.point
    rowDual := scaled lp.sense (lp.rowMarginals a p.rowCount) }

/-! ### Basis statuses from values -/

/-- The bound that a value sits at. -/
def activeBound (x lower upper : α) : BasisStatus :=
  if !Scalar.isInf lower && Scalar.abs (x - lower) ≤ activeTolerance then .atLower
  else if !Scalar.isInf upper && Scalar.abs (x - upper) ≤ activeTolerance then .atUpper
  else .basic

def Column.basis (c : Column α) (x dual : α) : BasisStatus :=
  let idle : Bool := Scalar.abs dual ≤ activeTolerance
  match c.bound with
  | .fixed => .fixed
  | .free =>
    if Scalar.abs x ≤ activeTolerance ∧ activeTolerance < Scalar.abs dual then .free else .basic
  | _ => if idle then .basic else activeBound x c.lower c.upper

def Row.basis (r : Row α) (activity dual : α) : BasisStatus :=
  let idle : Bool := Scalar.abs dual ≤ activeTolerance
  if r.bound = .free || idle then .basic
  else if r.bound = .fixed then .fixed
  else activeBound activity r.lower r.upper

/-- Statuses of a basis that fits the values and duals. -/
def Solution.withBasis (s : Solution α) (p : Problem α) : Solution α :=
  { s with
    colBasis := List.zipWith (fun c v => c.basis v.1 v.2) p.columns (s.colPrimal.zip s.colDual)
    rowBasis := List.zipWith (fun r v => r.basis v.1 v.2) p.rows (s.rowPrimal.zip s.rowDual) }

/-! ### Certificates -/

/-- The steps of at most one that do not leave the bounds at infinity. -/
def BoundKind.coneBounds : BoundKind → Option α × Option α
  | .fixed | .double => (some 0, some 0)
  | .lower => (some 0, some 1)
  | .upper => (some (-1), some 0)
  | .free => (some (-1), some 1)

/-- The best direction of recession in the unit box. -/
def Problem.recessionProgram (p : Problem α) : LinearProgram α :=
  let lp := p.linearProgram
  { lp with
    ubBound := lp.ubBound.map fun bs => bs.map fun _ => 0
    eqBound := lp.eqBound.map fun bs => bs.map fun _ => 0
    bounds := p.columns.map fun c => c.bound.coneBounds }

def unboundedRay (host : Host α σ) (p : Problem α) : Task α σ (List α) := do
  let a ← Task.ask host ⟨p.recessionProgram, .simplex, {}⟩
  if a.status ≠ 0 ∨ -activeTolerance < a.value then
    Task.tell .noRay
    return List.replicate p.columnCount Scalar.nan
  else return a.point

/-- The numbers of the rows that can be violated. -/
def Problem.restrictedRows (p : Problem α) : List Nat :=
  (p.numberedRows.filter fun e => e.2.bound ≠ .free).map (·.1)

/-- The problem of least total violation: each restricted row gets one column that
adds to its activity and one that takes from it. -/
def Problem.violationProblem (p : Problem α) : Problem α :=
  let restricted := p.restrictedRows
  let slack : Column α := { bound := .lower, lower := 0, cost := 1 }
  let first := p.columnCount + 1
  let extend (e : Nat × Row α) : Row α :=
    match restricted.idxOf? e.1 with
    | none => e.2
    | some k =>
      { e.2 with coefs := e.2.coefs ++ [(first + 2 * k, 1), (first + 2 * k + 1, -1)] }
  { p.copy with
    direction := .minimize
    columns := (p.columns.map fun c => { c with cost := 0 }) ++
      List.replicate (2 * restricted.length) slack
    rows := p.numberedRows.map extend }

/-- Rows bounded below get multipliers that are not negative, rows bounded above
such that are not positive. -/
def infeasibilityRay (host : Host α σ) (p : Problem α) : Task α σ (List α) := do
  let nothing : List α := List.replicate p.rowCount Scalar.nan
  if p.restrictedRows.isEmpty then return nothing
  let lp := p.violationProblem.linearProgram
  let a ← Task.ask host ⟨lp, .simplex, {}⟩
  if a.status ≠ 0 ∨ a.value ≤ activeTolerance then
    Task.tell .noCertificate
    return nothing
  else return lp.rowMarginals a p.rowCount

end MixedInteger
