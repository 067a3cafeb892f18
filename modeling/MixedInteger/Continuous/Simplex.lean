import MixedInteger.Continuous.Optimum
import MixedInteger.Problem.Query
import MixedInteger.Solver.Session
import MixedInteger.Text.Case

/-! The methods for continuous problems: the simplex method on the linear program of a
problem, its exact variant and the interior-point method. A run answers with the
problem that holds the new solution and with a return code. The code is zero when
the method came to an end; the outcome is then the status of the solution. -/

namespace MixedInteger

variable {α σ : Type} [Scalar α]

namespace Problem

/-- Without columns every row has activity zero. -/
def emptySolution (p : Problem α) : Solution α :=
  let feasible := p.rows.all fun r => decide (r.lower ≤ 0) && decide (0 ≤ r.upper)
  let zeros : List α := List.replicate p.rowCount 0
  { status := if feasible then .optimal else .noFeasible
    dualStatus := if feasible then .feasible else .undefined
    objective := p.constant
    rowPrimal := zeros
    rowDual := zeros
    rowBasis := List.replicate p.rowCount .basic }

def withBasic (p : Problem α) (s : Solution α) : Problem α := { p with basic := s }

end Problem

namespace Parameter.Simplex

/-- The dual simplex method, which may stop at a limit of the objective. -/
def isDual (s : Simplex α) : Bool := s.method == 2 || s.method == 3

def options (s : Simplex α) (primalTolerance dualTolerance : α) : SolverOptions α :=
  { presolve := s.presolve != 0
    primalTolerance := some primalTolerance
    dualTolerance := some dualTolerance
    edgeWeight := some (if s.pricing = 0x11 then .dantzig else .steepest) }

/-- The options with the limits that are in force. -/
def limited (s : Simplex α) (o : SolverOptions α) : Task α σ (SolverOptions α) := do
  let o := if s.iterationLimit < unlimited then { o with iterationLimit := some s.iterationLimit }
    else o
  if s.timeLimit < unlimited then
    let limit ← Task.number s.timeLimit
    return { o with timeLimit := some (limit / Scalar.ofNat 1000) }
  else return o

end Parameter.Simplex

/-- Without an objective an unbounded program has an optimum and an infeasible one
still has none. -/
def isUnbounded (host : Host α σ) (r : Request α) : Task α σ Bool := do
  let program := { r.program with cost := r.program.cost.map fun _ => 0 }
  let a ← Task.ask host { r with program := program }
  return a.status == 0

/-- A program without an optimum. The presolver reports this by the code, and so
does the dual method for an objective limit; otherwise the solution tells. -/
def noOptimum (params : Parameter.Simplex α) (name : String) (p : Problem α)
    (unbounded : Bool) : Task α σ (Problem α × ReturnCode) := do
  if params.presolve ≠ 0 then
    Task.tellAt Parameter.levelNormal params.messageLevel (.presolvedAway name unbounded)
    return (p.withBasic {}, if unbounded then .noDual else .noPrimal)
  else if !unbounded && params.isDual && p.direction ≠ .maximize &&
      decide (params.objectiveUpper < Scalar.infinity) then
    return (p.withBasic { status := .infeasible, dualStatus := .feasible }, .objectiveUpper)
  else
    Task.tellAt Parameter.levelNormal params.messageLevel (.noOptimum name unbounded)
    return (p.withBasic {
      status := if unbounded then .unbounded else .noFeasible
      dualStatus := if unbounded then .noFeasible else .undefined }, .done)

/-- Has the dual method run past a limit of the objective? -/
def objectiveLimit (params : Parameter.Simplex α) (p : Problem α) (objective : α) : ReturnCode :=
  if !params.isDual then .done
  else if p.direction = .maximize then
    if objective < params.objectiveLower then .objectiveLower else .done
  else if params.objectiveUpper < objective then .objectiveUpper else .done

/-- The run shared by `simplex` and `exact`. -/
def solveBasic (host : Host α σ) (params : Parameter.Simplex α) (options : SolverOptions α)
    (name : String) (p : Problem α) : Task α σ (Problem α × ReturnCode) := do
  let say (n : Notice α) : Task α σ Unit := Task.tellAt Parameter.levelNormal params.messageLevel n
  let start ← Task.now host
  let nonZeros := p.rows.foldl (fun n r => n + r.coefs.length) 0
  say (.size name p.rowCount p.columnCount nonZeros)
  if p.columns.isEmpty then return (p.withBasic p.emptySolution, .done)
  let lp := p.linearProgram
  let request : Request α := ⟨lp, .simplex, ← params.limited options⟩
  let a ← Task.ask host request
  if a.status = 1 then
    if Text.mentions "time" a.message then
      say (.timeLimit name)
      return (p.withBasic {}, .timeLimit)
    else
      say (.iterationLimit name)
      return (p.withBasic {}, .iterationLimit)
  else if a.status = 4 then
    Task.tellAt Parameter.levelErrors params.messageLevel (.solverFailure name a.message)
    return (p.withBasic {}, .failure)
  else if a.status = 2 then noOptimum params name p (← isUnbounded host request)
  else if a.status = 3 then noOptimum params name p true
  else
    let s := (p.optimum lp a).withBasis p
    say (.optimum name s.objective ((← Task.now host) - start))
    return (p.withBasic s, objectiveLimit params p s.objective)

/-- Crossed bounds are not handed to the solver. -/
def refuse (params : Parameter.Simplex α) (name : String) (p : Problem α) (why : Obstacle α) :
    Task α σ (Problem α × ReturnCode) := do
  Task.tellAt Parameter.levelErrors params.messageLevel (.refused name why)
  return (p.withBasic {}, .badBounds)

def simplex (host : Host α σ) (params : Parameter.Simplex α) (p : Problem α) :
    Task α σ (Problem α × ReturnCode) :=
  match p.badBounds with
  | some why => refuse params "simplex" p why
  | none =>
    let options := params.options params.boundTolerance params.dualTolerance
    solveBasic host params options "simplex" p

/-! ### The exact method -/

/-- A session and the parameters that a caller handed to a run. -/
structure Lent (α σ : Type) [Scalar α] where
  session : Session α σ
  params : Parameter.Simplex α

/-- Work on the parameters of a caller. What it wrote to them before it failed stays. -/
abbrev Borrowing (α σ : Type) [Scalar α] := EStateM (Fault α) (Lent α σ)

namespace Borrowing

variable {β : Type}

def ofTask (f : Task α σ β) : Borrowing α σ β := fun l =>
  match f l.session with
  | .ok b session => .ok b { l with session := session }
  | .error e session => .error e { l with session := session }

def params : Borrowing α σ (Parameter.Simplex α) := return (← get).params

def setPresolve (presolve : Int) : Borrowing α σ Unit :=
  modify fun l => { l with params := { l.params with presolve := presolve } }

/-- The work on parameters that nobody else holds. -/
def alone (f : Borrowing α σ β) (params : Parameter.Simplex α) : Task α σ β := fun s =>
  match f ⟨s, params⟩ with
  | .ok b l => .ok b l.session
  | .error e l => .error e l.session

end Borrowing

/-- As `simplex` with the tightest tolerances and without the presolver, which is switched
off in the parameters of the caller and put back on every way out; a problem without rows
or columns is refused. -/
def exactOnLoan (host : Host α σ) (p : Problem α) : Borrowing α σ (Problem α × ReturnCode) := do
  let params ← Borrowing.params
  if p.rows.isEmpty || p.columns.isEmpty then
    Borrowing.ofTask do
      Task.tellAt Parameter.levelErrors params.messageLevel (.emptyProblem "exact")
      return (p.withBasic {}, .failure)
  else match p.badBounds with
    | some why => Borrowing.ofTask (refuse params "exact" p why)
    | none =>
      let tight : α := Scalar.ofDecimal 1 (-10)
      let options := { params.options tight tight with presolve := false }
      Borrowing.setPresolve 0
      try
        Borrowing.ofTask (solveBasic host (← Borrowing.params) options "exact" p)
      finally
        Borrowing.setPresolve params.presolve

def exact (host : Host α σ) (params : Parameter.Simplex α) (p : Problem α) :
    Task α σ (Problem α × ReturnCode) :=
  (exactOnLoan host p).alone params

namespace Borrowing

variable {β : Type}

theorem params_run (l : Lent α σ) : params l = .ok l.params l := rfl

theorem params_bind (f : Parameter.Simplex α → Borrowing α σ β) (l : Lent α σ) :
    (params >>= f) l = f l.params l := rfl

theorem setPresolve_run (presolve : Int) (l : Lent α σ) :
    setPresolve presolve l = .ok () { l with params := { l.params with presolve := presolve } } :=
  rfl

/-- What runs without the presolver leaves the parameters as they were, whatever comes of it. -/
theorem unpresolved_run (f : Parameter.Simplex α → Task α σ β) (l : Lent α σ) :
    (do setPresolve 0
        try ofTask (f (← params)) finally setPresolve l.params.presolve : Borrowing α σ β) l =
      ofTask (f { l.params with presolve := 0 }) l := by
  cases hf : f { l.params with presolve := 0 } l.session <;>
    simp [bind, EStateM.bind, Functor.map, EStateM.map, tryFinally, tryFinally', setPresolve_run,
      params_run, ofTask, hf]

variable {f : Borrowing α σ β} {g : Task α σ β} {l : Lent α σ} (h : f l = ofTask g l)
include h

theorem alone_run : f.alone l.params l.session = g l.session := by
  rw [alone, h, ofTask]
  cases g l.session <;> rfl

theorem ofTask_alone : f l = ofTask (f.alone l.params) l := by
  rw [ofTask, alone_run h, h]
  rfl

end Borrowing

section
variable (host : Host α σ) (params : Parameter.Simplex α) (p : Problem α)

/-- While the method runs, its parameters are those of the caller without the presolver. -/
theorem exact_eq :
    exact host params p = (do
      if p.rows.isEmpty || p.columns.isEmpty then
        Task.tellAt Parameter.levelErrors params.messageLevel (.emptyProblem "exact")
        return (p.withBasic {}, .failure)
      match p.badBounds with
      | some why => refuse params "exact" p why
      | none =>
        let params := { params with presolve := 0 }
        let tight : α := Scalar.ofDecimal 1 (-10)
        solveBasic host params (params.options tight tight) "exact" p) := by
  funext s
  refine Borrowing.alone_run (l := ⟨s, params⟩) ?_
  rw [exactOnLoan, Borrowing.params_bind]
  split
  · rfl
  · cases p.badBounds with
    | some why => rfl
    | none => exact Borrowing.unpresolved_run _ ⟨s, params⟩

/-- The caller gets its parameters back as they were, also when the solver fails. -/
theorem exactOnLoan_eq (l : Lent α σ) :
    exactOnLoan host p l = Borrowing.ofTask (exact host l.params p) l := by
  have hgiven : ∃ g, exactOnLoan host p l = Borrowing.ofTask g l := by
    rw [exactOnLoan, Borrowing.params_bind]
    split
    · exact ⟨_, rfl⟩
    · cases p.badBounds with
      | some why => exact ⟨_, rfl⟩
      | none => exact ⟨_, Borrowing.unpresolved_run _ l⟩
  exact Borrowing.ofTask_alone hgiven.choose_spec

end

/-! ### The interior-point method -/

def Problem.withInterior (p : Problem α) (s : Solution α) : Problem α := { p with interior := s }

/-- The solution is kept apart from the basic one. There are no limits, and an infeasible problem
is not told from an unbounded one. -/
def interior (host : Host α σ) (params : Parameter.Interior) (p : Problem α) :
    Task α σ (Problem α × ReturnCode) := do
  let say (n : Notice α) : Task α σ Unit := Task.tellAt Parameter.levelNormal params.messageLevel n
  let complain (n : Notice α) : Task α σ Unit :=
    Task.tellAt Parameter.levelErrors params.messageLevel n
  if p.rows.isEmpty || p.columns.isEmpty then
    complain (.emptyProblem "interior")
    return (p.withInterior {}, .failure)
  say (.interiorSize p.rowCount p.columnCount)
  let lp := p.linearProgram
  let a ← Task.ask host ⟨lp, .interior, {}⟩
  if a.status = 1 then return (p.withInterior {}, .iterationLimit)
  else if a.status = 4 then
    complain (.interiorFailure a.message)
    return (p.withInterior {}, if Text.mentions "numer" a.message then .unstable else .noConvergence)
  else if a.status = 2 ∨ a.status = 3 then
    say .interiorInfeasible
    return (p.withInterior { status := .noFeasible }, .done)
  else
    let s := p.optimum lp a
    say (.interiorOptimum s.objective)
    return (p.withInterior s, .done)

end MixedInteger
