import MixedInteger.Continuous.Simplex
import MixedInteger.Search.Branching
import MixedInteger.Search.Event

/-! Branch and bound. A search takes a node in hand, solves its relaxation, and
gives it up, takes its point as an incumbent or splits it in two. When rows were
added to the relaxation it is solved again. Each of these is one step, and the
number of steps is bounded by an argument. -/

namespace MixedInteger

variable {α σ : Type} [Scalar α]

def Problem.withInteger (p : Problem α) (s : Solution α) : Problem α := { p with integer := s }

namespace Search

open SearchTask

/-- Who answers relaxations and who hears of events. -/
structure Company (α σ : Type) [Scalar α] where
  host : Host α σ
  listener : Option (Listener α σ) := none

inductive Phase (α : Type) [Scalar α] where
  /-- A node has to be chosen. -/
  | choose
  /-- The node in hand has to be solved, perhaps not for the first time. -/
  | visit (n : Node α)

inductive Next (α : Type) [Scalar α] where
  | go (phase : Phase α)
  | done (code : ReturnCode)

/-- Announces an event; tells whether the search is to end. -/
def heard (c : Company α σ) (r : Reason) : SearchTask α σ Bool := do
  announce c.listener r
  return (← tree).stopped

/-! ### Time -/

/-- Milliseconds since the search began. -/
def elapsed (c : Company α σ) : SearchTask α σ α := do
  let now ← ofTask (Task.now c.host)
  return (now - (← tree).began) * Scalar.ofNat 1000

def timeUp (c : Company α σ) : SearchTask α σ Bool := do
  let limit := (← tree).params.timeLimit
  if limit < Parameter.unlimited then return decide (Scalar.ofInt limit ≤ (← elapsed c))
  else return false

/-- Settings for relaxations: the primal method with what is left of the time. -/
def relaxation (c : Company α σ) : SearchTask α σ (Parameter.Simplex α) := do
  let params := (← tree).params
  let settings : Parameter.Simplex α :=
    { messageLevel := if Parameter.levelErrors ≤ params.messageLevel then Parameter.levelErrors
        else Parameter.levelOff }
  if params.timeLimit < Parameter.unlimited then
    let limit ← ofTask (Task.number params.timeLimit)
    let rest ← ofRounding (Scalar.toInt (limit - (← elapsed c)))
    return { settings with timeLimit := max 1 rest }
  else return settings

/-- Solves the relaxation of the working problem. -/
def relax (c : Company α σ) (settings : Parameter.Simplex α) : SearchTask α σ ReturnCode := do
  let (p, code) ← ofTask (simplex c.host settings (← tree).problem)
  modifyTree fun t => { t with problem := p }
  return code

/-! ### Steps -/

def rowCount : SearchTask α σ Nat := return (← tree).problem.rowCount

/-- Keeps the relaxation's point if it is the best so far. -/
def record : SearchTask α σ Bool := do
  let t ← tree
  match ← ofRounding t.candidate with
  | none => return false
  | some i =>
    modifyTree fun t => { t with incumbent := some i }
    say (.incumbent t.solved i.objective t.active.length)
    return true

/-- A relaxation whose point is integral. -/
def takePoint (c : Company α σ) (n : Node α) : SearchTask α σ (Next α) := do
  if ← record then
    if ← heard c .newIncumbent then return .done .stopped
  modifyTree fun t => (t.fathom n).prune
  return .go .choose

/-- A relaxation with fractional columns. -/
def divide (c : Company α σ) (n : Node α) (fs : List (Fraction α)) : SearchTask α σ (Next α) := do
  if n.number = 1 then modifyTree fun t => { t with rootInfeasibility := infeasibility fs }
  if ← heard c .heuristic then return .done .stopped
  let rows ← rowCount
  if ← heard c .cutGeneration then return .done .stopped
  if rows < (← rowCount) then return .go (.visit n)
  if ← heard c .branching then return .done .stopped
  match (← tree).choose fs with
  | none => return .go .choose
  | some f =>
    modifyTree fun t => t.split n f fs
    say (.branched n.number f.column f.value n.level)
    return .go .choose

/-- A relaxation with an optimum. -/
def weigh (c : Company α σ) (n : Node α) : SearchTask α σ (Next α) := do
  let objective := (← tree).problem.basic.objective
  modifyTree fun t => t.learn n objective
  let n := { n with bound := objective }
  modifyTree fun t => t.settle n
  if !(← tree).hopeful objective then
    modifyTree fun t => t.fathom n
    return .go .choose
  let rows ← rowCount
  if ← heard c .rowGeneration then return .done .stopped
  if rows < (← rowCount) then return .go (.visit n)
  let fs ← ofRounding (← tree).fractional
  if fs.isEmpty then takePoint c n else divide c n fs

/-- One solution of the node in hand. -/
def visit (c : Company α σ) (n : Node α) : SearchTask α σ (Next α) := do
  modifyTree fun t => { t with solved := t.solved + 1 }
  let code ← relax c (← relaxation c)
  if code = .timeLimit then return .done .timeLimit
  if code ≠ .done then return .done .failure
  match (← tree).problem.basic.status with
  | .noFeasible =>
    modifyTree fun t => t.fathom n
    return .go .choose
  | .optimal => weigh c n
  | _ => return .done .failure

/-- Is the incumbent near enough to the bound? -/
def gapReached (t : Tree α) : Bool :=
  decide (0 < t.params.gap) && t.incumbent.isSome && decide (t.gap ≤ t.params.gap)

/-- Takes a node in hand. -/
def choose (c : Company α σ) : SearchTask α σ (Next α) := do
  if (← tree).active.isEmpty then
    modifyTree fun t => { t with current := none }
    return .done .done
  if ← timeUp c then return .done .timeLimit
  if gapReached (← tree) then
    say .gapReached
    return .done .gapReached
  modifyTree fun t => { t with current := none }
  if ← heard c .selection then return .done .stopped
  match ← ofSearch (← tree).select with
  | none => return .done .done
  | some n =>
    let t ← ofProblem ((← tree).activate n)
    modifyTree fun _ => t
    if ← heard c .preprocessing then return .done .stopped
    return .go (.visit n)

def step (c : Company α σ) : Phase α → SearchTask α σ (Next α)
  | .choose => choose c
  | .visit n => visit c n

/-- Steps until the search ends; `fuel` bounds their number. -/
def run (c : Company α σ) (fuel : Nat) (phase : Phase α) : SearchTask α σ ReturnCode :=
  match fuel with
  | 0 => throw .unfinished
  | fuel + 1 => do
    match ← step c phase with
    | .done code => return code
    | .go phase => run c fuel phase

/-- The search from its root on. -/
def explore (c : Company α σ) (fuel : Nat) : SearchTask α σ ReturnCode := do
  modifyTree Tree.plant
  run c fuel .choose

/-! ### The whole search -/

/-- What the presolver finds out about the root, when that is the end. -/
def presolved (c : Company α σ) : SearchTask α σ (Option (ReturnCode × SolutionStatus)) := do
  let settings ← relaxation c
  match ← relax c { settings with presolve := 1 } with
  | .noPrimal =>
    say .searchNoPrimal
    return some (.noPrimal, .noFeasible)
  | .noDual =>
    say .searchNoDual
    return some (.noDual, .undefined)
  | .timeLimit => return some (.timeLimit, .undefined)
  | .done =>
    if (← tree).problem.basic.status = .optimal then return none
    else return some (.failure, .undefined)
  | _ => return some (.failure, .undefined)

/-- The status of what the search leaves behind. -/
def verdict (code : ReturnCode) (found : Bool) : SolutionStatus :=
  if code = .done then if found then .optimal else .noFeasible
  else if found then .feasible else .undefined

/-- Searches and answers with the code and the solution. -/
def conclude (c : Company α σ) (fuel : Nat) : SearchTask α σ (ReturnCode × Solution α) := do
  let params := (← tree).params
  if Parameter.levelAll ≤ params.messageLevel then
    let p := (← tree).original
    ofTask (Task.tell (.searchSize p.rowCount p.columnCount p.integerCount))
  if params.presolve ≠ 0 then
    if let some (code, status) ← presolved c then return (code, { status := status })
  let code ← explore c fuel
  let t ← tree
  let status := verdict code t.incumbent.isSome
  match status, t.incumbent with
  | .optimal, some i => say (.searchOptimum i.objective t.solved)
  | .noFeasible, _ => say .searchInfeasible
  | _, _ => pure ()
  return (code, t.solution status)

/-- What keeps the search from starting. Bounds of integer columns must be integers. -/
def obstacle (p : Problem α) : Except RoundingError (Option (Obstacle α)) := do
  match ← p.fractionalBounds with
  | some o => return some o
  | none => return p.badBounds

end Search

open Search in
/-- Solves a problem with its integer columns. Without the presolver the problem must
carry an optimal basic solution. -/
def intopt (c : Company α σ) (params : Parameter.Search α) (fuel : Nat) (p : Problem α) :
    Task α σ (Problem α × ReturnCode) := do
  if let some why ← Task.ofRounding (obstacle p) then
    Task.tellAt Parameter.levelErrors params.messageLevel (.searchRefused why)
    return (p.withInteger {}, .badBounds)
  if params.presolve = 0 ∧ p.basic.status ≠ .optimal then
    Task.tellAt Parameter.levelErrors params.messageLevel .noRoot
    return (p.withInteger {}, .noRoot)
  let tree := Tree.ofProblem params p (← Task.now c.host)
  let (code, s) ← fun session =>
    match conclude c fuel ⟨session, tree⟩ with
    | .ok r scene => .ok r scene.session
    | .error e scene => .error e scene.session
  return (p.withInteger s, code)

end MixedInteger
