import MixedInteger.Fault
import MixedInteger.Problem.LinearProgram
import MixedInteger.Problem.Query
import MixedInteger.Solver.Outcome

/-! The tree of a branch-and-bound search. Active nodes wait to be visited. A node
is known by its number and carries the bounds of columns that its branching
decisions imply; all nodes share one working problem, whose bounds are set when a
node is taken in hand. -/

namespace MixedInteger

/-- The decision that made a node: a column was rounded up or down over a distance. -/
structure Decision (α : Type) where
  column : Nat
  up : Bool
  distance : α

structure Node (α : Type) [Scalar α] where
  number : Nat
  level : Nat
  /-- Zero for the root. -/
  parent : Nat
  /-- The bound on the objective below this node; until the node is solved it is
  the one of its parent. -/
  bound : α
  boxes : List (Nat × (α × α)) := []
  /-- How far the parent's relaxation was from integers. -/
  infeasibility : α := 0
  decision : Option (Decision α) := none

/-- What rounding a column down and up has cost so far, with the number of times. -/
structure History (α : Type) [Scalar α] where
  down : α := 0
  downs : α := 0
  up : α := 0
  ups : α := 0

/-- A point that is integral where it has to be. -/
structure Incumbent (α : Type) where
  objective : α
  point : List α

structure Tree (α : Type) [Scalar α] where
  params : Parameter.Search α
  original : Problem α
  /-- The working problem. Rows that are added to it stay. -/
  problem : Problem α
  rootBounds : List (α × α)
  /-- The columns whose bounds differ from those at the root. -/
  touched : List Nat := []
  active : List (Node α) := []
  /-- The number of the node in hand. -/
  current : Option Nat := none
  nextNumber : Nat := 1
  /-- Somebody asked for the end. -/
  stopped : Bool := false
  /-- Seconds on the clock when the search began. -/
  began : α
  rootBound : α
  rootInfeasibility : α := 0
  histories : List (Nat × History α) := []
  /-- The event that is being announced. -/
  reason : Option Reason := none
  incumbent : Option (Incumbent α) := none
  solved : Nat := 0

variable {α : Type} [Scalar α]

/-- The kind of a box that branching made. -/
def boxKind (lower upper : α) : BoundKind :=
  if lower == upper then .fixed
  else match Scalar.isInf lower, Scalar.isInf upper with
    | true, true => .free
    | true, false => .upper
    | false, true => .lower
    | false, false => .double

/-- The first element whose key is less than that of all before and not greater
than any after it. -/
def firstLeast {β : Type} (less : β → β → Bool) : List β → Option β
  | [] => none
  | x :: xs => some (xs.foldl (fun best y => if less y best then y else best) x)

namespace Tree

def sense (t : Tree α) : α := t.original.sense

/-- A search of a problem, before there are any nodes. -/
def ofProblem (params : Parameter.Search α) (p : Problem α) (now : α) : Tree α :=
  { params := params
    original := p
    problem := p.copy
    rootBounds := p.columns.map fun c => (c.lower, c.upper)
    began := now
    rootBound := -p.sense * Scalar.infinity }

/-- By a key first; of equal keys the later node comes first. -/
def precedes (key : Node α → α) (a b : Node α) : Bool :=
  if key a == key b then decide (b.number < a.number) else decide (key a < key b)

/-- The node whose bound promises most. -/
def best (t : Tree α) : Option (Node α) :=
  firstLeast (precedes fun n => t.sense * n.bound) t.active

/-- Zero when there is none. -/
def bestNumber (t : Tree α) : Nat :=
  match t.best with
  | some n => n.number
  | none => 0

def currentNumber (t : Tree α) : Nat := t.current.getD 0

def nodeBound (t : Tree α) (number : Int) : Except SearchError α :=
  match t.active.find? fun n => (n.number : Int) == number with
  | some n => .ok n.bound
  | none => .error (.inactiveNode number)

/-- The distance between incumbent and bound, relative to the incumbent. -/
def gap (t : Tree α) : α :=
  match t.incumbent, t.best with
  | none, _ => Scalar.largest
  | some _, none => 0
  | some i, some n =>
    Scalar.abs (i.objective - n.bound) / (Scalar.abs i.objective + Scalar.epsilon)

def stop (t : Tree α) : Tree α := { t with stopped := true }

/-! ### Nodes -/

/-- May something better than the incumbent lie under this bound? -/
def hopeful (t : Tree α) (bound : α) : Bool :=
  match t.incumbent with
  | none => true
  | some i =>
    let margin := t.params.objectiveTolerance * (1 + Scalar.abs i.objective)
    decide (t.sense * bound < t.sense * i.objective - margin)

/-- The root of the tree. -/
def plant (t : Tree α) : Tree α :=
  let root : Node α := { number := t.nextNumber, level := 0, parent := 0, bound := t.rootBound }
  { t with nextNumber := t.nextNumber + 1, active := t.active ++ [root] }

/-- A node under `parent` with a decision and the box that follows from it. -/
def grow (t : Tree α) (parent : Node α) (decision : Decision α) (box : α × α)
    (infeasibility : α) : Tree α :=
  let others := parent.boxes.filter fun b => b.1 != decision.column
  let child : Node α :=
    { number := t.nextNumber
      level := parent.level + 1
      parent := parent.number
      bound := parent.bound
      boxes := others ++ [(decision.column, box)]
      infeasibility := infeasibility
      decision := some decision }
  { t with nextNumber := t.nextNumber + 1, active := t.active ++ [child] }

/-- A node that has been dealt with. -/
def fathom (t : Tree α) (n : Node α) : Tree α :=
  { t with
    active := t.active.filter fun m => m.number != n.number
    current := if t.current = some n.number then none else t.current }

/-- Drops the nodes without hope, except the one in hand. -/
def prune (t : Tree α) : Tree α :=
  { t with active := t.active.filter fun m => t.current == some m.number || t.hopeful m.bound }

/-- Gives a node that was solved its own bound. -/
def settle (t : Tree α) (n : Node α) : Tree α :=
  { t with
    active := t.active.map fun m => if m.number = n.number then n else m
    rootBound := if n.number = 1 then n.bound else t.rootBound }

/-- The node to visit next. -/
def select (t : Tree α) : Except SearchError (Option (Node α)) :=
  let technique := t.params.backtracking
  if t.active.length = 1 ∨ technique = 1 then .ok t.active.getLast?
  else if technique = 2 then .ok t.active.head?
  else if technique = 4 then
    match t.incumbent with
    | some i =>
      if 0 < t.rootInfeasibility then
        let slope := (i.objective - t.rootBound) / t.rootInfeasibility
        let key (n : Node α) := t.sense * (n.bound + slope * n.infeasibility)
        .ok (firstLeast (precedes key) t.active)
      else .ok t.active.getLast?
    | none => .ok t.active.getLast?
  else if technique ≠ 3 then .error (.backtracking technique)
  else .ok t.best

def setBox (p : Problem α) (column : Nat) (box : α × α) : Except (ProblemError α) (Problem α) :=
  p.leniently fun q => q.setColumnBounds column (boxKind box.1 box.2) box.1 box.2

def setBoxes (p : Problem α) (boxes : List (Nat × (α × α))) :
    Except (ProblemError α) (Problem α) :=
  boxes.foldlM (fun p b => setBox p b.1 b.2) p

/-- Takes a node in hand: its boxes replace those of the node before. -/
def activate (t : Tree α) (n : Node α) : Except (ProblemError α) (Tree α) := do
  let back := t.touched.map fun j => (j, t.rootBounds.getD (j - 1) (0, 0))
  let p ← setBoxes t.problem back
  let p ← setBoxes p n.boxes
  return { t with problem := p, touched := n.boxes.map (·.1), current := some n.number }

/-! ### Incumbents -/

/-- The relaxation's point with its integer columns rounded. -/
def roundedPoint (t : Tree α) : Except RoundingError (List α) :=
  t.problem.numberedColumns.mapM fun e =>
    let x := valueAt t.problem.basic.colPrimal e.1
    if e.2.kind = .integer then Scalar.nearest x else .ok x

def objectiveAt (p : Problem α) (x : List α) : α :=
  p.constant + Scalar.sum (List.zipWith (fun c v => c.cost * v) p.columns x)

/-- The incumbent that the relaxation yields, if it is better than the one there is. -/
def candidate (t : Tree α) : Except RoundingError (Option (Incumbent α)) := do
  let x ← t.roundedPoint
  let objective := objectiveAt t.problem x
  match t.incumbent with
  | none => return some ⟨objective, x⟩
  | some i =>
    if t.sense * i.objective ≤ t.sense * objective then return none
    else return some ⟨objective, x⟩

/-- The incumbent as a solution of the original problem. -/
def solution (t : Tree α) (status : SolutionStatus) : Solution α :=
  match t.incumbent with
  | none => { status := status }
  | some i =>
    { status := status
      objective := i.objective
      colPrimal := i.point
      rowPrimal := t.original.rows.map fun r =>
        Scalar.sum (r.coefs.map fun e => e.2 * i.point.getD (e.1 - 1) 0) }

end Tree

end MixedInteger
