import MixedInteger.Model.Constraint
import MixedInteger.Search.Event

/-! What a callback is handed. It reaches the model and the search tree while an
event lasts; afterwards every use is refused. -/

namespace MixedInteger

structure CallbackData (α : Type) [Scalar α] where
  model : Model α
  valid : Bool := true

variable {α σ : Type} [Scalar α]

/-- Called at each event of a search, with the model as it is then. -/
abbrev Callback (α σ : Type) [Scalar α] := CallbackData α → Listener α σ

namespace CallbackData

def expired (d : CallbackData α) : CallbackData α := { d with valid := false }

/-- The model, while the data are valid. -/
def model? (d : CallbackData α) : Except (Fault α) (Model α) :=
  if d.valid then .ok d.model else .error (.callback .expired)

def ofExcept {β : Type} : Except (Fault α) β → SearchTask α σ β
  | .ok b => pure b
  | .error e => throw e

def tree (d : CallbackData α) : SearchTask α σ (Tree α) := do
  let _ ← ofExcept d.model?
  SearchTask.tree

/-- Zero outside of events. -/
def reason (d : CallbackData α) : SearchTask α σ Int := do
  return ((← d.tree).reason.map Reason.code).getD 0

def reasonName (d : CallbackData α) : SearchTask α σ String := do
  return Notice.reasonName (← d.tree).reason

def described (d : CallbackData α) : SearchTask α σ String := do
  if d.valid then return "CallbackData(reason=" ++ (← d.reasonName) ++ ")"
  else return "CallbackData(expired)"

/-- The search ends after the event. -/
def terminate (d : CallbackData α) : SearchTask α σ Unit := do
  let _ ← d.tree
  SearchTask.modifyTree Tree.stop

/-- The value of a variable in the relaxation, when rows can be added. -/
def variablePrimal (d : CallbackData α) (i : IndexArg α) : SearchTask α σ α := do
  let t ← d.tree
  if t.reason ≠ some .rowGeneration then throw (.callback .primalReason)
  let info ← ofExcept (d.model.info i)
  SearchTask.ofProblem (t.problem.columnValue t.problem.basic.colPrimal info.column)

def editRow {β : Type} (edit : RowEdit α β) : SearchTask α σ β := do
  let t ← SearchTask.tree
  match edit t.problem with
  | .ok b p =>
    SearchTask.modifyTree fun t => { t with problem := p }
    return b
  | .error e p =>
    SearchTask.modifyTree fun t => { t with problem := p }
    throw (.affineRow e)

/-- Adds a row to the working problem; it holds for the rest of the search. -/
def addLazy (d : CallbackData α) (f : FunctionArg α) (s : SetArg α) : SearchTask α σ Unit := do
  let row := match s with
    | .set set => set.isRow
    | .raw _ => false
  if !row then throw (.callback (.lazySet s.kind))
  match f with
  | .affine f =>
    if !(f.constant == 0) then throw (.model (.constantNotZero f.constant))
    let (columns, values) ← ofExcept ((← ofExcept d.model?).rowOf f)
    let (sense, rhs) ← ofExcept s.sense
    let i ← editRow (Problem.addAffineRow columns values sense rhs)
    SearchTask.ofTask (Task.tell (.lazyRow i (← SearchTask.tree).reason sense rhs))
  | _ => throw .missingPart

/-- By how much a value misses a right-hand side. -/
def violation (sense : RowSense) (x rhs : α) : α :=
  match sense with
  | .atMost => x - rhs
  | .atLeast => rhs - x
  | _ => Scalar.abs (x - rhs)

/-- The value of a function at the relaxation. -/
def valueOf (d : CallbackData α) (f : AffineFunction α) : SearchTask α σ α := do
  let t ← d.tree
  let values ← f.terms.mapM fun term => do
    let info ← ofExcept (d.model.info (.var term.var))
    let x ← SearchTask.ofProblem (t.problem.columnValue t.problem.basic.colPrimal info.column)
    return term.coefficient * x
  return Scalar.sum values

/-- Adds a row if the relaxation violates it; tells whether it did. -/
def addCut (d : CallbackData α) (f : AffineFunction α) (s : SetArg α) : SearchTask α σ Bool := do
  let (sense, rhs) ← ofExcept s.sense
  if Scalar.ofDecimal 1 (-6) < violation sense (← d.valueOf f) rhs then
    d.addLazy (.affine f) s
    return true
  else return false

end CallbackData

end MixedInteger
