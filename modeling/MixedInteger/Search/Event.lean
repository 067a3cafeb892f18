import MixedInteger.Search.Tree
import MixedInteger.Solver.Session

/-! The events of a search. A listener hears of each one; it may look at the tree,
add rows to the working problem, ask for the end, or fail and so break off the
search. -/

namespace MixedInteger

structure Scene (α σ : Type) [Scalar α] where
  session : Session α σ
  tree : Tree α

/-- A step of a search. What it did before a failure stays. -/
abbrev SearchTask (α σ : Type) [Scalar α] := EStateM (Fault α) (Scene α σ)

abbrev Listener (α σ : Type) [Scalar α] := SearchTask α σ Unit

namespace SearchTask

variable {α σ : Type} [Scalar α]

def ofTask {β : Type} (task : Task α σ β) : SearchTask α σ β := fun s =>
  match task s.session with
  | .ok b session => .ok b { s with session := session }
  | .error e session => .error e { s with session := session }

def tree : SearchTask α σ (Tree α) := return (← get).tree

def modifyTree (f : Tree α → Tree α) : SearchTask α σ Unit :=
  modify fun s => { s with tree := f s.tree }

def ofSearch {β : Type} : Except SearchError β → SearchTask α σ β
  | .ok b => pure b
  | .error e => throw (.search e)

def ofProblem {β : Type} : Except (ProblemError α) β → SearchTask α σ β
  | .ok b => pure b
  | .error e => throw (.problem e)

def ofRounding {β : Type} (r : Except RoundingError β) : SearchTask α σ β :=
  ofTask (Task.ofRounding r)

/-- Reports progress of the search. -/
def say (n : Notice α) : SearchTask α σ Unit := do
  ofTask (Task.tellAt Parameter.levelNormal (← tree).params.messageLevel n)

/-- Announces an event. Outside of it the tree has no reason. -/
def announce (listener : Option (Listener α σ)) (r : Reason) : SearchTask α σ Unit := fun s =>
  match listener with
  | none => .ok () s
  | some hear =>
    let silence (s : Scene α σ) : Scene α σ := { s with tree := { s.tree with reason := none } }
    match hear { s with tree := { s.tree with reason := some r } } with
    | .ok _ s => .ok () (silence s)
    | .error e s => .error e (silence s)

end SearchTask

end MixedInteger
