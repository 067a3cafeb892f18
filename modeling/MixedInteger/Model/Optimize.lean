import MixedInteger.Continuous.Simplex
import MixedInteger.Continuous.Optimum
import MixedInteger.Model.Callback
import MixedInteger.Model.Status
import MixedInteger.Search.Run

/-! Solving a model. Without integer variables the method of the model is used, with
them a search. For a search the bounds of integer columns are rounded inwards and
binaries are boxed; afterwards they are put back, also when the search fails. -/

namespace MixedInteger

/-- A model at work. -/
structure Workbench (α σ : Type) [Scalar α] where
  session : Session α σ
  model : Model α

/-- What a failing solve did to the model before it failed stays. -/
abbrev Solving (α σ : Type) [Scalar α] := EStateM (Fault α) (Workbench α σ)

/-- A world with the bound and gap that the last event of a search showed. -/
structure Watched (α σ : Type) where
  world : σ
  bound : α
  gap : α

variable {α σ : Type} [Scalar α]

def Host.watched (host : Host α σ) : Host α (Watched α σ) where
  solve r w :=
    let (a, world) := host.solve r w.world
    (a, { w with world := world })
  now w := host.now w.world

def Session.watched (s : Session α σ) (bound gap : α) : Session α (Watched α σ) :=
  ⟨⟨s.world, bound, gap⟩, s.journal⟩

def Session.unwatched (s : Session α (Watched α σ)) : Session α σ := ⟨s.world.world, s.journal⟩

namespace Model

def withWatched (m : Model α) (w : Watched α σ) : Model α :=
  { m with last := { m.last with objectiveBound := w.bound, relativeGap := w.gap } }

/-- Calls the callback, which sees the model with the bound and gap noted so far. -/
def hear (m : Model α) (call : Callback α σ) : Listener α (Watched α σ) := fun s =>
  let w := s.session.world
  let back (r : Scene α σ) : Scene α (Watched α σ) :=
    ⟨r.session.watched w.bound w.gap, r.tree⟩
  let data : CallbackData α := { model := m.withWatched w }
  match call data ⟨s.session.unwatched, s.tree⟩ with
  | .ok _ r => .ok () (back r)
  | .error e r => .error e (back r)

/-- Notes bound and gap of the tree, then calls the callback. -/
def watch (m : Model α) (callback : Option (Callback α σ)) : Listener α (Watched α σ) := do
  let t ← SearchTask.tree
  if let some n := t.best then
    modify fun s =>
      let world := { s.session.world with bound := n.bound, gap := t.gap }
      { s with session := { s.session with world := world } }
  match callback with
  | none => pure ()
  | some call => m.hear call

end Model

namespace Solving

def ofModelling {β : Type} (f : Modelling α β) : Solving α σ β := fun s =>
  match f s.model with
  | .ok b m => .ok b { s with model := m }
  | .error e m => .error e { s with model := m }

def ofTask {β : Type} (f : Task α σ β) : Solving α σ β := fun s =>
  match f s.session with
  | .ok b session => .ok b { s with session := session }
  | .error e session => .error e { s with session := session }

def model : Solving α σ (Model α) := return (← get).model

def modifyModel (f : Model α → Model α) : Solving α σ Unit :=
  modify fun s => { s with model := f s.model }

def modifyLast (f : SolveRecord α → SolveRecord α) : Solving α σ Unit :=
  modifyModel fun m => { m with last := f m.last }

/-- Runs an algorithm on the problem of the model. -/
def engage (run : Problem α → Task α σ (Problem α × ReturnCode)) : Solving α σ ReturnCode := do
  let (p, code) ← ofTask (run (← model).problem)
  modifyModel fun m => { m with problem := p }
  return code

/-- Lends the simplex parameters of the model; what is written to them stays written. -/
def lend {β : Type} (f : Borrowing α σ β) : Solving α σ β := fun s =>
  let back (l : Lent α σ) : Workbench α σ :=
    ⟨l.session, { s.model with stores := { s.model.stores with simplex := l.params } }⟩
  match f ⟨s.session, s.model.stores.simplex⟩ with
  | .ok b l => .ok b (back l)
  | .error e l => .error e (back l)

/-- As `engage` for an algorithm that works on the simplex parameters of the model. -/
def engageOnLoan (run : Problem α → Borrowing α σ (Problem α × ReturnCode)) :
    Solving α σ ReturnCode := do
  let (p, code) ← lend (run (← model).problem)
  modifyModel fun m => { m with problem := p }
  return code

/-- Runs the method of the model. -/
def engageMethod (host : Host α σ) : Solving α σ ReturnCode := do
  let m ← model
  match m.method with
  | .simplex => engage (simplex host m.stores.simplex)
  | .exact => engageOnLoan (exactOnLoan host)
  | .interior => engage (interior host m.stores.interior)

def solveContinuous (host : Host α σ) : Solving α σ Unit := do
  modifyLast fun r => { r with bySearch := false }
  let code ← engageMethod host
  modifyLast fun r => { r with code := code }

/-- The exact method leaves the parameters of the model as they were. -/
theorem lend_exact (host : Host α σ) (p : Problem α) (s : Workbench α σ) :
    lend (exactOnLoan host p) s = ofTask (exact host s.model.stores.simplex p) s := by
  rw [lend, exactOnLoan_eq, Borrowing.ofTask, ofTask]
  cases exact host s.model.stores.simplex p s.session <;> rfl

theorem engageOnLoan_exact (host : Host α σ) (s : Workbench α σ) :
    engageOnLoan (exactOnLoan host) s = engage (exact host s.model.stores.simplex) s := by
  change (lend (exactOnLoan host s.model.problem) >>= _) s = (ofTask _ >>= _) s
  simp only [bind, EStateM.bind, lend_exact]

/-- Each method works as if the parameters were its own. -/
theorem engageMethod_run (host : Host α σ) (s : Workbench α σ) :
    engageMethod host s = engage (match s.model.method with
      | .simplex => simplex host s.model.stores.simplex
      | .exact => exact host s.model.stores.simplex
      | .interior => interior host s.model.stores.interior) s := by
  change (match s.model.method with
    | .simplex => engage (simplex host s.model.stores.simplex)
    | .exact => engageOnLoan (exactOnLoan host)
    | .interior => engage (interior host s.model.stores.interior)) s = _
  cases s.model.method with
  | simplex => rfl
  | exact => exact engageOnLoan_exact host s
  | interior => rfl

theorem solveContinuous_eq (host : Host α σ) :
    solveContinuous host = (do
      modifyLast fun r => { r with bySearch := false }
      let m ← model
      let code ← engage (match m.method with
        | .simplex => simplex host m.stores.simplex
        | .exact => exact host m.stores.simplex
        | .interior => interior host m.stores.interior)
      modifyLast fun r => { r with code := code }) := by
  have hmethod : engageMethod host = (do
      let m ← model
      engage (match m.method with
        | .simplex => simplex host m.stores.simplex
        | .exact => exact host m.stores.simplex
        | .interior => interior host m.stores.interior)) := funext (engageMethod_run host)
  rw [solveContinuous, hmethod]
  rfl

/-! ### Search -/

/-- A box with the integers of a column's bounds, and for binaries of zero and one. -/
def integerBox (t : TypeState) (c : Column α) : α × α :=
  let lower := if Scalar.isFinite c.lower then Scalar.ofInt (Scalar.ceilInt c.lower) else c.lower
  let upper := if Scalar.isFinite c.upper then Scalar.ofInt (Scalar.floorInt c.upper) else c.upper
  if t = .binary then (Scalar.larger 0 lower, Scalar.smaller 1 upper) else (lower, upper)

/-- Rounds the bounds of one variable; answers with the column and its old bounds when
they were not integers. -/
def roundBounds (info : VariableInfo) : Modelling α (Option (Nat × BoundChange α)) := do
  if info.type = .continuous then return none
  match (← get).problem.column info.column with
  | .error e => throw (.problem e)
  | .ok c =>
    let (lower, upper) := integerBox info.type c
    if lower == c.lower && upper == c.upper then return none
    Modelling.setVariableBound info.column { lower := some lower, upper := some upper }
    return some (info.column, { lower := some c.lower, upper := some c.upper })

/-- Rounds all bounds of integer variables and answers with the old ones. -/
def roundAllBounds : Modelling α (List (Nat × BoundChange α)) := do
  let old ← (← get).vars.values.mapM roundBounds
  return old.filterMap id

/-- The search itself, with presolving unless the root has an optimal basis. -/
def search (host : Host α σ) (callback : Option (Callback α σ)) (fuel : Nat) :
    Solving α σ Unit := do
  if (← model).stores.search.presolve = 0 then
    let _ ← engage (simplex host (← model).stores.simplex)
    if (← model).problem.basic.status ≠ .optimal then
      modifyModel fun m =>
        { m with stores := { m.stores with search := { m.stores.search with presolve := 1 } } }
  let m ← model
  let company : Search.Company α (Watched α σ) := ⟨host.watched, some (m.watch callback)⟩
  let code ← fun s =>
    let session := s.session.watched m.last.objectiveBound m.last.relativeGap
    match intopt company m.stores.search fuel m.problem session with
    | .ok (p, code) session =>
      let model := { s.model with problem := p }
      .ok code ⟨session.unwatched, model.withWatched session.world⟩
    | .error e session => .error e ⟨session.unwatched, s.model.withWatched session.world⟩
  modifyLast fun r => { r with code := code, bySearch := true }

/-- Puts bounds and the presolving parameter back. -/
def restore (bounds : List (Nat × BoundChange α)) (presolve : Int) : Solving α σ Unit := do
  ofModelling (bounds.forM fun b => Modelling.setVariableBound b.1 b.2)
  modifyModel fun m =>
    { m with stores := { m.stores with search := { m.stores.search with presolve := presolve } } }

def solveInteger (host : Host α σ) (callback : Option (Callback α σ)) (fuel : Nat) :
    Solving α σ Unit := do
  let bounds ← ofModelling roundAllBounds
  let presolve := (← model).stores.search.presolve
  let outcome ← fun s =>
    match search host callback fuel s with
    | .ok _ s => .ok (Except.ok ()) s
    | .error e s => .ok (Except.error e) s
  restore bounds presolve
  match outcome with
  | .ok _ => pure ()
  | .error e => throw e

/-! ### The whole solve -/

def ofExcept {β : Type} : Except (Fault α) β → Solving α σ β
  | .ok b => pure b
  | .error e => throw e

/-- Fetches the certificates that the statuses promise. -/
def certify (host : Host α σ) : Solving α σ Unit := do
  if (← ofExcept (← model).primalStatus) = .certificate then
    let ray ← ofTask (unboundedRay host (← model).problem)
    modifyLast fun r => { r with ray := some ray }
  if (← ofExcept (← model).dualStatus) = .certificate then
    let ray ← ofTask (infeasibilityRay host (← model).problem)
    modifyLast fun r => { r with certificate := some ray }

def optimize (host : Host α σ) (callback : Option (Callback α σ)) (fuel : Nat) :
    Solving α σ Unit := do
  let start ← ofTask (Task.now host)
  modifyLast fun r => { r with called := true, ray := none, certificate := none }
  let m ← model
  if 0 < m.binaries ∨ 0 < m.integers then
    ofTask (Task.tell (.mixedPath m.binaries m.integers))
    solveInteger host callback fuel
  else
    ofTask (Task.tell (.continuousPath m.method))
    solveContinuous host
  certify host
  let seconds := (← ofTask (Task.now host)) - start
  modifyLast fun r => { r with seconds := seconds }
  let status ← ofExcept (← model).terminationStatus
  ofTask (Task.tell (.finished status (← model).last.code seconds))

end Solving

end MixedInteger
