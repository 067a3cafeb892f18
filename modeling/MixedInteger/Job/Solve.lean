import MixedInteger.Data.Mapping
import MixedInteger.Data.Value
import MixedInteger.Fault
import MixedInteger.Formula.Evaluation
import MixedInteger.Job.Outcome
import MixedInteger.Model.Optimize
import MixedInteger.Text.Case

/-! Runs of described models and their options. Options of a run and of its model are
read from data; unknown keys are ignored. A parameter that is a text with an operator or
a parenthesis in it is a formula over the other parameters, as they were given. A model
is made by its options, built, solved and asked for its outcome. Progress of a search is
reported at every so many events. -/

namespace MixedInteger

structure RunOptions where
  logLevel : String := "INFO"
  /-- Progress is reported at every so many events; never, if it is not positive. -/
  printEvery : Int := 0

structure ModelOptions (α : Type) where
  method : String := "SIMPLEX"
  presolve : Bool := false
  silent : Bool := false
  /-- Seconds. -/
  timeLimit : Option α := none
  params : List (Value α × Value α) := []

structure Options (α : Type) where
  run : RunOptions := {}
  model : ModelOptions α := {}

namespace Options

/-- Marks of a text that is a formula. -/
def formulaMarks : List Char := "+-*/()".toList

/-- Failures that are told as a failure of the parameter. -/
def isReported : FormulaError → Bool
  | .arithmetic .overflow | .arithmetic .notReal => false
  | _ => true

/-- A parameter with its formula evaluated. -/
def resolve (names : Names) (key v : Value Float) : Except (Fault Float) (Value Float) :=
  match v with
  | .text s =>
    let formula := Text.stripText s
    if formula.toList.any formulaMarks.contains then
      match Formula.compute names formula with
      | .ok q => .ok q.toValue
      | .error e =>
        if isReported e then .error (.options (.parameter key.shown s e)) else .error (.formula e)
    else .ok v
  | v => .ok v

def resolveAll (params : Names) : Except (Fault Float) (List (Value Float × Value Float)) :=
  params.mapM fun e => do return (e.1, ← resolve params e.1 e.2)

def converted {β : Type} (r : Except ConversionError β) : Except (Fault Float) β :=
  r.mapError .conversion

def runOptions (v : Value Float) : Except (Fault Float) RunOptions := do
  let every := v.fieldOr "print_every" (.int 0)
  let every ← if every.truthy then converted every.toInt else pure 0
  return { logLevel := (v.fieldOr "log_level" (.text "INFO")).shown, printEvery := every }

def modelOptions (v : Value Float) : Except (Fault Float) (ModelOptions Float) := do
  let limit ← match v.field "time_limit_sec" with
    | .null => pure none
    | t => some <$> converted t.toReal
  return {
    method := Text.upper (v.fieldOr "method" (.text "SIMPLEX")).shown
    presolve := (v.field "presolve").truthy
    silent := (v.field "silent").truthy
    timeLimit := limit
    params := ← resolveAll (← converted (v.field "params").toEntries) }

/-- Options from the data of a document. -/
def ofData (v : Value Float) : Except (Fault Float) (Options Float) := do
  match v with
  | .map _ =>
    let run ← converted (v.field "run").toEntries
    let model ← converted (v.field "optimizer").toEntries
    return { run := ← runOptions (.map run), model := ← modelOptions (.map model) }
  | _ => throw .missingPart

end Options

/-! ### Runs -/

variable {α σ : Type} [Scalar α]

namespace Job

/-- The keys of parameters are names, and none of them is that of another option. -/
def parameterNames (o : ModelOptions α) : Except (Fault α) (List (String × Value α)) :=
  o.params.mapM fun e =>
    match e.1 with
    | .text key =>
      if key = "presolve" ∨ key = "method" ∨ key = "self" then .error .wrongKind
      else .ok (key, e.2)
    | _ => .error .wrongKind

/-- A new model with the options. -/
def create (o : ModelOptions α) : Except (Fault α) (Model α) := do
  let params ← parameterNames o
  let m ← Model.create (.bool o.presolve) (.text o.method) params
  let configure : Modelling α Unit := do
    Modelling.setSilent o.silent
    if let some t := o.timeLimit then Modelling.setTimeLimit (.real t)
  match configure m with
  | .ok _ m => return m
  | .error e _ => throw e

/-! ### Progress -/

/-- A world with the number of events so far. -/
structure Counted (σ : Type) where
  world : σ
  events : Nat := 0

def counted (host : Host α σ) : Host α (Counted σ) where
  solve r w :=
    let (a, world) := host.solve r w.world
    (a, { w with world := world })
  now w := host.now w.world

def progressOf (t : Tree α) : Notice α :=
  .progress t.reason t.currentNumber t.solved (t.incumbent.map (·.objective))
    ((t.best.map (·.bound)).getD Scalar.nan) t.gap

/-- Reports at every `every`-th event. -/
def reporter (every : Int) : Callback α (Counted σ) := fun _ => do
  modify fun s =>
    let world := { s.session.world with events := s.session.world.events + 1 }
    { s with session := { s.session with world := world } }
  if ((← get).session.world.events : Int) % every = 0 then
    SearchTask.ofTask (Task.tell (progressOf (← SearchTask.tree)))

/-! ### Runs -/

def run (host : Host α σ) (fuel : Nat) (printEvery : Int) (declared : Declared) :
    Solving α (Counted σ) (Outcome α) := do
  let m ← Solving.model
  Solving.ofTask (Task.tell
    (.solving m.problem.name m.vars.size m.constraintTypes.length m.method))
  let callback := if 0 < printEvery then some (reporter printEvery) else none
  Solving.optimize (counted host) callback fuel
  let o ← Solving.ofExcept (Outcome.collect (← Solving.model) declared)
  Solving.ofTask (Task.tell (.result o.termination o.raw o.objective))
  return o

/-- Solves the described model. -/
def solve (host : Host α σ) (fuel : Nat) (o : Options α) (description : Value α) :
    Task α σ (Outcome α) := fun s =>
  match create o.model with
  | .error e => .error e s
  | .ok m =>
    match Description.build description m with
    | .error e _ => .error e s
    | .ok declared m =>
      let session : Session α (Counted σ) := ⟨{ world := s.world }, s.journal⟩
      let back (s : Session α (Counted σ)) : Session α σ := ⟨s.world.world, s.journal⟩
      match run host fuel o.run.printEvery declared ⟨session, m⟩ with
      | .ok outcome w => .ok outcome (back w.session)
      | .error e w => .error e (back w.session)

end Job

end MixedInteger
