import MixedInteger.Command.Invocation
import MixedInteger.Exchange.Job
import MixedInteger.Job.Load
import MixedInteger.Markup.Document

/-! Runs of the command line. A run ends with a code and a text to show: zero when all
went well, one for a model that is not valid, two for a command line that is none. -/

namespace MixedInteger.Command

structure Finish where
  code : Nat
  text : String
  /-- The command line itself ended the run. -/
  atOnce : Bool := false

open Decimal

def line (s : String) : String := s ++ "\n"

/-- Values by name, the names between two marks. -/
def assignments (left right : String) (entries : List (String × Float)) : String :=
  String.join (entries.map fun e =>
    line ("  " ++ left ++ e.1 ++ right ++ " = " ++ generalText 9 e.2))

/-- The outcome of a solve, one item a line. -/
def outcomeText (o : Outcome Float) : String :=
  let objective := match o.objective with
    | some x => line ("  objective=" ++ generalText 9 x)
    | none => ""
  let bound := match o.bound with
    | some x => line ("  bound=" ++ generalText 9 x ++ " gap=" ++ generalText 3 (o.gap.getD 0))
    | none => ""
  line ("Result: status=" ++ o.termination.text ++ " primal=" ++ o.primal.text ++ " dual=" ++
      o.dual.text) ++
    line ("  " ++ o.raw) ++ objective ++ bound ++ assignments "" "" o.values ++
    assignments "dual[" "]" o.duals ++ line ("  solve_time=" ++ fixedText 3 o.seconds ++ "s")

/-- Options with what the command line says. -/
def SolveArguments.applyTo (a : SolveArguments) (o : Options Float) : Options Float :=
  { run := { o.run with printEvery := a.printEvery.getD o.run.printEvery }
    model :=
      { o.model with
        method := (a.method.map Text.upper).getD o.model.method
        presolve := a.presolve || o.model.presolve
        timeLimit := match a.timeLimit with
          | some t => some t
          | none => o.model.timeLimit } }

variable {σ : Type}

def runSolve (host : Host Float σ) (fuel : Nat) (look : Lookup) (options path : String)
    (a : SolveArguments) : Task Float σ Finish := fun s =>
  let prepared : Except (Fault Float) (Options Float × Value Float) := do
    let o := a.applyTo (← Options.load look options)
    Job.startLog o.run
    return (o, ← Description.load look path)
  match prepared with
  | .error e => .error e s
  | .ok (o, description) =>
    match Job.solve host fuel o description s with
    | .ok outcome s => .ok ⟨0, outcomeText outcome, false⟩ s
    | .error e s => .error e s

/-! ### Validation -/

/-- The model of a file, built but not solved. -/
def buildFile (look : Lookup) (o : ModelOptions Float) (path : String) :
    Except (Fault Float) (Declared × Model Float) := do
  let m ← Job.create o
  match Description.build (← Description.load look path) m with
  | .ok declared m => return (declared, m)
  | .error e _ => throw e

/-- How many constraints there are of each type. -/
def countsText (m : Model Float) : String :=
  String.join (m.constraintTypes.map fun t =>
    line ("  " ++ t.1.name ++ "-in-" ++ t.2.name ++ s!": {(m.constraintIndices t.1 t.2).length}"))

def validText (declared : Declared) (m : Model Float) : String :=
  line s!"Model OK: {declared.length} variables" ++ countsText m

def runValidate (look : Lookup) (options path : String) : Except (Fault Float) Finish := do
  let o ← Options.load look options
  Job.startLog o.run
  match buildFile look o.model path with
  | .ok (declared, m) => return ⟨0, validText declared m, false⟩
  | .error e =>
    if e.isOfModel then return ⟨1, line ("Model invalid: " ++ e.message?.getD ""), false⟩
    else throw e

/-- The options in use, as a document. -/
def runInfo (look : Lookup) (options : String) : Except (Fault Float) Finish := do
  match (← Options.load look options).toData with
  | .map entries => return ⟨0, Markup.write entries, false⟩
  | _ => throw .wrongKind

/-! ### All actions -/

def run (host : Host Float σ) (fuel : Nat) (look : Lookup) (words : List String) :
    Task Float σ Finish :=
  match Invocation.read words with
  | .error (.shown text) => pure ⟨0, text, true⟩
  | .error .misuse => pure ⟨2, "", true⟩
  | .ok i =>
    match i.action with
    | none => pure ⟨2, mainHelp, false⟩
    | some (.solve path a) => runSolve host fuel look i.options path a
    | some (.validate path) => ofResult (runValidate look i.options path)
    | some .info => ofResult (runInfo look i.options)
where
  ofResult {β : Type} : Except (Fault Float) β → Task Float σ β
    | .ok b => pure b
    | .error e => throw e

/-! ### What a run needs and leaves behind -/

/-- The files that an action reads. -/
def Invocation.paths (i : Invocation) : List String :=
  i.options :: match i.action with
    | some (.solve path _) | some (.validate path) => [path]
    | _ => []

def paths (words : List String) : List String :=
  match Invocation.read words with
  | .ok i => i.paths
  | .error _ => []

/-- An action that takes up a model keeps a log. -/
def logSetup? (look : Lookup) (words : List String) : Option LogSetup :=
  match Invocation.read words with
  | .error _ => none
  | .ok i =>
    match i.action, Options.load look i.options with
    | some (.solve ..), .ok o | some (.validate _), .ok o =>
      (LogSetup.make o.run.logLevel LogSetup.defaultDirectory true).toOption
    | _, _ => none

end MixedInteger.Command
