import MixedInteger.Data.Value
import MixedInteger.Job.Directory
import MixedInteger.Job.Solve
import MixedInteger.Markup.Content
import MixedInteger.Text.Case

/-! Options and descriptions of models in documents. A document is known by the suffix
of its file, an empty one counts as an empty mapping, and every other one is a mapping.
Options without a file have their defaults. The log of a run is shown from a level on, and
at the level for debugging it is written to a file as well. -/

namespace MixedInteger

/-! ### Where the log goes -/

/-- How the log is set up. -/
structure LogSetup where
  level : Nat
  /-- The directory of the file, if there is one. -/
  directory : Option String := none
deriving DecidableEq, Repr

namespace LogSetup

/-- Levels by name; the higher, the more urgent. -/
def levels : List (String × Nat) := [
  ("CRITICAL", 50), ("FATAL", 50), ("ERROR", 40), ("WARNING", 30), ("WARN", 30), ("INFO", 20),
  ("DEBUG", 10), ("NOTSET", 0)]

/-- Names that are taken by something else than a level. -/
def reserved : List (String × ConversionError) := [("BASIC_FORMAT", .invalid), ("_STYLES", .kind)]

/-- The level of an unknown name. -/
def defaultLevel : Nat := 20

def defaultDirectory : String := "Report"

/-- The setup for a level in small or capital letters. A file that cannot be opened is
done without. -/
def make (level directory : String) (canOpen : Bool) : Except ConversionError LogSetup :=
  let name := Text.upper level
  match reserved.lookup name with
  | some e => .error e
  | none =>
    let number := (levels.lookup name).getD defaultLevel
    .ok ⟨number, if name = "DEBUG" && canOpen then some (Path.text directory) else none⟩

/-- The console, and the file if there is one. -/
def handlers (s : LogSetup) : Nat := if s.directory.isSome then 2 else 1

/-- The name of the file, with the date and the time of day that it is opened at. -/
def fileName (date time : String) : String := "lpadapter_debug_" ++ date ++ "_" ++ time ++ ".txt"

end LogSetup

/-! ### Documents -/

variable {α : Type} [Scalar α]

def isDocumentPath (path : String) : Bool :=
  [".yaml", ".yml"].contains (Text.lower (Path.suffix path))

/-- The mapping in a document. -/
def readMapping (found : Except FileError String) (notMapping : Fault α) :
    Except (Fault α) (Value α) := do
  let text ← found.mapError .file
  let v ← ((Markup.read text : Except Markup.MarkupError (Value α))).mapError .markup
  if !v.truthy then return .map []
  match v with
  | .map _ => return v
  | _ => throw notMapping

def Description.load (look : Lookup) (path : String) : Except (Fault α) (Value α) :=
  if isDocumentPath path then readMapping (look path) (.format .topLevel)
  else .error (.format (.suffix (Path.suffix path)))

def Options.load (look : Lookup) (path : String) : Except (Fault Float) (Options Float) :=
  match look path with
  | .error .missing | .error .blocked => .ok {}
  | found =>
    if isDocumentPath path then do Options.ofData (← readMapping found (.options .topLevel))
    else .error (.options (.suffix (Path.suffix path)))

namespace Job

def startLog (o : RunOptions) : Except (Fault α) Unit := do
  let _ ← (LogSetup.make o.logLevel LogSetup.defaultDirectory true).mapError .conversion

/-- Solves the model of a file with the options of another one, if there is one. -/
def solveFile {σ : Type} (host : Host Float σ) (fuel : Nat) (look : Lookup) (path : String)
    (options : Option String) : Task Float σ (Outcome Float) := fun s =>
  let prepared : Except (Fault Float) (Options Float × Value Float) := do
    let o ← match options with
      | some p => Options.load look p
      | none => pure {}
    startLog o.run
    return (o, ← Description.load look path)
  match prepared with
  | .error e => .error e s
  | .ok (o, description) => solve host fuel o description s

end Job

end MixedInteger
