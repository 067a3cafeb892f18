import MixedInteger.Command.Run
import MixedInteger.Solver.Exact
import Std.Time.Format

/-! The program: reads the files that a command line names, runs it with the exact solver and shows
what it answers. The solver works without a clock, so that elapsed times read as zero. -/

namespace MixedInteger.Program

def host : Host Float Unit where
  solve r w := (Exact.solve r.program, w)
  now _ := 0

/-- More steps than a search can take. -/
def fuel : Nat := 1000000000000

def errorOf : IO.Error → FileError
  | .inappropriateType _ 21 _ => .directory
  | .inappropriateType .. => .blocked
  | _ => .missing

def found (path : String) : IO (String × Except FileError String) := do
  try return (path, .ok (← IO.FS.readFile (Path.text path)))
  catch e => return (path, .error (errorOf e))

/-- Shows the log, and writes it to a file where that is wanted and can be done. -/
def keepLog (setup : LogSetup) (journal : List (Notice Float)) : IO Unit := do
  for n in journal do
    if setup.level ≤ n.level.number then IO.eprintln n.line
  if let some directory := setup.directory then
    let now ← Std.Time.PlainDateTime.now
    let name := LogSetup.fileName (now.format "uuuuMMdd") (now.format "HHmmss")
    try
      IO.FS.createDirAll directory
      IO.FS.writeFile (directory ++ "/" ++ name) (Command.linesText (journal.map Notice.line))
    catch e => IO.eprintln s!"cannot open debug log {name}: {e}"

def run (words : List String) : IO UInt32 := do
  let files ← (Command.paths words).mapM found
  let look : Lookup := fun path => (files.lookup path).getD (.error .missing)
  let log (s : Session Float Unit) : IO Unit := do
    if let some setup := Command.logSetup? look words then keepLog setup s.journal.toList
  match Command.run host fuel look words ⟨(), #[]⟩ with
  | .ok r s =>
    log s
    IO.print r.text
    if r.atOnce && r.code ≠ 0 then IO.eprintln Command.mainUsage
    return r.code.toUInt32
  | .error e s =>
    log s
    IO.eprintln (e.message?.getD "the files cannot be used")
    return 1

end MixedInteger.Program

def main (words : List String) : IO UInt32 := MixedInteger.Program.run words
