import MixedInteger.Text.Ranges

/-! Files by path. A path is a list of steps; those before the last one are
directories, and what stands for nothing, empty steps and single points, is left out. -/

namespace MixedInteger

/-- Why there is no text at a path. -/
inductive FileError where
  | missing
  | directory
  /-- A file stands where a directory is needed. -/
  | blocked
deriving DecidableEq, Repr

/-- What is found at a path. -/
abbrev Lookup := String → Except FileError String

namespace Path

def steps (path : String) : List String :=
  ((Text.splitOn '/' path.toList).map String.ofList).filter fun s => s ≠ "" && s ≠ "."

/-- A step back takes away the step before it. -/
def resolve (steps : List String) : List String :=
  steps.foldl (fun found s => if s = ".." then found.dropLast else found ++ [s]) []

def isAbsolute (path : String) : Bool := path.toList.head? = some '/'

/-- Without what stands for nothing. -/
def text (path : String) : String :=
  let body := String.intercalate "/" (steps path)
  if isAbsolute path then "/" ++ body
  else if body.isEmpty then "."
  else body

/-- The last point of a name and what follows it. A point at the beginning or at the end
of a name begins no suffix. -/
def suffix (path : String) : String :=
  let name := ((steps path).getLast?.getD "").toList
  let after := name.reverse.takeWhile (· ≠ '.')
  let before := name.length - after.length - 1
  if after.isEmpty || before = 0 || after.length = name.length then ""
  else String.ofList ('.' :: after.reverse)

end Path

/-- Texts by path, seen from the directory that holds them. -/
structure Directory where
  files : List (String × String) := []

namespace Directory

/-- Is the first path a directory on the way to the second? -/
def isAbove (above below : List String) : Bool := above ≠ below && above.isPrefixOf below

def paths (d : Directory) : List (List String) := d.files.map fun e => Path.steps e.1

def look (d : Directory) : Lookup := fun path =>
  let steps := Path.resolve (Path.steps path)
  if Path.isAbsolute path then .error .missing
  else match d.files.find? fun e => Path.steps e.1 = steps with
    | some e => .ok e.2
    | none =>
      if d.paths.any (isAbove · steps) then .error .blocked
      else if steps.isEmpty || d.paths.any (isAbove steps) then .error .directory
      else .error .missing

/-- Can there be a directory at a path? -/
def canHold (d : Directory) (path : String) : Bool :=
  let steps := Path.resolve (Path.steps path)
  !d.paths.any fun file => file.isPrefixOf steps

end Directory

end MixedInteger
