import MixedInteger.Problem.Basic
import MixedInteger.Text.Quoted

/-! Changes of a problem. A change that is refused leaves no trace: each function
answers with the whole new problem or with an error. Deleting columns or rows
closes the gaps, and forgets the stored solutions. Rows that compare a linear form
with one number are made by several changes, and those before a refusal stay. -/

namespace MixedInteger

variable {α : Type} [Scalar α]

/-- Zeros at the end of a list that is not empty, up to `n` entries. -/
def padded (n : Nat) (xs : List α) : List α :=
  if xs.isEmpty then xs else xs ++ List.replicate (n - xs.length) 0

def Solution.pad (s : Solution α) (columns rows : Nat) : Solution α :=
  { s with
    colPrimal := padded columns s.colPrimal
    colDual := padded columns s.colDual
    rowPrimal := padded rows s.rowPrimal
    rowDual := padded rows s.rowDual }

/-- The two stored bounds for a kind; the side that does not count is infinite. -/
def BoundKind.sides (kind : BoundKind) (lower upper : α) : α × α :=
  match kind with
  | .free => (-Scalar.infinity, Scalar.infinity)
  | .lower => (lower, Scalar.infinity)
  | .upper => (-Scalar.infinity, upper)
  | .double => (lower, upper)
  | .fixed => (lower, lower)

namespace Problem

def padSolutions (p : Problem α) : Problem α :=
  { p with
    basic := p.basic.pad p.columnCount p.rowCount
    interior := p.interior.pad p.columnCount p.rowCount
    integer := p.integer.pad p.columnCount p.rowCount }

def forgetSolutions (p : Problem α) : Problem α :=
  { p with basic := {}, interior := {}, integer := {} }

/-- Forgets the statuses of the last basis. -/
def forgetBasis (p : Problem α) : Problem α :=
  { p with basic := { p.basic with colBasis := [], rowBasis := [] } }

/-- The same problem without its solutions. -/
def copy (p : Problem α) : Problem α := p.forgetSolutions

/-! ### Adding -/

/-- Answers the number of the first new column. -/
def addColumns (p : Problem α) (n : Int) : Except (ProblemError α) (Problem α × Nat) :=
  if n < 1 then .error (.columnCount n)
  else
    let new : Column α := {}
    .ok (({ p with columns := p.columns ++ List.replicate n.toNat new }).padSolutions,
      p.columnCount + 1)

def addRows (p : Problem α) (n : Int) : Except (ProblemError α) (Problem α × Nat) :=
  if n < 1 then .error (.rowCount n)
  else
    let new : Row α := {}
    .ok (({ p with rows := p.rows ++ List.replicate n.toNat new }).padSolutions,
      p.rowCount + 1)

/-! ### Deleting -/

/-- Numbers in a list that are all in range and distinct. -/
def checkColumns (p : Problem α) (seen : List Int) : List Int → Except (ProblemError α) Unit
  | [] => .ok ()
  | j :: js => do
    let _ ← p.column j
    if j ∈ seen then .error (.columnRepeated j) else p.checkColumns (j :: seen) js

def checkRows (p : Problem α) (seen : List Int) : List Int → Except (ProblemError α) Unit
  | [] => .ok ()
  | i :: is => do
    let _ ← p.row i
    if i ∈ seen then .error (.rowRepeated i) else p.checkRows (i :: seen) is

end Problem

/-- The entries whose numbers, counted from one, are not listed. -/
def without {β : Type} (doomed : List Nat) (xs : List β) : List β :=
  ((List.range xs.length).zip xs).filterMap fun e =>
    if e.1 + 1 ∈ doomed then none else some e.2

/-- The number that a number becomes when the listed ones disappear. -/
def renumber (doomed : List Nat) (j : Nat) : Option Nat :=
  if j ∈ doomed then none else some (j - (doomed.filter (· < j)).length)

def Row.dropColumns (doomed : List Nat) (r : Row α) : Row α :=
  { r with coefs := r.coefs.filterMap fun e =>
      (renumber doomed e.1).map fun j => (j, e.2) }

namespace Problem

def deleteColumns (p : Problem α) (js : List Int) : Except (ProblemError α) (Problem α) := do
  p.checkColumns [] js
  let doomed := js.map Int.toNat
  return { p with
    columns := without doomed p.columns
    rows := p.rows.map (Row.dropColumns doomed) }.forgetSolutions

def deleteRows (p : Problem α) (is : List Int) : Except (ProblemError α) (Problem α) := do
  p.checkRows [] is
  return { p with rows := without (is.map Int.toNat) p.rows }.forgetSolutions

/-! ### Bounds, kinds, coefficients and names -/

def modifyColumn (p : Problem α) (j : Int) (f : Column α → Column α) : Problem α :=
  { p with columns := p.columns.modify (j - 1).toNat f }

def modifyRow (p : Problem α) (i : Int) (f : Row α → Row α) : Problem α :=
  { p with rows := p.rows.modify (i - 1).toNat f }

/-- Does the problem refuse these bounds? -/
def refuses (p : Problem α) (kind : BoundKind) (lower upper : α) : Bool :=
  p.strict && kind == .double && !(lower < upper)

def setColumnBounds (p : Problem α) (j : Int) (kind : BoundKind) (lower upper : α) :
    Except (ProblemError α) (Problem α) := do
  let _ ← p.column j
  let (l, u) := kind.sides lower upper
  if p.refuses kind l u then .error (.columnBounds j l u)
  else return p.modifyColumn j fun c => { c with bound := kind, lower := l, upper := u }

def setRowBounds (p : Problem α) (i : Int) (kind : BoundKind) (lower upper : α) :
    Except (ProblemError α) (Problem α) := do
  let _ ← p.row i
  let (l, u) := kind.sides lower upper
  if p.refuses kind l u then .error (.rowBounds i l u)
  else return p.modifyRow i fun r => { r with bound := kind, lower := l, upper := u }

/-- As `setColumnBounds`, with the code of the kind. -/
def setColumnBoundsByCode (p : Problem α) (j code : Int) (lower upper : α) :
    Except (ProblemError α) (Problem α) := do
  let _ ← p.column j
  match BoundKind.ofCode? code with
  | some kind => p.setColumnBounds j kind lower upper
  | none => .error (.boundCode code)

def setRowBoundsByCode (p : Problem α) (i code : Int) (lower upper : α) :
    Except (ProblemError α) (Problem α) := do
  let _ ← p.row i
  match BoundKind.ofCode? code with
  | some kind => p.setRowBounds i kind lower upper
  | none => .error (.boundCode code)

/-- The same data with the strict check switched; `f` runs in between. -/
def leniently (p : Problem α) (f : Problem α → Except (ProblemError α) (Problem α)) :
    Except (ProblemError α) (Problem α) := do
  let q ← f { p with strict := false }
  return { q with strict := p.strict }

def setColumnKind (p : Problem α) (j : Int) (kind : ColumnKind) :
    Except (ProblemError α) (Problem α) := do
  let _ ← p.column j
  return p.modifyColumn j fun c => { c with kind := kind }

def setColumnKindByCode (p : Problem α) (j code : Int) : Except (ProblemError α) (Problem α) :=
  match ColumnKind.ofCode? code with
  | some kind => p.setColumnKind j kind
  | none => .error (.columnKind j code)

/-- Checked coefficients of a row in order; `seen` holds the columns before. -/
def checkCoefs (p : Problem α) (i : Int) (seen : List Int) :
    List (Int × α) → Except (ProblemError α) Unit
  | [] => .ok ()
  | (j, _) :: es => do
    let _ ← p.column j
    if j ∈ seen then .error (.rowDuplicate i j) else p.checkCoefs i (j :: seen) es

/-- Zeros are not stored. -/
def setMatrixRow (p : Problem α) (i : Int) (columns : List Int) (values : List α) :
    Except (ProblemError α) (Problem α) := do
  let _ ← p.row i
  if columns.length ≠ values.length then .error .rowLengths
  else
    p.checkCoefs i [] (columns.zip values)
    let coefs := ((columns.map Int.toNat).zip values).filter fun e => !(e.2 == 0)
    return p.modifyRow i fun r => { r with coefs := coefs }

def setDirectionByCode (p : Problem α) (code : Int) : Except (ProblemError α) (Problem α) :=
  match Direction.ofCode? code with
  | some d => .ok { p with direction := d }
  | none => .error (.directionCode code)

/-- Number zero stands for the constant. -/
def setCost (p : Problem α) (j : Int) (cost : α) : Except (ProblemError α) (Problem α) :=
  if j = 0 then .ok { p with constant := cost }
  else do
    let _ ← p.column j
    return p.modifyColumn j fun c => { c with cost := cost }

def setColumnName (p : Problem α) (j : Int) (name : String) :
    Except (ProblemError α) (Problem α) := do
  let _ ← p.column j
  return p.modifyColumn j fun c => { c with name := name }

def setRowName (p : Problem α) (i : Int) (name : String) :
    Except (ProblemError α) (Problem α) := do
  let _ ← p.row i
  return p.modifyRow i fun r => { r with name := name }

end Problem

/-! ### Rows that compare with one number -/

inductive RowSense where
  | equal
  | atLeast
  | atMost
  | unknown (text : String)
deriving DecidableEq, Repr

def RowSense.ofText : String → RowSense
  | "E" => equal
  | "G" => atLeast
  | "L" => atMost
  | s => unknown s

def RowSense.text : RowSense → String
  | equal => "E"
  | atLeast => "G"
  | atMost => "L"
  | unknown s => s

inductive AffineRowError (α : Type) where
  | lengths
  | sense (text : String)
  | problem (e : ProblemError α)

variable {α : Type} [Scalar α]

def AffineRowError.message : AffineRowError α → String
  | lengths => "columns and coefficients have different lengths"
  | sense s => "unknown row sense " ++ Text.quoted s
  | problem e => e.message

/-- Steps that change a problem; what was done before a failure stays. -/
abbrev RowEdit (α : Type) [Scalar α] := EStateM (AffineRowError α) (Problem α)

namespace RowEdit

def change (f : Problem α → Except (ProblemError α) (Problem α)) : RowEdit α Unit := fun p =>
  match f p with
  | .ok q => .ok () q
  | .error e => .error (.problem e) p

end RowEdit

namespace Problem

def setRowSense (i : Int) (sense : RowSense) (rhs : α) : RowEdit α Unit :=
  match sense with
  | .equal => RowEdit.change (·.setRowBounds i .fixed rhs rhs)
  | .atLeast => RowEdit.change (·.setRowBounds i .lower rhs Scalar.infinity)
  | .atMost => RowEdit.change (·.setRowBounds i .upper (-Scalar.infinity) rhs)
  | .unknown s => throw (.sense s)

/-- Appends a row and answers its number. The row stays when its coefficients
are refused. -/
def addAffineRow (columns : List Int) (values : List α) (sense : RowSense) (rhs : α) :
    RowEdit α Nat := do
  if columns.length ≠ values.length then throw .lengths
  RowEdit.change fun p => (p.addRows 1).map (·.1)
  let i := (← get).rowCount
  RowEdit.change (·.setMatrixRow i columns values)
  Problem.setRowSense i sense rhs
  return i

end Problem

end MixedInteger
