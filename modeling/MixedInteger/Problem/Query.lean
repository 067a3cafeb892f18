import MixedInteger.Problem.Basic
import MixedInteger.Text.Quoted

/-! Questions about a problem and its stored solutions. -/

namespace MixedInteger

variable {α : Type} [Scalar α]

/-- The `j`-th value, counted from one; zero past the end. -/
def valueAt (xs : List α) (j : Int) : α := if j < 1 then 0 else xs.getD (j - 1).toNat 0

/-- Entries by column number. -/
def sortEntries (es : List (Nat × α)) : List (Nat × α) :=
  es.mergeSort fun a b => a.1 ≤ b.1

def Row.entries (r : Row α) : List (Nat × α) := sortEntries r.coefs

/-- What keeps an algorithm from starting. -/
inductive Obstacle (α : Type) where
  | columnBounds (j : Nat) (lower upper : α)
  | rowBounds (i : Nat) (lower upper : α)
  | lowerFraction (j : Nat) (lower : α)
  | upperFraction (j : Nat) (upper : α)

def Obstacle.message : Obstacle α → String
  | columnBounds j l u => s!"column {j} has incorrect bounds (" ++ Scalar.text l ++ " >= " ++
      Scalar.text u ++ ")"
  | rowBounds i l u => s!"row {i} has incorrect bounds (" ++ Scalar.text l ++ " >= " ++
      Scalar.text u ++ ")"
  | lowerFraction j l => s!"integer column {j} has non-integer lower bound " ++ Scalar.text l
  | upperFraction j u => s!"integer column {j} has non-integer upper bound " ++ Scalar.text u

/-- Where a column stands when no basis is known: at its lower bound if it has one. -/
def BoundKind.slackStatus : BoundKind → BasisStatus
  | .free => .free
  | .lower => .atLower
  | .upper => .atUpper
  | .double => .atLower
  | .fixed => .fixed

namespace Problem

def matrixRow (p : Problem α) (i : Int) : Except (ProblemError α) (List (Nat × α)) := do
  return (← p.row i).entries

/-- The rows in which a column has a coefficient. -/
def matrixColumn (p : Problem α) (j : Int) : Except (ProblemError α) (List (Nat × α)) := do
  let _ ← p.column j
  return p.numberedRows.filterMap fun e => (e.2.coefs.lookup j.toNat).map fun v => (e.1, v)

/-- Number zero stands for the constant. -/
def cost (p : Problem α) (j : Int) : Except (ProblemError α) α :=
  if j = 0 then .ok p.constant else do return (← p.column j).cost

def columnValue (p : Problem α) (values : List α) (j : Int) : Except (ProblemError α) α := do
  let _ ← p.column j
  return valueAt values j

def rowValue (p : Problem α) (values : List α) (i : Int) : Except (ProblemError α) α := do
  let _ ← p.row i
  return valueAt values i

def columnBasis (p : Problem α) (j : Int) : Except (ProblemError α) BasisStatus := do
  let c ← p.column j
  return (p.basic.colBasis[(j - 1).toNat]?).getD c.bound.slackStatus

def rowBasis (p : Problem α) (i : Int) : Except (ProblemError α) BasisStatus := do
  let _ ← p.row i
  return (p.basic.rowBasis[(i - 1).toNat]?).getD .basic

def described (p : Problem α) : String :=
  "Problem(name=" ++ Text.quoted p.name ++ s!", cols={p.columnCount}, rows={p.rowCount})"

/-- Double bounds without room between them. -/
def crossed (bound : BoundKind) (lower upper : α) : Bool :=
  bound == .double && !(lower < upper)

/-- The first column or else row whose bounds are crossed. -/
def badBounds (p : Problem α) : Option (Obstacle α) :=
  match p.numberedColumns.find? fun e => crossed e.2.bound e.2.lower e.2.upper with
  | some (j, c) => some (.columnBounds j c.lower c.upper)
  | none => (p.numberedRows.find? fun e => crossed e.2.bound e.2.lower e.2.upper).map
      fun e => .rowBounds e.1 e.2.lower e.2.upper

end Problem

/-- The lower bound counts. -/
def BoundKind.hasLower : BoundKind → Bool
  | .lower | .double | .fixed => true
  | _ => false

/-- The upper bound counts beside the lower one. -/
def BoundKind.hasUpper : BoundKind → Bool
  | .upper | .double => true
  | _ => false

/-- The first bound of an integer column that is no integer. -/
def Column.fractionalBound (j : Nat) (c : Column α) :
    Except RoundingError (Option (Obstacle α)) := do
  if c.kind ≠ .integer then return none
  if c.bound.hasLower then
    if !(c.lower == (← Scalar.floor c.lower)) then return some (.lowerFraction j c.lower)
  if c.bound.hasUpper then
    if !(c.upper == (← Scalar.floor c.upper)) then return some (.upperFraction j c.upper)
  return none

/-- The first obstacle among the columns in order. -/
def firstFractional : List (Nat × Column α) → Except RoundingError (Option (Obstacle α))
  | [] => .ok none
  | (j, c) :: rest => do
    match ← c.fractionalBound j with
    | some o => return some o
    | none => firstFractional rest

def Problem.fractionalBounds (p : Problem α) : Except RoundingError (Option (Obstacle α)) :=
  firstFractional p.numberedColumns

end MixedInteger
