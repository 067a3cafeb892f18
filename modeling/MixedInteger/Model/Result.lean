import MixedInteger.Model.Constraint
import MixedInteger.Model.Status

/-! Values, duals and basis statuses after a solve. A certificate that is held takes
the place of values or duals. -/

namespace MixedInteger

inductive Basis where
  | basic
  | nonbasic
  | nonbasicAtLower
  | nonbasicAtUpper
deriving DecidableEq, Repr

def Basis.text : Basis → String
  | basic => "BASIC"
  | nonbasic => "NONBASIC"
  | nonbasicAtLower => "NONBASIC_AT_LOWER"
  | nonbasicAtUpper => "NONBASIC_AT_UPPER"

variable {α : Type} [Scalar α]

/-- Equal up to a small relative or a tiny absolute difference. -/
def isClose (a b : α) : Bool :=
  if a == b then true
  else if Scalar.isInf a || Scalar.isInf b then false
  else
    let difference := Scalar.abs (b - a)
    let relative : α := Scalar.ofDecimal 15 (-9)
    decide (difference ≤ Scalar.abs (relative * b)) ||
      decide (difference ≤ Scalar.abs (relative * a)) ||
      decide (difference ≤ Scalar.ofDecimal 1 (-9))

/-- The component of a certificate; what came later than the solve has none. -/
def component (xs : List α) (position : Nat) : Except (Fault α) α :=
  match xs[position - 1]? with
  | some x => .ok x
  | none => .error .pastEnd

namespace Model

/-- Duals are those of the problem as it is minimised. -/
def dualSign (m : Model α) : α := if m.problem.direction = .minimize then 1 else -1

/-! ### Values -/

def columnPrimal (m : Model α) (column : Nat) : Except (Fault α) α :=
  (m.problem.columnValue m.solution.colPrimal column).mapError .problem

def variablePrimal (m : Model α) (i : IndexArg α) : Except (Fault α) α := do
  let info ← m.info i
  match m.last.ray with
  | some ray => component ray info.column
  | none => m.columnPrimal info.column

def constraintPrimal (m : Model α) (i : IndexArg α) : Except (Fault α) α := do
  let c ← i.constraint?
  if c.function = .singleVariable then m.variablePrimal (.var ⟨c.value⟩)
  else
    let info ← m.affineInfo c
    (m.problem.rowValue m.solution.rowPrimal info.row).mapError .problem

/-! ### Duals -/

def requireDuals (m : Model α) : Except (Fault α) Unit :=
  if m.last.bySearch then .error (.unsupported .dualAfterSearch) else .ok ()

def columnDual (m : Model α) (column : Nat) : Except (Fault α) α := do
  m.requireDuals
  let d ← (m.problem.columnValue m.solution.colDual column).mapError .problem
  return m.dualSign * d

def rowDual (m : Model α) (row : Nat) : Except (Fault α) α := do
  match m.last.certificate with
  | some ray => component ray row
  | none =>
    m.requireDuals
    let d ← (m.problem.rowValue m.solution.rowDual row).mapError .problem
    return m.dualSign * d

/-- A one-sided bound has the dual of its column while the column is at it. -/
def dualAt (m : Model α) (column : Nat) (bound : Column α → α) : Except (Fault α) α := do
  let x ← m.columnPrimal column
  let c ← (m.problem.column column).mapError .problem
  if isClose x (bound c) then m.columnDual column else return 0

def constraintDual (m : Model α) (i : IndexArg α) : Except (Fault α) α := do
  let c ← i.constraint?
  if c.function = .scalarAffine then m.rowDual (← m.affineInfo c).row
  else
    let column := (← m.liveInfo c).column
    match c.set with
    | .lessThan => m.dualAt column (·.upper)
    | .greaterThan => m.dualAt column (·.lower)
    | .equalTo | .interval => m.columnDual column
    | kind => .error (.unsupported (.dualOfType kind))

/-! ### Basis -/

def rowBasisOf : BasisStatus → Except (Fault α) Basis
  | .basic => .ok .basic
  | .other code => .error (.model (.rowBasis code))
  | _ => .ok .nonbasic

/-- A column at one bound leaves the constraint at the other bound basic. -/
def columnBasisOf (kind : Kind) : BasisStatus → Except (Fault α) Basis
  | .basic => .ok .basic
  | .atLower => .ok (match kind with
      | .lessThan => .basic | .interval => .nonbasicAtLower | _ => .nonbasic)
  | .atUpper => .ok (match kind with
      | .greaterThan => .basic | .interval => .nonbasicAtUpper | _ => .nonbasic)
  | .free | .fixed => .ok .nonbasic
  | .other code => .error (.model (.columnBasis code))

def constraintBasis (m : Model α) (i : IndexArg α) : Except (Fault α) Basis := do
  let c ← i.constraint?
  if c.function = .scalarAffine then
    rowBasisOf (← (m.problem.rowBasis (← m.affineInfo c).row).mapError .problem)
  else
    let info ← m.liveInfo c
    if !c.set.isBound then throw (.unsupported (.basisOfType c.set))
    columnBasisOf c.set (← (m.problem.columnBasis info.column).mapError .problem)

/-! ### Objective -/

def objectiveValue (m : Model α) : α := m.solution.objective

/-- No objective is better than this. -/
def objectiveBound (m : Model α) : α :=
  if !m.last.bySearch then
    if m.objectiveSense = .minimize then -Scalar.infinity else Scalar.infinity
  else if m.problem.integer.status = .optimal then m.problem.integer.objective
  else m.last.objectiveBound

def relativeGap (m : Model α) : Except (Fault α) α :=
  if m.last.bySearch then .ok m.last.relativeGap else .error (.unsupported .gapWithoutSearch)

end Model

end MixedInteger
