import MixedInteger.Problem.Basic

/-! The linear program of a problem, with integrality dropped, in the form that a
solver takes: minimise `cost · x` subject to `ubMatrix x ≤ ubBound`,
`eqMatrix x = eqBound` and bounds on `x`. A maximised objective changes its
sign, and so does a row that is bounded from below. -/

namespace MixedInteger

structure LinearProgram (α : Type) where
  cost : List α
  matrix : List (List α)
  ubMatrix : Option (List (List α))
  ubBound : Option (List α)
  eqMatrix : Option (List (List α))
  eqBound : Option (List α)
  /-- Absent bounds are infinite. -/
  bounds : List (Option α × Option α)
  /-- The row behind each inequality, counted from zero, and the sign it has there. -/
  ubRows : List (Nat × α)
  eqRows : List Nat
  sense : α

variable {α : Type} [Scalar α]

def finite? (x : α) : Option α := if Scalar.isInf x then none else some x

/-- The coefficients of a row in all columns. -/
def Row.dense (r : Row α) (n : Nat) : List α := (List.range n).map fun j => r.coef (j + 1)

def negated (xs : List α) : List α := xs.map fun x => -x

/-- An inequality: its row, sign, coefficients and bound. -/
structure Inequality (α : Type) where
  row : Nat
  sign : α
  coefs : List α
  bound : α

/-- The inequalities that a row stands for, upper side first. -/
def Row.inequalities (i : Nat) (dense : List α) (r : Row α) : List (Inequality α) :=
  let upper : Inequality α := ⟨i, 1, dense, r.upper⟩
  let lower : Inequality α := ⟨i, -1, negated dense, -r.lower⟩
  match r.bound with
  | .upper => [upper]
  | .lower => [lower]
  | .double => [upper, lower]
  | _ => []

def someUnlessEmpty {β : Type} (xs : List β) : Option (List β) :=
  if xs.isEmpty then none else some xs

namespace Problem

def matrix (p : Problem α) : List (List α) := p.rows.map fun r => r.dense p.columnCount

def inequalities (p : Problem α) : List (Inequality α) :=
  p.numberedRows.flatMap fun e => e.2.inequalities (e.1 - 1) (e.2.dense p.columnCount)

def equalities (p : Problem α) : List (Nat × Row α) :=
  p.numberedRows.filter fun e => e.2.bound = .fixed

def linearProgram (p : Problem α) : LinearProgram α :=
  let ub := p.inequalities
  let eq := p.equalities
  { cost := p.columns.map fun c => p.sense * c.cost
    matrix := p.matrix
    ubMatrix := someUnlessEmpty (ub.map (·.coefs))
    ubBound := someUnlessEmpty (ub.map (·.bound))
    eqMatrix := someUnlessEmpty (eq.map fun e => e.2.dense p.columnCount)
    eqBound := someUnlessEmpty (eq.map fun e => e.2.lower)
    bounds := p.columns.map fun c => (finite? c.lower, finite? c.upper)
    ubRows := ub.map fun e => (e.row, e.sign)
    eqRows := eq.map fun e => e.1 - 1
    sense := p.sense }

end Problem

/-- Left to right, from zero. -/
def dot (xs ys : List α) : α := Scalar.sum (List.zipWith (· * ·) xs ys)

end MixedInteger
