import MixedInteger.Search.Tree

/-! Branching: which fractional column of a relaxation is split, and the two nodes
that come of it. -/

namespace MixedInteger

variable {α : Type} [Scalar α]

/-- A column with a finite value that is no integer. -/
structure Fraction (α : Type) where
  column : Nat
  value : α

namespace Fraction

def below (f : Fraction α) : α := Scalar.ofInt (Scalar.floorInt f.value)

def above (f : Fraction α) : α := Scalar.ofInt (Scalar.ceilInt f.value)

/-- The part after the point. -/
def part (f : Fraction α) : α := f.value - f.below

/-- The distance to the nearer integer. -/
def distance (f : Fraction α) : α := Scalar.smaller f.part (1 - f.part)

end Fraction

/-- Of the elements with the greatest key the first. -/
def firstGreatest {β : Type} (key : β → α) (xs : List β) : Option β :=
  firstLeast (fun a b => decide (key b < key a)) xs

/-- The sum of the distances to the nearer integers. -/
def infeasibility (fs : List (Fraction α)) : α :=
  Scalar.sum (fs.map fun f => Scalar.smaller (f.value - f.below) (f.above - f.value))

namespace History

/-- Adds the cost of one more rounding. -/
def add (h : History α) (up : Bool) (cost : α) : History α :=
  if up then { h with up := h.up + cost, ups := h.ups + 1 }
  else { h with down := h.down + cost, downs := h.downs + 1 }

/-- Mean costs of rounding down and up; one where nothing is known. -/
def means (h : History α) : α × α :=
  (if h.downs == 0 then 1 else h.down / h.downs, if h.ups == 0 then 1 else h.up / h.ups)

end History

namespace Tree

/-- The integer columns whose values are too far from integers. -/
def fractional (t : Tree α) : Except RoundingError (List (Fraction α)) := do
  let columns := t.problem.numberedColumns.filter fun e => e.2.kind = .integer
  let found ← columns.mapM fun e => do
    let x := valueAt t.problem.basic.colPrimal e.1
    let far := decide (t.params.integerTolerance < Scalar.abs (x - (← Scalar.nearest x)))
    return if far then some ⟨e.1, x⟩ else none
  return found.filterMap id

/-- Learns from the objective that a node was solved with what its decision cost. -/
def learn (t : Tree α) (n : Node α) (objective : α) : Tree α :=
  match n.decision with
  | none => t
  | some d =>
    if n.parent = 0 then t
    else
      let tiny : α := Scalar.ofDecimal 1 (-9)
      let cost := Scalar.larger 0 (t.sense * (objective - n.bound)) / Scalar.larger d.distance tiny
      let history := ((t.histories.lookup d.column).getD {}).add d.up cost
      let others := t.histories.filter fun h => h.1 != d.column
      { t with histories := (d.column, history) :: others }

def costOf (t : Tree α) (f : Fraction α) : α :=
  match t.problem.columns[f.column - 1]? with
  | some c => Scalar.abs c.cost
  | none => 0

/-- The product of what rounding down and rounding up are expected to cost. -/
def promise (t : Tree α) (f : Fraction α) : α :=
  let cost := t.costOf f
  let weight := if cost == 0 then 1 else cost
  let (down, up) := ((t.histories.lookup f.column).map History.means).getD (weight, weight)
  let least : α := Scalar.ofDecimal 1 (-6)
  Scalar.larger (down * f.part) least * Scalar.larger (up * (1 - f.part)) least

/-- The column to split: the first or last fractional one, the one farthest from
integers, the same weighted by costs, or the one that promises most. -/
def choose (t : Tree α) (fs : List (Fraction α)) : Option (Fraction α) :=
  let technique := t.params.branching
  if technique = 1 then fs.head?
  else if technique = 2 then fs.getLast?
  else if technique = 3 then firstGreatest Fraction.distance fs
  else if technique = 4 then
    let weight (f : Fraction α) := t.costOf f * f.distance
    match firstGreatest weight fs with
    | none => none
    | some f => if 0 < weight f then some f else firstGreatest Fraction.distance fs
  else firstGreatest t.promise fs

/-- Replaces a node by two: below and above the value of a column. The one nearer to
the value is the later one. -/
def split (t : Tree α) (n : Node α) (f : Fraction α) (fs : List (Fraction α)) : Tree α :=
  let (lower, upper) := (n.boxes.lookup f.column).getD (t.rootBounds.getD (f.column - 1) (0, 0))
  let far := infeasibility fs
  let down (t : Tree α) := t.grow n ⟨f.column, false, f.value - f.below⟩ (lower, f.below) far
  let up (t : Tree α) := t.grow n ⟨f.column, true, f.above - f.value⟩ (f.above, upper) far
  let t := t.fathom n
  if Scalar.ofDecimal 5 (-1) ≤ f.part then up (down t) else down (up t)

end Tree

end MixedInteger
