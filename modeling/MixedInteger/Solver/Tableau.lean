/-! The simplex method on exact numbers. Every variable has bounds; the rows express
basic variables by the others. First a basic variable outside its bounds is
moved to the bound it violates, until none is left or one cannot be moved. Then a
variable that lowers the cost is moved as far as the bounds allow. Of several
choices the variable of least number is taken, which rules out cycles.

The numbers are exact but the data may have been rounded before, so a tiny
violation of a bound counts as none, and so does a tiny cost. -/

namespace MixedInteger

structure Tableau where
  /-- Coefficients of the basic variables in the others. -/
  rows : Array (Array Rat)
  /-- The cost in the variables that are not basic, up to a constant. -/
  cost : Array Rat
  basic : Array Nat
  others : Array Nat
  /-- By variable, as are the bounds; an absent bound is infinite. -/
  values : Array Rat
  lower : Array (Option Rat)
  upper : Array (Option Rat)

namespace Tableau

/-- Violations and costs up to this size are taken for rounding errors. -/
def tolerance : Rat := mkRat 1 1000000000

def value (t : Tableau) (v : Nat) : Rat := t.values.getD v 0

def lowerOf (t : Tableau) (v : Nat) : Option Rat := t.lower.getD v none

def upperOf (t : Tableau) (v : Nat) : Option Rat := t.upper.getD v none

def basicAt (t : Tableau) (i : Nat) : Nat := t.basic.getD i 0

def otherAt (t : Tableau) (j : Nat) : Nat := t.others.getD j 0

def coef (t : Tableau) (i j : Nat) : Rat := (t.rows.getD i #[]).getD j 0

def canRise (t : Tableau) (v : Nat) : Bool :=
  match t.upperOf v with
  | none => true
  | some u => t.value v < u

def canFall (t : Tableau) (v : Nat) : Bool :=
  match t.lowerOf v with
  | none => true
  | some l => l < t.value v

/-- Positions by the numbers of the variables at them. -/
def leastPosition (numbers : Array Nat) (fits : Nat → Bool) : Option Nat :=
  (List.range numbers.size).foldl
    (fun best j =>
      if !fits j then best
      else match best with
        | none => some j
        | some b => if numbers.getD j 0 < numbers.getD b 0 then some j else best)
    none

/-- Moves the variable at position `j` by `step`, and the basic ones with it. -/
def move (t : Tableau) (j : Nat) (step : Rat) : Tableau :=
  let values := t.values.modify (t.otherAt j) (· + step)
  let follow (values : Array Rat) (i : Nat) : Array Rat :=
    values.modify (t.basicAt i) (· + t.coef i j * step)
  { t with values := (List.range t.basic.size).foldl follow values }

/-- A row with the variable at `j` replaced by the row that stands for it. -/
def substitute (row : Array Rat) (j : Nat) (image : Array Rat) : Array Rat :=
  let a := row.getD j 0
  if a = 0 then row
  else (Array.range row.size).map fun k =>
    if k = j then a * image.getD j 0 else row.getD k 0 + a * image.getD k 0

/-- Exchanges the basic variable `i` for the variable at `j`. -/
def exchange (t : Tableau) (i j : Nat) : Tableau :=
  let old := t.rows.getD i #[]
  let a := old.getD j 0
  let new := (Array.range old.size).map fun k => if k = j then 1 / a else -(old.getD k 0) / a
  { t with
    rows := (Array.range t.rows.size).map fun k =>
      if k = i then new else substitute (t.rows.getD k #[]) j new
    cost := substitute t.cost j new
    basic := t.basic.setIfInBounds i (t.otherAt j)
    others := t.others.setIfInBounds j (t.basicAt i) }

/-! ### Feasibility -/

/-- The bound that a variable violates. -/
def violated (t : Tableau) (v : Nat) : Option Rat :=
  let below := (t.lowerOf v).filter fun l => t.value v < l - tolerance
  let above := (t.upperOf v).filter fun u => u + tolerance < t.value v
  below.or above

/-- One step towards the bounds: done, stuck or a new tableau. -/
inductive Progress where
  | done
  | stuck
  | next (t : Tableau)

def repair (t : Tableau) : Progress :=
  match leastPosition t.basic fun i => (t.violated (t.basicAt i)).isSome with
  | none => .done
  | some i =>
    let target := (t.violated (t.basicAt i)).getD 0
    let rising := t.value (t.basicAt i) < target
    let helps (j : Nat) : Bool :=
      let a := t.coef i j
      let v := t.otherAt j
      if rising then (0 < a && t.canRise v) || (a < 0 && t.canFall v)
      else (a < 0 && t.canRise v) || (0 < a && t.canFall v)
    match leastPosition t.others helps with
    | none => .stuck
    | some j =>
      let step := (target - t.value (t.basicAt i)) / t.coef i j
      .next ((t.move j step).exchange i j)

/-! ### Optimality -/

def atLeastZero (r : Rat) : Rat := if r < 0 then 0 else r

/-- How far a variable may move in a direction before a bound stops it. -/
def room (t : Tableau) (v : Nat) (rate : Rat) : Option Rat :=
  if rate = 0 then none
  else if 0 < rate then (t.upperOf v).map fun u => atLeastZero ((u - t.value v) / rate)
  else (t.lowerOf v).map fun l => atLeastZero ((l - t.value v) / rate)

/-- The nearest stop among the basic variables, with its position. -/
def nearestStop (t : Tableau) (j : Nat) (direction : Rat) : Option (Nat × Rat) :=
  (List.range t.basic.size).foldl
    (fun best i =>
      match t.room (t.basicAt i) (t.coef i j * direction), best with
      | none, _ => best
      | some r, none => some (i, r)
      | some r, some (b, s) =>
        if r < s || (r = s && t.basicAt i < t.basicAt b) then some (i, r) else best)
    none

def improve (t : Tableau) : Progress :=
  let improves (j : Nat) : Bool :=
    let d := t.cost.getD j 0
    (d < -tolerance && t.canRise (t.otherAt j)) || (tolerance < d && t.canFall (t.otherAt j))
  match leastPosition t.others improves with
  | none => .done
  | some j =>
    let direction : Rat := if t.cost.getD j 0 < 0 then 1 else -1
    let own := t.room (t.otherAt j) direction
    match own, t.nearestStop j direction with
    | none, none => .stuck
    | some r, none => .next (t.move j (direction * r))
    | none, some (i, s) => .next ((t.move j (direction * s)).exchange i j)
    | some r, some (i, s) =>
      if r ≤ s then .next (t.move j (direction * r))
      else .next ((t.move j (direction * s)).exchange i j)

/-- Repeats a step; tells whether it came to an end and whether it got stuck there. -/
def iterate (fuel : Nat) (step : Tableau → Progress) (t : Tableau) : Option Bool × Tableau :=
  match fuel with
  | 0 => (none, t)
  | fuel + 1 =>
    match step t with
    | .done => (some true, t)
    | .stuck => (some false, t)
    | .next t => iterate fuel step t

/-- The reduced cost of a variable, zero for a basic one. -/
def reducedCost (t : Tableau) (v : Nat) : Rat :=
  match t.others.idxOf? v with
  | none => 0
  | some j => t.cost.getD j 0

end Tableau

end MixedInteger
