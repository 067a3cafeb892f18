import MixedInteger.Number.Double
import MixedInteger.Solver.Request
import MixedInteger.Solver.Tableau

/-! Linear programs on doubles, solved exactly. The data are taken at their exact
values, the simplex method runs on rational numbers, and the answer is rounded at
the end. Options are not needed. -/

namespace MixedInteger

namespace Exact

def rational? (x : Float) : Option Rat := (BinaryForm.ofFloat? x).map BinaryForm.toRat

/-- Infinite bounds and such that are no numbers do not bound. -/
def bound? (x : Option Float) : Option Rat := x.bind rational?

/-- Rows with the bounds on their values. -/
structure Rows where
  coefs : Array (Array Rat)
  lower : Array (Option Rat)
  upper : Array (Option Rat)

def matrix? (m : Option (List (List Float))) : Option (Array (Array Rat)) :=
  (m.getD []).toArray.mapM fun row => row.toArray.mapM rational?

def vector? (v : Option (List Float)) : Option (Array Rat) := (v.getD []).toArray.mapM rational?

/-- Nothing when the data hold what is not a finite number. -/
def rows? (lp : LinearProgram Float) : Option Rows := do
  let ub ← matrix? lp.ubMatrix
  let ubBound ← vector? lp.ubBound
  let eq ← matrix? lp.eqMatrix
  let eqBound ← vector? lp.eqBound
  return {
    coefs := ub ++ eq
    lower := ubBound.map (fun _ => none) ++ eqBound.map some
    upper := ubBound.map some ++ eqBound.map some }

/-- Where a variable starts: at a bound if it has one. -/
def startValue (lower upper : Option Rat) : Rat := (lower.or upper).getD 0

def product (xs ys : Array Rat) : Rat := (xs.zipWith (· * ·) ys).foldl (· + ·) 0

/-- The tableau whose basic variables are the rows. -/
def tableau (cost : Array Rat) (bounds : Array (Option Rat × Option Rat)) (rows : Rows) :
    Tableau :=
  let start := bounds.map fun b => startValue b.1 b.2
  { rows := rows.coefs
    cost := cost
    basic := (Array.range rows.coefs.size).map (· + cost.size)
    others := Array.range cost.size
    values := start ++ rows.coefs.map fun row => product row start
    lower := bounds.map (·.1) ++ rows.lower
    upper := bounds.map (·.2) ++ rows.upper }

def crossed (b : Option Rat × Option Rat) : Bool :=
  match b with
  | (some l, some u) => u + Tableau.tolerance < l
  | _ => false

/-- An answer without an optimum. -/
def failure (status : Int) (message : String) (n : Nat) : Answer Float :=
  { status := status, message := message
    point := List.replicate n 0, value := 0
    ubMarginals := [], eqMarginals := []
    lowerMarginals := List.replicate n 0, upperMarginals := List.replicate n 0 }

def steps : Nat := 1000000

/-- The optimum that a tableau shows, with the cost of each variable. -/
def answer (lp : LinearProgram Float) (cost : Array Rat) (t : Tableau) : Answer Float :=
  let n := cost.size
  let ubs := (lp.ubBound.getD []).length
  let eqs := (lp.eqBound.getD []).length
  let point := (List.range n).map t.value
  let columns := (List.range n).map t.reducedCost
  let row (k : Nat) : Float := doubleOfRat (t.reducedCost (n + k))
  { point := point.map doubleOfRat
    value := doubleOfRat (product cost point.toArray)
    ubMarginals := (List.range ubs).map row
    eqMarginals := (List.range eqs).map fun k => row (ubs + k)
    lowerMarginals := columns.map fun d => doubleOfRat (if d < 0 then 0 else d)
    upperMarginals := columns.map fun d => doubleOfRat (if d < 0 then d else 0) }

def optimize (lp : LinearProgram Float) (cost : Array Rat) (t : Tableau) : Answer Float :=
  let n := cost.size
  match t.iterate steps Tableau.repair with
  | (none, _) => failure 4 "Too many steps." n
  | (some false, _) => failure 2 "The problem is infeasible." n
  | (some true, t) =>
    match t.iterate steps Tableau.improve with
    | (none, _) => failure 4 "Too many steps." n
    | (some false, _) => failure 3 "The problem is unbounded." n
    | (some true, t) => answer lp cost t

def solve (lp : LinearProgram Float) : Except SolverError (Answer Float) :=
  match vector? (some lp.cost), rows? lp with
  | some cost, some rows =>
    let bounds := lp.bounds.toArray.map fun b => (bound? b.1, bound? b.2)
    if bounds.any crossed then .ok (failure 2 "The problem is infeasible." cost.size)
    else .ok (optimize lp cost (tableau cost bounds rows))
  | _, _ => .error .nonFinite

end Exact

end MixedInteger
