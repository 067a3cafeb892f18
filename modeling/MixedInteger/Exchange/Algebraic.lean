import MixedInteger.Algebraic.Transfer
import MixedInteger.Exchange.ModelStep

/-! Algebraic models from data. Their expressions are written out with products of two
variables at most, so the report on them can be computed: a product is linear when one
of its variables is fixed. -/

namespace MixedInteger

open Value

namespace Algebraic

/-! ### Expressions -/

/-- A constant, multiples of variables and multiples of products of two. -/
structure Expression (α : Type) where
  constant : α
  terms : List (α × String) := []
  products : List (α × String × String) := []

/-- The values of fixed variables by name. -/
abbrev Fixings (α : Type) := List (String × α)

variable {α : Type} [Scalar α]

def fixings (vars : List (Variable α)) : Fixings α :=
  vars.filterMap fun v => if v.fixed then v.value.map fun x => (v.name, x) else none

namespace LinearForm

def addTerm (fixings : Fixings α) (f : LinearForm α) (t : α × String) : LinearForm α :=
  match fixings.lookup t.2 with
  | some x => { f with constant := f.constant + t.1 * x }
  | none => { f with terms := f.terms ++ [t] }

def addProduct? (fixings : Fixings α) (f : LinearForm α) (t : α × String × String) :
    Option (LinearForm α) :=
  if t.1 == 0 then some f
  else match fixings.lookup t.2.1, fixings.lookup t.2.2 with
    | some x, _ => some (f.addTerm fixings (t.1 * x, t.2.2))
    | none, some y => some (f.addTerm fixings (t.1 * y, t.2.1))
    | none, none => none

/-- Nothing when the expression is not linear. -/
def of? (fixings : Fixings α) (e : Expression α) : Option (LinearForm α) :=
  let linear := e.terms.foldl (addTerm fixings) ⟨e.constant, []⟩
  e.products.foldlM (addProduct? fixings) linear

end LinearForm

/-! ### Domains -/

structure Domain where
  lower : Option Int := none
  upper : Option Int := none
  binary : Bool := false
  integer : Bool := false

/-- Domains by name. -/
def domains : List (String × Domain) := [
  ("Reals", {}),
  ("NonNegativeReals", { lower := some 0 }),
  ("PositiveReals", { lower := some 0 }),
  ("NonPositiveReals", { upper := some 0 }),
  ("NegativeReals", { upper := some 0 }),
  ("UnitInterval", { lower := some 0, upper := some 1 }),
  ("PercentFraction", { lower := some 0, upper := some 1 }),
  ("Integers", { integer := true }),
  ("NonNegativeIntegers", { lower := some 0, integer := true }),
  ("PositiveIntegers", { lower := some 1, integer := true }),
  ("NonPositiveIntegers", { upper := some 0, integer := true }),
  ("NegativeIntegers", { upper := some (-1), integer := true }),
  ("Boolean", { lower := some 0, upper := some 1, binary := true, integer := true }),
  ("Binary", { lower := some 0, upper := some 1, binary := true, integer := true })]

/-- An infinite bound is none. -/
def finite? (bound : Option α) : Option α := bound.filter fun x => !Scalar.isInf x

/-- The tighter one of the variable's bound and its domain's. -/
def tighter (choose : α → α → α) (own : Option α) (domain : Option Int) : Option α :=
  match finite? own, domain with
  | some x, some d => some (choose (Scalar.ofInt d) x)
  | some x, none => some x
  | none, some d => some (Scalar.ofInt d)
  | none, none => none

/-! ### Data -/

/-- A number, absent or null when there is none. -/
def bound (v : Value Float) : Option Float :=
  match v with
  | .null => none
  | v => some v.asReal

def Variable.ofData (v : Value Float) : Except (Fault Float) (Variable Float) := do
  let some domain := domains.lookup (v.fieldOr "domain" (.text "Reals")).asText
    | throw .missingPart
  return {
    name := (v.field "name").asText
    fixed := (v.field "fixed").truthy
    value := bound (v.field "value")
    lower := tighter Scalar.larger (bound (v.field "lb")) domain.lower
    upper := tighter Scalar.smaller (bound (v.field "ub")) domain.upper
    binary := domain.binary
    integer := domain.integer }

def Expression.ofData (v : Value Float) : Expression Float where
  constant := (v.fieldOr "const" (.int 0)).asReal
  terms := (v.field "terms").items.map fun t => ((t.item 0).asReal, (t.item 1).asText)
  products := (v.field "quad").items.map fun t =>
    ((t.item 0).asReal, (t.item 1).asText, (t.item 2).asText)

def isActive (v : Value Float) : Bool := !(v.field "inactive").truthy

def Row.ofData (v : Value Float) : Row (Expression Float) Float :=
  let row : Row (Expression Float) Float :=
    { name := (v.field "name").asText, body := .ofData v, active := isActive v }
  match bound (v.field "eq") with
  | some x => { row with lower := finite? (some x), upper := finite? (some x), equality := true }
  | none =>
    { row with lower := finite? (bound (v.field "lb")), upper := finite? (bound (v.field "ub")) }

def Objective.ofData (v : Value Float) : Objective (Expression Float) where
  name := (v.field "name").asText
  body := .ofData v
  maximize := (v.field "max").truthy
  active := isActive v

end Algebraic

/-- The report on a model whose expressions are written out. -/
abbrev AlgebraicModel (α : Type) := Algebraic.Report (Algebraic.Expression α) α

def AlgebraicModel.ofData (v : Value Float) : Except (Fault Float) (AlgebraicModel Float) := do
  let vars ← (v.field "vars").items.mapM Algebraic.Variable.ofData
  return {
    name := (v.fieldOr "name" (.text "m")).asText
    vars := vars
    rows := (v.field "cons").items.map Algebraic.Row.ofData
    objectives := (v.field "objs").items.map Algebraic.Objective.ofData
    linear? := Algebraic.LinearForm.of? (Algebraic.fixings vars) }

def Correspondence.rowsData (c : Correspondence) : Value Float :=
  .list (c.rows.map fun r => .list [.text r.1, .list (r.2.map ConstraintIndex.toData)])

end MixedInteger
