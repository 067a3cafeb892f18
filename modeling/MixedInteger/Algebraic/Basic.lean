import MixedInteger.Fault

/-! Algebraic models: named variables, constraints that hold an expression between
bounds, and objectives. Of such a model only a report is seen. Expressions stay closed:
of each it is reported whether it is linear, and if it is, its constant and its
coefficients with the values of fixed variables put in. -/

namespace MixedInteger.Algebraic

/-- What is reported of a variable. The bounds are those in force, none where there is
no finite one. -/
structure Variable (α : Type) where
  name : String
  fixed : Bool := false
  value : Option α := none
  lower : Option α := none
  upper : Option α := none
  /-- The domain has the values zero and one only. -/
  binary : Bool := false
  /-- The domain has integers only. -/
  integer : Bool := false

structure Row (E α : Type) where
  name : String
  body : E
  lower : Option α := none
  upper : Option α := none
  /-- Both bounds are there and equal. -/
  equality : Bool := false
  active : Bool := true

structure Objective (E : Type) where
  name : String
  body : E
  maximize : Bool := false
  active : Bool := true

structure LinearForm (α : Type) where
  constant : α
  terms : List (α × String) := []

/-- What is reported of a model with expressions in `E`. -/
structure Report (E α : Type) where
  name : String
  vars : List (Variable α) := []
  rows : List (Row E α) := []
  objectives : List (Objective E) := []
  /-- Nothing when the expression is not linear. -/
  linear? : E → Option (LinearForm α)

end MixedInteger.Algebraic
