import MixedInteger.Model.State

/-! The parameters of a model. A parameter that is set is also remembered as it was
given. A silent model has message level zero; afterwards the level that was given
counts again. -/

namespace MixedInteger

variable {α : Type} [Scalar α]

/-- An entry of a record: a new name goes to the end. -/
def setEntry {β : Type} (key : String) (value : β) : List (String × β) → List (String × β)
  | [] => [(key, value)]
  | e :: es => if e.1 == key then (key, value) :: es else e :: setEntry key value es

namespace Modelling

/-- Sets a parameter without remembering it. -/
def applyParameter (key : String) (v : Value α) : Modelling α Unit := fun m =>
  match Parameter.Stores.set key v m.stores with
  | .ok _ stores => .ok () { m with stores := stores }
  | .error e stores => .error (.ofSet e) { m with stores := stores }

def setParameter (key v : Value α) : Modelling α Unit := do
  match key with
  | .text name =>
    applyParameter name v
    modify fun m => { m with given := setEntry name v m.given }
  | key => throw (.option (.keyKind key))

end Modelling

namespace Model

def parameter (m : Model α) : Value α → Except (Fault α) (Parameter.Setting α)
  | .text name =>
    match m.stores.get? name with
    | some s => .ok s
    | none => .error (.option (.unreadable name))
  | key => .error (.option (.keyKind key))

/-- The message level that was given, or errors only. -/
def givenLevel (m : Model α) : Value α :=
  (m.given.lookup "msg_lev").getD (.int Parameter.levelErrors)

/-- Seconds; nothing when there is no limit. -/
def timeLimit (m : Model α) : Except (Fault α) (Option α) :=
  let limit := m.stores.simplex.timeLimit
  if Parameter.unlimited ≤ limit then .ok none
  else match Scalar.ofInt? limit with
    | some x => .ok (some (x / Scalar.ofNat 1000))
    | none => .error (.conversion .overflow)

def methodOf : Value α → Except (Fault α) Method
  | .text s =>
    match Method.ofText? s with
    | some m => .ok m
    | none => .error .unknownWord
  | _ => .error .unknownWord

end Model

namespace Modelling

/-- Seconds, rounded to milliseconds; null lifts the limit. -/
def setTimeLimit : Value α → Modelling α Unit
  | .null => setParameter (.text "tm_lim") (.int Parameter.unlimited)
  | v =>
    match v.toReal with
    | .error e => throw (.conversion e)
    | .ok x =>
      match Scalar.nearest (Scalar.ofNat 1000 * x) with
      | .error e => throw (.rounding e)
      | .ok y => setParameter (.text "tm_lim") (.int (Scalar.truncInt y))

def setSilent (flag : Bool) : Modelling α Unit := do
  modify fun m => { m with silent := flag }
  let given := (← get).givenLevel
  applyParameter "msg_lev" (if flag then .int Parameter.levelOff else given)

/-- Parameters in order, then the message level and the presolver. -/
def configure (params : List (String × Value α)) : Modelling α Unit := do
  for (key, v) in params do
    modify fun m => { m with given := setEntry key v m.given }
    setParameter (.text key) v
  applyParameter "msg_lev" (← get).givenLevel
  if (← get).presolve then applyParameter "presolve" (.int 1)

end Modelling

/-- A new model without variables. -/
def Model.create (presolve method : Value α) (params : List (String × Value α)) :
    Except (Fault α) (Model α) := do
  let method ← Model.methodOf method
  let start : Model α := { presolve := presolve.truthy, method := method }
  match Modelling.configure params start with
  | .ok _ m => return m
  | .error e _ => throw e

end MixedInteger
