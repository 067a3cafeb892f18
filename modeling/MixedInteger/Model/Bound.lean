import MixedInteger.Model.Basic
import MixedInteger.Problem.Basic

/-! What a variable carries: at most one set that bounds it from below, at most
one from above and at most one type. Which sets are there is one of six states,
and the bounds themselves are those of the variable's column. -/

namespace MixedInteger

inductive BoundState where
  | none
  | lessThan
  | greaterThan
  | lessAndGreaterThan
  | interval
  | equalTo
deriving DecidableEq, Repr

inductive TypeState where
  | continuous
  | binary
  | integer
deriving DecidableEq, Repr

def BoundState.text : BoundState → String
  | none => "NONE"
  | lessThan => "LESS_THAN"
  | greaterThan => "GREATER_THAN"
  | lessAndGreaterThan => "LESS_AND_GREATER_THAN"
  | interval => "INTERVAL"
  | equalTo => "EQUAL_TO"

def TypeState.text : TypeState → String
  | continuous => "CONTINUOUS"
  | binary => "BINARY"
  | integer => "INTEGER"

/-- Bound and type constraints are no rows, so their names are kept here: one for
an upper, one for a lower, fixed or two-sided bound and one for a type. -/
inductive NameSlot where
  | upper
  | lower
  | type
deriving DecidableEq, Repr

structure VariableInfo where
  index : VariableIndex
  column : Nat
  bound : BoundState := .none
  type : TypeState := .continuous
  name : String := ""
  upperName : String := ""
  lowerName : String := ""
  typeName : String := ""

structure ConstraintInfo (α : Type) where
  row : Nat
  set : ScalarSet α
  name : String := ""

namespace NameSlot

def text : NameSlot → String
  | upper => "lessthan_name"
  | lower => "greaterthan_interval_or_equalto_name"
  | type => "type_constraint_name"

def ofText? : String → Option NameSlot
  | "lessthan_name" => some upper
  | "greaterthan_interval_or_equalto_name" => some lower
  | "type_constraint_name" => some type
  | _ => none

def unknownMessage (s : String) : String := "unknown name slot " ++ Text.quoted s

/-- The slot for constraints of a kind. -/
def ofKind? : Kind → Option NameSlot
  | .lessThan => some upper
  | .greaterThan | .interval | .equalTo => some lower
  | .zeroOne | .integer => some type
  | _ => none

def get (s : NameSlot) (info : VariableInfo) : String :=
  match s with
  | upper => info.upperName
  | lower => info.lowerName
  | type => info.typeName

def set (s : NameSlot) (name : String) (info : VariableInfo) : VariableInfo :=
  match s with
  | upper => { info with upperName := name }
  | lower => { info with lowerName := name }
  | type => { info with typeName := name }

end NameSlot

/-! ### The six states -/

/-- The set that bounds from below. -/
def BoundState.lowerSet : BoundState → Option Kind
  | greaterThan | lessAndGreaterThan => some .greaterThan
  | interval => some .interval
  | equalTo => some .equalTo
  | _ => Option.none

/-- The set that bounds from above. -/
def BoundState.upperSet : BoundState → Option Kind
  | lessThan | lessAndGreaterThan => some .lessThan
  | interval => some .interval
  | equalTo => some .equalTo
  | _ => Option.none

inductive BoundError where
  | lowerTaken (v : VariableIndex) (existing new : Kind)
  | upperTaken (v : VariableIndex) (existing new : Kind)
  | notABound (kind : Kind)

def BoundError.message : BoundError → String
  | lowerTaken v e n => text "lower" v e n
  | upperTaken v e n => text "upper" v e n
  | notABound k => k.name ++ " is not a bound set"
where
  text (side : String) (v : VariableIndex) (existing new : Kind) : String :=
    "Cannot add `" ++ new.name ++ "` on " ++ v.written ++ ": a " ++ side ++ " bound `" ++
      existing.name ++ "` is already set."

namespace VariableInfo

def checkLower (info : VariableInfo) (new : Kind) : Except BoundError Unit :=
  match info.bound.lowerSet with
  | some existing => .error (.lowerTaken info.index existing new)
  | none => .ok ()

def checkUpper (info : VariableInfo) (new : Kind) : Except BoundError Unit :=
  match info.bound.upperSet with
  | some existing => .error (.upperTaken info.index existing new)
  | none => .ok ()

/-- The state after a bound set is added, or its collision with one that is there. -/
def addBound (info : VariableInfo) (new : Kind) : Except BoundError BoundState :=
  match new with
  | .lessThan => do
    info.checkUpper new
    return if info.bound = .greaterThan then .lessAndGreaterThan else .lessThan
  | .greaterThan => do
    info.checkLower new
    return if info.bound = .lessThan then .lessAndGreaterThan else .greaterThan
  | .equalTo => do
    info.checkLower new
    info.checkUpper new
    return .equalTo
  | .interval => do
    info.checkLower new
    info.checkUpper new
    return .interval
  | k => .error (.notABound k)

end VariableInfo

variable {α : Type} [Scalar α]

/-- New values for the two bounds of a column; an absent one stays. -/
structure BoundChange (α : Type) where
  lower : Option α := none
  upper : Option α := none

/-- The state without a bound set, and what becomes of the column. -/
def BoundState.remove (b : BoundState) (kind : Kind) :
    Except BoundError (BoundState × BoundChange α) :=
  match kind with
  | .lessThan =>
    .ok (if b = .lessAndGreaterThan then .greaterThan else .none,
      { upper := some Scalar.infinity })
  | .greaterThan =>
    .ok (if b = .lessAndGreaterThan then .lessThan else .none,
      { lower := some (-Scalar.infinity) })
  | .interval | .equalTo =>
    .ok (.none, { lower := some (-Scalar.infinity), upper := some Scalar.infinity })
  | k => .error (.notABound k)

/-- What a set writes into the bounds of a column. -/
def SetArg.bounds : SetArg α → Except BoundError (BoundChange α)
  | .set (.greaterThan l) => .ok { lower := some l }
  | .set (.lessThan u) => .ok { upper := some u }
  | .set (.equalTo v) => .ok { lower := some v, upper := some v }
  | .set (.interval l u) => .ok { lower := some l, upper := some u }
  | s => .error (.notABound s.kind)

/-- The kind of a pair of bounds. -/
def boundKind (lower upper : α) : BoundKind :=
  if lower == upper then .fixed
  else if lower ≤ -Scalar.largest then
    if Scalar.largest ≤ upper then .free else .upper
  else if Scalar.largest ≤ upper then .lower else .double

/-- Does a variable carry a constraint of this kind? -/
def VariableInfo.carries (info : VariableInfo) : Kind → Bool
  | .lessThan => info.bound = .lessThan || info.bound = .lessAndGreaterThan
  | .greaterThan => info.bound = .greaterThan || info.bound = .lessAndGreaterThan
  | .interval => info.bound = .interval
  | .equalTo => info.bound = .equalTo
  | .zeroOne => info.type = .binary
  | .integer => info.type = .integer
  | _ => false

/-- The live constraint whose name a slot holds. -/
def VariableInfo.slotKind (info : VariableInfo) : NameSlot → Option Kind
  | .upper => if info.carries .lessThan then some .lessThan else none
  | .lower =>
    match info.bound with
    | .greaterThan | .lessAndGreaterThan => some .greaterThan
    | .equalTo => some .equalTo
    | .interval => some .interval
    | _ => none
  | .type =>
    match info.type with
    | .binary => some .zeroOne
    | .integer => some .integer
    | .continuous => none

end MixedInteger
