import MixedInteger.Data.Value

/-! What a model is said in: variables and constraints by identity, functions and
the sets they lie in. An index carries the kinds of its function and set, which
need not fit together; such an index names nothing. -/

namespace MixedInteger

/-- Kinds of functions, sets and other things that an index may be tagged with. -/
inductive Kind where
  | singleVariable
  | scalarAffine
  | lessThan
  | greaterThan
  | equalTo
  | interval
  | zeroOne
  | integer
  | variableIndex
  /-- A kind of plain data. -/
  | plain (name : String)
deriving DecidableEq, Repr

def Kind.name : Kind → String
  | singleVariable => "SingleVariable"
  | scalarAffine => "ScalarAffineFunction"
  | lessThan => "LessThan"
  | greaterThan => "GreaterThan"
  | equalTo => "EqualTo"
  | interval => "Interval"
  | zeroOne => "ZeroOne"
  | integer => "Integer"
  | variableIndex => "VariableIndex"
  | plain n => n

def Kind.ofName (n : String) : Kind :=
  match n with
  | "SingleVariable" => singleVariable
  | "ScalarAffineFunction" => scalarAffine
  | "LessThan" => lessThan
  | "GreaterThan" => greaterThan
  | "EqualTo" => equalTo
  | "Interval" => interval
  | "ZeroOne" => zeroOne
  | "Integer" => integer
  | "VariableIndex" => variableIndex
  | n => plain n

/-- The written form of a kind. -/
def Kind.written : Kind → String
  | plain n => "<class '" ++ n ++ "'>"
  | k => "<class 'lpadapter.model.types." ++ k.name ++ "'>"

/-- The kinds of sets that bound a variable. -/
def Kind.isBound : Kind → Bool
  | lessThan | greaterThan | equalTo | interval => true
  | _ => false

structure VariableIndex where
  value : Int
deriving DecidableEq, Repr

def VariableIndex.written (v : VariableIndex) : String := s!"VariableIndex(value={v.value})"

/-- For a constraint on a single variable the value is the variable's own identity. -/
structure ConstraintIndex where
  function : Kind
  set : Kind
  value : Int
deriving DecidableEq, Repr

def ConstraintIndex.written (c : ConstraintIndex) : String :=
  "ConstraintIndex(function_type=" ++ c.function.written ++ ", set_type=" ++ c.set.written ++
    s!", value={c.value})"

/-! ### Sets -/

inductive ScalarSet (α : Type) where
  | lessThan (upper : α)
  | greaterThan (lower : α)
  | equalTo (value : α)
  | interval (lower upper : α)
  | zeroOne
  | integer

variable {α : Type} [Scalar α]

def ScalarSet.kind : ScalarSet α → Kind
  | lessThan _ => .lessThan
  | greaterThan _ => .greaterThan
  | equalTo _ => .equalTo
  | interval _ _ => .interval
  | zeroOne => .zeroOne
  | integer => .integer

def ScalarSet.written : ScalarSet α → String
  | lessThan u => "LessThan(upper=" ++ Scalar.text u ++ ")"
  | greaterThan l => "GreaterThan(lower=" ++ Scalar.text l ++ ")"
  | equalTo v => "EqualTo(value=" ++ Scalar.text v ++ ")"
  | interval l u => "Interval(lower=" ++ Scalar.text l ++ ", upper=" ++ Scalar.text u ++ ")"
  | zeroOne => "ZeroOne()"
  | integer => "Integer()"

/-! ### Functions -/

structure Term (α : Type) where
  coefficient : α
  var : VariableIndex

structure AffineFunction (α : Type) where
  terms : List (Term α) := []
  constant : α

/-- Adds to the coefficient of a variable, which keeps its place. -/
def addTerm (t : Term α) : List (Term α) → List (Term α)
  | [] => [⟨0 + t.coefficient, t.var⟩]
  | u :: us =>
    if u.var = t.var then ⟨u.coefficient + t.coefficient, u.var⟩ :: us
    else u :: addTerm t us

/-- One term for each variable, without zeros, by identity. -/
def AffineFunction.canonical (f : AffineFunction α) : AffineFunction α :=
  let merged := f.terms.foldl (fun ts t => addTerm t ts) []
  let sorted := merged.mergeSort fun a b => a.var.value ≤ b.var.value
  { f with terms := sorted.filter fun t => !(t.coefficient == 0) }

inductive Function (α : Type) where
  | single (v : VariableIndex)
  | affine (f : AffineFunction α)

/-! ### Arguments

Callers may pass anything where an index, a set or a function belongs. -/

inductive IndexArg (α : Type) where
  | var (v : VariableIndex)
  | constraint (c : ConstraintIndex)
  | raw (v : Value α)

inductive SetArg (α : Type) where
  | set (s : ScalarSet α)
  | raw (v : Value α)

inductive FunctionArg (α : Type) where
  | var (v : VariableIndex)
  | single (v : VariableIndex)
  | affine (f : AffineFunction α)
  | raw (v : Value α)

def IndexArg.written : IndexArg α → String
  | var v => v.written
  | constraint c => c.written
  | raw v => v.written

def SetArg.kind : SetArg α → Kind
  | set s => s.kind
  | raw v => .plain v.kindName

def SetArg.written : SetArg α → String
  | set s => s.written
  | raw v => v.written

def FunctionArg.kind : FunctionArg α → Kind
  | var _ => .variableIndex
  | single _ => .singleVariable
  | affine _ => .scalarAffine
  | raw v => .plain v.kindName

end MixedInteger
