/-! Formulas over numbers and names. What is no arithmetic on numbers is kept as far
as it takes to tell why it is refused. -/

namespace MixedInteger

inductive Operator where
  | add
  | subtract
  | multiply
  | divide
  | floorDivide
  | modulo
  | power
  /-- Operators that are not for numbers. -/
  | other
deriving DecidableEq, Repr

inductive Sign where
  | plus
  | minus
  | other
deriving DecidableEq, Repr

inductive Formula where
  | int (n : Nat)
  | real (x : Float)
  /-- A constant that is no number. -/
  | constant
  | name (s : String)
  | unary (sign : Sign) (f : Formula)
  | binary (op : Operator) (left right : Formula)
  /-- Any other form; a place is one that can be assigned to. -/
  | other (place : Bool)

/-- Why a text is no formula. -/
inductive Malformed where
  /-- A line begins with a blank. -/
  | indented
  | invalid
deriving DecidableEq, Repr

/-- Why an operation has no result. -/
inductive ArithmeticError where
  | zeroDivision
  | overflow
  /-- An operation of real numbers on one that is not real. -/
  | notReal
deriving DecidableEq, Repr

/-- Why a text has no value. -/
inductive FormulaError where
  | malformed (why : Malformed)
  | constant
  | unknownName (name : String)
  /-- A name of something else, which is given as it is shown. -/
  | notNumeric (name shown : String)
  | operator
  | sign
  | form
  | arithmetic (e : ArithmeticError)
deriving DecidableEq, Repr

/-- The text for causes that have one. -/
def FormulaError.message? : FormulaError → Option String
  | malformed _ | arithmetic _ => none
  | constant => some "non-numeric constant in expression"
  | unknownName n => some ("unknown name '" ++ n ++ "' in expression")
  | notNumeric n v => some ("name '" ++ n ++ "' is not numeric: " ++ v)
  | operator => some "operator not allowed in expression"
  | sign => some "unary operator not allowed in expression"
  | form => some "unsupported syntax in expression"

/-- Can the formula be assigned to? -/
def Formula.isPlace : Formula → Bool
  | name _ => true
  | other place => place
  | _ => false

end MixedInteger
