/-! The numbers of a problem. The algorithms ask for little: field operations,
comparisons, two infinities and a value that is not a number, and rounding to an
integer. They run on doubles and can be read over exact numbers. -/

namespace MixedInteger

/-- Why a number has no integer part. -/
inductive RoundingError where
  | notANumber
  | infinite
deriving DecidableEq, Repr

/-- Comparisons with a value that is not a number are false, and `==` is equality
of values. -/
class Scalar (α : Type) extends Zero α, One α, Add α, Sub α, Mul α, Div α, Neg α,
    LT α, LE α, BEq α where
  decidableLT : DecidableLT α
  decidableLE : DecidableLE α
  isNaN : α → Bool
  isInf : α → Bool
  infinity : α
  nan : α
  /-- The largest finite value of a double. -/
  largest : α
  /-- The distance from one to the next double. -/
  epsilon : α
  /-- The floor of a finite value. -/
  floorInt : α → Int
  /-- Nothing when the integer is out of range. -/
  ofInt? : Int → Option α
  /-- The value of `m * 10 ^ e`. -/
  ofDecimal : Nat → Int → α
  text : α → String

namespace Scalar

attribute [reducible, instance] decidableLT decidableLE

variable {α : Type} [Scalar α]

instance : Inhabited α := ⟨0⟩

def ofNat (n : Nat) : α := ofDecimal n 0

/-- Saturates at the infinities. -/
def ofInt (i : Int) : α := (ofInt? i).getD (if i < 0 then -infinity else infinity)

def isFinite (x : α) : Bool := !isNaN x && !isInf x

def abs (x : α) : α := if x < 0 then -x else if x == 0 then 0 else x

/-- The first argument stays unless the second is greater. -/
def larger (x y : α) : α := if x < y then y else x

/-- The first argument stays unless the second is less. -/
def smaller (x y : α) : α := if y < x then y else x

/-- A rounding rule on finite values, refused elsewhere. -/
def rounded (f : α → Int) (x : α) : Except RoundingError α :=
  if isNaN x then .error .notANumber
  else if isInf x then .error .infinite
  else .ok (ofInt (f x))

def ceilInt (x : α) : Int := -floorInt (-x)

/-- The nearest integer, a half going to the even one. -/
def nearestInt (x : α) : Int :=
  let f := floorInt x
  let d := x - ofInt f
  let half : α := ofDecimal 5 (-1)
  if d < half then f
  else if half < d then f + 1
  else if f % 2 = 0 then f else f + 1

/-- Toward zero. -/
def truncInt (x : α) : Int := if x < 0 then ceilInt x else floorInt x

/-- The integer that is left when the fraction is dropped. -/
def toInt (x : α) : Except RoundingError Int :=
  if isNaN x then .error .notANumber
  else if isInf x then .error .infinite
  else .ok (truncInt x)

def floor (x : α) : Except RoundingError α := rounded floorInt x
def nearest (x : α) : Except RoundingError α := rounded nearestInt x

/-- Left to right, from zero. -/
def sum (xs : List α) : α := xs.foldl (· + ·) 0

end Scalar

end MixedInteger
