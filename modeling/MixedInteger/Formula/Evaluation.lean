import MixedInteger.Data.Value
import MixedInteger.Formula.Reader
import MixedInteger.Number.Double

/-! The value of a formula. Arithmetic is on integers of any size, on doubles and on pairs of
doubles, the complex numbers that powers of negative numbers lead to. Integers stay integers but
for division and for negative exponents; a double on either side makes the result a double, and a
complex number makes it complex. Quotients are rounded down, and a remainder has the sign of the
divisor. Names stand for numbers of the data around a formula, where a truth value is no number.
Whatever is not arithmetic is refused with the reason. -/

namespace MixedInteger

/-- A complex number. -/
structure DoublePair where
  re : Float
  im : Float

inductive Quantity where
  | int (i : Int)
  | real (x : Float)
  | complex (z : DoublePair)

namespace Quantity

abbrev Result (β : Type) := Except ArithmeticError β

def realOfInt (i : Int) : Result Float :=
  match doubleOfInt? i with
  | some x => .ok x
  | none => .error .overflow


/-! ### Doubles -/

/-- Zero with the sign of `x`. -/
def zeroLike (x : Float) : Float :=
  if x < 0 ∨ 1.0 / x < 0 then -0.0 else 0.0

/-- The exact remainder of a division that is rounded toward zero. -/
def remainder (x y : Float) : Float :=
  match BinaryForm.ofFloat? x, BinaryForm.ofFloat? y with
  | some a, some b =>
    let e := min a.exponent b.exponent
    let m := a.significand * twoTo (a.exponent - e).toNat
    let n := b.significand * twoTo (b.exponent - e).toNat
    let r := nearestDouble (m % n * twoTo e.toNat) (twoTo (-e).toNat)
    if a.negative then -r else r
  | some _, none => if y.isNaN then y else x
  | none, _ => x - x

/-- A remainder with the sign of `y`. -/
def modReal (x y : Float) : Result Float :=
  if y == 0 then .error .zeroDivision
  else
    let r := remainder x y
    if r == 0 then .ok (zeroLike y)
    else if (y < 0) != (r < 0) then .ok (r + y) else .ok r

def floorReal (x : Float) : Float :=
  if Scalar.isFinite x then Scalar.ofInt (Scalar.floorInt x) else x

def floorDivReal (x y : Float) : Result Float :=
  if y == 0 then .error .zeroDivision
  else
    let r := remainder x y
    let q := (x - r) / y
    let q := if r != 0 && (y < 0) != (r < 0) then q - 1 else q
    if q == 0 then .ok (zeroLike (x / y))
    else
      let f := floorReal q
      .ok (if q - f > 0.5 then f + 1 else f)

def divideReal (x y : Float) : Result Float :=
  if y == 0 then .error .zeroDivision else .ok (x / y)

def isWhole (x : Float) : Bool := floorReal x == x

def isOdd (x : Float) : Bool := Scalar.isFinite x && isWhole x && Scalar.floorInt x % 2 = 1

def infinity : Float := Scalar.infinity

/-- The power for an exponent that is infinite. -/
def powerInfinite (x y : Float) : Float :=
  let size := Scalar.abs x
  if size == 1 then 1
  else if (y > 0) = (size > 1) then infinity else 0

/-- The power of an infinite base. -/
def infinitePower (x y : Float) : Float :=
  if y > 0 then (if isOdd y then x else infinity)
  else if isOdd y then zeroLike x else 0

/-- A power that is real: that of a negative number has a whole exponent. -/
def powerReal (x y : Float) : Result Float :=
  if y == 0 then .ok 1
  else if x.isNaN then .ok x
  else if y.isNaN then .ok (if x == 1 then 1 else y)
  else if y.isInf then .ok (powerInfinite x y)
  else if x.isInf then .ok (infinitePower x y)
  else if x == 0 then
    if y < 0 then .error .zeroDivision else .ok (if isOdd y then x else 0)
  else
    let size := Float.pow (Scalar.abs x) y
    if size.isInf then .error .overflow
    else .ok (if x < 0 ∧ isOdd y then -size else size)

/-! ### Complex numbers -/

end Quantity

namespace DoublePair

open Quantity (Result isWhole)

def one : DoublePair := ⟨1, 0⟩

def neg (a : DoublePair) : DoublePair := ⟨-a.re, -a.im⟩

def add (a b : DoublePair) : DoublePair := ⟨a.re + b.re, a.im + b.im⟩

def sub (a b : DoublePair) : DoublePair := ⟨a.re - b.re, a.im - b.im⟩

def mul (a b : DoublePair) : DoublePair :=
  ⟨a.re * b.re - a.im * b.im, a.re * b.im + a.im * b.re⟩

/-- The larger part of the divisor is divided out first. -/
def divide (a b : DoublePair) : Result DoublePair :=
  if Scalar.abs b.im ≤ Scalar.abs b.re then
    if b.re == 0 then .error .zeroDivision
    else
      let ratio := b.im / b.re
      let d := b.re + b.im * ratio
      .ok ⟨(a.re + a.im * ratio) / d, (a.im - a.re * ratio) / d⟩
  else if Scalar.abs b.re ≤ Scalar.abs b.im then
    let ratio := b.re / b.im
    let d := b.re * ratio + b.im
    .ok ⟨(a.re * ratio + a.im) / d, (a.im * ratio - a.re) / d⟩
  else .ok ⟨Scalar.nan, Scalar.nan⟩

/-- By repeated squaring, for exponents below 128. -/
def powerNat (a : DoublePair) (n : Nat) : DoublePair :=
  ((List.range 7).foldl
    (fun (r, p) k => (if n.testBit k then mul r p else r, mul p p)) (one, a)).1

def powerWhole (a : DoublePair) (i : Int) : Result DoublePair :=
  if 0 < i then .ok (powerNat a i.toNat) else divide one (powerNat a (-i).toNat)

/-- The distance to zero. -/
def size (a : DoublePair) : Float :=
  let m := if Scalar.abs a.re < Scalar.abs a.im then Scalar.abs a.im else Scalar.abs a.re
  if m == 0 || m.isInf then m
  else m * Float.sqrt ((a.re / m) * (a.re / m) + (a.im / m) * (a.im / m))

/-- By way of length and angle. -/
def powerPolar (a b : DoublePair) : Result DoublePair :=
  if b.re == 0 && b.im == 0 then .ok one
  else if a.re == 0 && a.im == 0 then
    if b.im != 0 || b.re < 0 then .error .zeroDivision else .ok ⟨0, 0⟩
  else
    let angle := Float.atan2 a.im a.re
    let length := Float.pow a.size b.re
    let phase := angle * b.re
    let (length, phase) :=
      if b.im != 0 then
        (length * Float.exp (-angle * b.im), phase + b.im * Float.log a.size)
      else (length, phase)
    -- an infinite angle is told as a division by zero too
    if phase.isInf then .error .zeroDivision
    else .ok ⟨length * Float.cos phase, length * Float.sin phase⟩

def power (a b : DoublePair) : Result DoublePair := do
  let z ←
    if b.im == 0 && isWhole b.re && Scalar.abs b.re ≤ 100 then
      powerWhole a (Scalar.truncInt b.re)
    else powerPolar a b
  if z.re.isInf || z.im.isInf then throw .overflow
  return z

end DoublePair

namespace Quantity

/-! ### Integers -/

/-- The double nearest to a quotient of integers. -/
def divideInt (i j : Int) : Result Float :=
  if j = 0 then .error .zeroDivision
  else
    let q := nearestDouble i.natAbs j.natAbs
    if q.isInf then .error .overflow
    else .ok (if (i < 0) != (j < 0) then -q else q)

/-! ### Operations -/

/-- What an operation does with numbers of each kind. -/
structure Arithmetic where
  onInt : Int → Int → Result Quantity
  onReal : Float → Float → Result Quantity
  onComplex : Result (DoublePair → DoublePair → Result Quantity)

def toComplex : Quantity → Result DoublePair
  | int i => return ⟨← realOfInt i, 0⟩
  | real x => .ok ⟨x, 0⟩
  | complex z => .ok z

/-- An operation on numbers of two kinds is one on the wider kind. -/
def Arithmetic.apply (f : Arithmetic) : Quantity → Quantity → Result Quantity
  | int i, int j => f.onInt i j
  | int i, real y => do f.onReal (← realOfInt i) y
  | real x, int j => do f.onReal x (← realOfInt j)
  | real x, real y => f.onReal x y
  | a, b => do (← f.onComplex) (← a.toComplex) (← b.toComplex)

/-- Without failures. -/
def always {β γ : Type} (kind : γ → Quantity) (f : β → β → γ) (x y : β) : Result Quantity :=
  .ok (kind (f x y))

def orFail {β γ : Type} (kind : γ → Quantity) (f : β → β → Result γ) (x y : β) : Result Quantity :=
  (f x y).map kind

/-- Without failures on any kind of numbers. -/
def Arithmetic.total (onInt : Int → Int → Int) (onReal : Float → Float → Float)
    (onComplex : DoublePair → DoublePair → DoublePair) : Arithmetic :=
  ⟨always int onInt, always real onReal, .ok (always complex onComplex)⟩

def power (x y : Float) : Result Quantity :=
  if x < 0 ∧ Scalar.isFinite x ∧ Scalar.isFinite y ∧ !isWhole y then
    orFail complex DoublePair.power ⟨x, 0⟩ ⟨y, 0⟩
  else orFail real powerReal x y

def powerInt (i j : Int) : Result Quantity := do
  if 0 ≤ j then return int (Int.pow i j.toNat)
  power (← realOfInt i) (← realOfInt j)

def unlessZero (f : Int → Int → Int) (i j : Int) : Result Int :=
  if j = 0 then .error .zeroDivision else .ok (f i j)

/-- Nothing for operators that are not for numbers. -/
def operation? : Operator → Option Arithmetic
  | .add => some (.total (· + ·) (· + ·) DoublePair.add)
  | .subtract => some (.total (· - ·) (· - ·) DoublePair.sub)
  | .multiply => some (.total (· * ·) (· * ·) DoublePair.mul)
  | .divide => some ⟨orFail real divideInt, orFail real divideReal, .ok (orFail complex DoublePair.divide)⟩
  | .floorDivide =>
    some ⟨orFail int (unlessZero Int.fdiv), orFail real floorDivReal, .error .notReal⟩
  | .modulo => some ⟨orFail int (unlessZero Int.fmod), orFail real modReal, .error .notReal⟩
  | .power => some ⟨powerInt, power, .ok (orFail complex DoublePair.power)⟩
  | .other => none

def signed? : Sign → Option (Quantity → Quantity)
  | .plus => some id
  | .minus => some fun
    | int i => int (-i)
    | real x => real (-x)
    | complex z => complex z.neg
  | .other => none

end Quantity

/-! ### Formulas -/

/-- What names stand for. -/
abbrev Names := List (Value Float × Value Float)

def Quantity.toValue : Quantity → Value Float
  | int i => .int i
  | real x => .real x
  | complex z => .complex z.re z.im

namespace Formula

def valueOf (names : Names) (s : String) : Except FormulaError Quantity :=
  match Value.find? s names with
  | none => .error (.unknownName s)
  | some (.int i) => .ok (.int i)
  | some (.real x) => .ok (.real x)
  | some v => .error (.notNumeric s v.shown)

/-- Operators are looked at before operands, and the left operand before the right
one. -/
def evaluate (names : Names) : Formula → Except FormulaError Quantity
  | int n => .ok (.int n)
  | real x => .ok (.real x)
  | constant => .error .constant
  | name s => valueOf names s
  | unary s f =>
    match Quantity.signed? s with
    | none => .error .sign
    | some apply => (f.evaluate names).map apply
  | binary op l r =>
    match Quantity.operation? op with
    | none => .error .operator
    | some f => do
      let a ← l.evaluate names
      let b ← r.evaluate names
      (f.apply a b).mapError .arithmetic
  | other _ => .error .form

/-- The value of a text. -/
def compute (names : Names) (s : String) : Except FormulaError Quantity :=
  match read s with
  | .ok f => f.evaluate names
  | .error e => .error (.malformed e)

end Formula

end MixedInteger
