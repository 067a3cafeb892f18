/-! Doubles as exact numbers. A finite double is a sign, a significand and a
power of two; in the other direction a quotient of naturals is rounded to the
nearest double, a tie going to the even significand. A double is written with the
fewest digits that read back: of the decimals between the two midpoints around it,
those with the fewest digits are kept, and of these the one nearest to it. -/

namespace MixedInteger

/-! ### Exact numbers -/

def twoTo (n : Nat) : Nat := Nat.pow 2 n
def tenTo (n : Nat) : Nat := Nat.pow 10 n

/-- The nearest natural to `n / d`, a half going to the even neighbour. -/
def roundQuotient (n d : Nat) : Nat :=
  let q := n / d
  let r := n % d
  if 2 * r < d ∨ (2 * r = d ∧ q % 2 = 0) then q else q + 1

/-- The number `± significand * 2 ^ exponent`. -/
structure BinaryForm where
  negative : Bool
  significand : Nat
  exponent : Int
deriving DecidableEq, Repr

namespace BinaryForm

/-- Infinities and not-a-number have no binary form. -/
def ofFloat? (x : Float) : Option BinaryForm :=
  let bits : Nat := x.toBits.toNat
  let negative := bits / twoTo 63 == 1
  let field : Nat := bits / twoTo 52 % 2048
  let fraction : Nat := bits % twoTo 52
  if field = 2047 then none
  else if field = 0 then some ⟨negative, fraction, -1074⟩
  else some ⟨negative, fraction + twoTo 52, (field : Int) - 1075⟩

/-- The magnitude is `numerator / denominator`. -/
def numerator (b : BinaryForm) : Nat := b.significand * twoTo b.exponent.toNat

def denominator (b : BinaryForm) : Nat := twoTo (-b.exponent).toNat

/-- The exact value. -/
def toRat (b : BinaryForm) : Rat :=
  let r := mkRat b.numerator b.denominator
  if b.negative then -r else r

/-- The greatest integer that is not above the value. -/
def floor (b : BinaryForm) : Int :=
  let n : Int := b.numerator
  let n := if b.negative then -n else n
  n / b.denominator

end BinaryForm

/-- The double with significand `q < 2 ^ 53` and exponent `e ≥ -1074`, or
infinity above the largest one. -/
def packDouble (q : Nat) (e : Int) : Float :=
  if q < twoTo 52 then Float.ofBits (UInt64.ofNat q)
  else if e > 971 then Float.ofBits (UInt64.ofNat (2047 * twoTo 52))
  else Float.ofBits (UInt64.ofNat ((e + 1075).toNat * twoTo 52 + (q - twoTo 52)))

/-- The double nearest to `n / d`, ties to the even significand. -/
def nearestDouble (n d : Nat) : Float :=
  if n = 0 then Float.ofBits 0
  else
    let guess : Int := (n.log2 : Int) - d.log2 - 52
    let low := n * twoTo (-guess).toNat < d * twoTo 52 * twoTo guess.toNat
    let e := max (if low then guess - 1 else guess) (-1074)
    let q := roundQuotient (n * twoTo (-e).toNat) (d * twoTo e.toNat)
    if q = twoTo 53 then packDouble (twoTo 52) (e + 1) else packDouble q e

/-- The double nearest to a rational. -/
def doubleOfRat (r : Rat) : Float :=
  let x := nearestDouble r.num.natAbs r.den
  if r.num < 0 then -x else x

/-- The double nearest to an integer; nothing when it would be infinite. -/
def doubleOfInt? (i : Int) : Option Float :=
  let x := nearestDouble i.natAbs 1
  if x.isInf then none else some (if i < 0 then -x else x)

/-- The double nearest to `m * 10 ^ e`; powers far outside the range of doubles
are not multiplied out. -/
def doubleOfDecimal (m : Nat) (e : Int) : Float :=
  let size : Int := (m.log2 : Int) * 30103 / 100000 + e
  if m = 0 ∨ size < -400 then Float.ofBits 0
  else if size > 400 then Float.ofBits (UInt64.ofNat (2047 * twoTo 52))
  else nearestDouble (m * tenTo e.toNat) (tenTo (-e).toNat)

/-! ### The fewest digits -/

namespace Decimal

/-- The number `mantissa * 10 ^ exponent`. -/
structure Digits where
  mantissa : Nat
  exponent : Int
deriving DecidableEq, Repr

namespace Digits

/-- Trailing zeros move into the exponent; `fuel` bounds their number. -/
def trimmed (fuel : Nat) (d : Digits) : Digits :=
  match fuel with
  | 0 => d
  | fuel + 1 =>
    if d.mantissa = 0 then ⟨0, 0⟩
    else if d.mantissa % 10 = 0 then trimmed fuel ⟨d.mantissa / 10, d.exponent + 1⟩
    else d

def figures (d : Digits) : List Char := Nat.toDigits 10 d.mantissa

/-- The exponent of the leading digit. -/
def leading (d : Digits) : Int := d.exponent + d.figures.length - 1

end Digits

/-- The greatest `p` with `10 ^ p ≤ n / d`, for positive `n` and `d`. -/
def leadingExponent (n d : Nat) : Int :=
  let guess : Int := ((n.log2 : Int) - d.log2) * 30103 / 100000
  let fits (p : Int) : Bool := d * tenTo p.toNat ≤ n * tenTo (-p).toNat
  ([guess + 2, guess + 1, guess, guess - 1].find? fits).getD (guess - 2)

/-- The interval of reals that round to a positive double, with both ends over
one denominator; the ends belong to it when the significand is even. -/
structure RoundingInterval where
  low : Nat
  value : Nat
  high : Nat
  denominator : Nat
  closed : Bool

/-- Below a power of two the spacing halves, except at the bottom of the range. -/
def RoundingInterval.ofForm (b : BinaryForm) : RoundingInterval :=
  let m := b.significand
  let unit := twoTo b.exponent.toNat
  let below := if m = twoTo 52 ∧ b.exponent > -1074 then 1 else 2
  { low := (4 * m - below) * unit
    value := 4 * m * unit
    high := (4 * m + 2) * unit
    denominator := 4 * twoTo (-b.exponent).toNat
    closed := m % 2 == 0 }

namespace RoundingInterval

/-- Is `c * 10 ^ p` inside? -/
def contains (r : RoundingInterval) (c : Nat) (p : Int) : Bool :=
  let x := c * tenTo p.toNat * r.denominator
  let scale := tenTo (-p).toNat
  if r.closed then r.low * scale ≤ x && x ≤ r.high * scale
  else r.low * scale < x && x < r.high * scale

/-- The neighbour of the value on the grid of multiples of `10 ^ p` that reads
back; of two the nearer, and the even one on a tie. -/
def onGrid (r : RoundingInterval) (p : Int) : Option Digits :=
  let n := r.value * tenTo (-p).toNat
  let d := r.denominator * tenTo p.toNat
  let c := n / d
  match r.contains c p, r.contains (c + 1) p with
  | false, false => none
  | true, false => some ⟨c, p⟩
  | false, true => some ⟨c + 1, p⟩
  | true, true => some ⟨roundQuotient n d, p⟩

/-- The grids from coarse to fine; seventeen digits always suffice. -/
def shortest (r : RoundingInterval) : Digits :=
  let top := leadingExponent r.value r.denominator
  let grids := (List.range 17).map fun (k : Nat) => top - (k : Int)
  ((grids.findSome? r.onGrid).getD ⟨0, 0⟩).trimmed 20

end RoundingInterval

/-- The shortest digits of a magnitude. -/
def shortest (b : BinaryForm) : Digits :=
  if b.significand = 0 then ⟨0, 0⟩ else (RoundingInterval.ofForm b).shortest

/-- The magnitude rounded to `count` significant digits, ties to even. -/
def significant (count : Nat) (b : BinaryForm) : Digits :=
  if b.significand = 0 then ⟨0, 0⟩
  else
    let p := leadingExponent b.numerator b.denominator - count + 1
    ⟨roundQuotient (b.numerator * tenTo (-p).toNat) (b.denominator * tenTo p.toNat), p⟩

/-- The magnitude in units of `10 ^ -places`, ties to even. -/
def atPlaces (places : Nat) (b : BinaryForm) : Nat :=
  roundQuotient (b.numerator * tenTo places) b.denominator

end Decimal

end MixedInteger
