import MixedInteger.Decimal.Shortest
import MixedInteger.Number.Scalar

/-! Doubles as numbers of a problem. Arithmetic and comparison are the machine's;
rounding to integers and text go through the exact binary form. How numbers are
written is a layout: it says which exponents are written without an exponent mark
and whether a whole number keeps its point. -/

namespace MixedInteger

/-! ### Layouts -/

namespace Decimal

structure Layout where
  /-- The smallest exponent of the leading digit that is written positionally. -/
  low : Int := -4
  /-- The first exponent that is written with a mark again. -/
  high : Int
  /-- A whole number ends in `.0`. -/
  keepPoint : Bool
deriving DecidableEq, Repr

def zeros (n : Nat) : List Char := List.replicate n '0'

/-- A sign and at least two digits. -/
def exponentMark (e : Int) : List Char :=
  let digits := Nat.toDigits 10 e.natAbs
  let sign := if e < 0 then '-' else '+'
  'e' :: sign :: (zeros (2 - digits.length) ++ digits)

/-- Digits with the point after `whole` of them, padded on either side. -/
def positional (layout : Layout) (digits : List Char) (leading : Int) : List Char :=
  if leading < 0 then '0' :: '.' :: (zeros (-leading - 1).toNat ++ digits)
  else
    let whole := leading.toNat + 1
    let front := digits.take whole
    let front := front ++ zeros (whole - front.length)
    match digits.drop whole with
    | [] => if layout.keepPoint then front ++ ['.', '0'] else front
    | rest => front ++ '.' :: rest

def Layout.write (layout : Layout) (d : Digits) : List Char :=
  let digits := d.figures
  let leading := d.leading
  if layout.low ≤ leading ∧ leading < layout.high then positional layout digits leading
  else match digits with
    | first :: second :: rest => first :: '.' :: second :: rest ++ exponentMark leading
    | _ => digits ++ exponentMark leading

/-- A double with the digits chosen by `choose`. -/
def writeDouble (layout : Layout) (choose : BinaryForm → Digits) (x : Float) : String :=
  match BinaryForm.ofFloat? x with
  | none => if x.isNaN then "nan" else if x < 0 then "-inf" else "inf"
  | some b =>
    let body := layout.write ((choose b).trimmed 400)
    String.ofList (if b.negative then '-' :: body else body)

/-- The shortest digits, positional for exponents from -4 to 15. -/
def shortText (x : Float) : String := writeDouble ⟨-4, 16, true⟩ shortest x

/-- At most `count` significant digits, without trailing zeros. -/
def generalText (count : Nat) (x : Float) : String :=
  match BinaryForm.ofFloat? x with
  | none => shortText x
  | some b =>
    let d := significant count b
    let layout : Layout := ⟨-4, count, false⟩
    let body := layout.write (d.trimmed 400)
    String.ofList (if b.negative then '-' :: body else body)

/-- All of `places` decimals. -/
def fixedText (places : Nat) (x : Float) : String :=
  match BinaryForm.ofFloat? x with
  | none => shortText x
  | some b =>
    let digits := Nat.toDigits 10 (atPlaces places b)
    let digits := zeros (places + 1 - digits.length) ++ digits
    let whole := digits.length - places
    let body := digits.take whole ++ (if places = 0 then [] else '.' :: digits.drop whole)
    String.ofList (if b.negative then '-' :: body else body)

/-- One digit, `places` decimals and an exponent. -/
def scientificText (places : Nat) (x : Float) : String :=
  match BinaryForm.ofFloat? x with
  | none => shortText x
  | some b =>
    let d := significant (places + 1) b
    let digits := if d.mantissa = 0 then zeros (places + 1) else d.figures
    let leading := if d.mantissa = 0 then 0 else d.leading
    let digits := digits.take (places + 1)
    let body := digits.take 1 ++ '.' :: digits.drop 1 ++ exponentMark leading
    String.ofList (if b.negative then '-' :: body else body)

/-- Blanks in front up to `width`. -/
def padLeft (width : Nat) (s : String) : String :=
  String.ofList (List.replicate (width - s.length) ' ') ++ s

/-- The double nearest to the value rounded to `places` decimals, ties to even. -/
def roundPlaces (places : Nat) (x : Float) : Float :=
  match BinaryForm.ofFloat? x with
  | none => x
  | some b =>
    let y := nearestDouble (atPlaces places b) (tenTo places)
    if b.negative then -y else y

end Decimal

/-! ### Doubles -/

instance : Scalar Float where
  decidableLT := inferInstance
  decidableLE := inferInstance
  isNaN x := x.isNaN
  isInf x := x.isInf
  infinity := Float.ofBits (UInt64.ofNat (2047 * twoTo 52))
  nan := Float.ofBits (UInt64.ofNat (4095 * twoTo 51))
  largest := packDouble (twoTo 53 - 1) 971
  epsilon := packDouble (twoTo 52) (-104)
  floorInt x := ((BinaryForm.ofFloat? x).map BinaryForm.floor).getD 0
  ofInt? := doubleOfInt?
  ofDecimal := doubleOfDecimal
  text := Decimal.shortText

end MixedInteger
