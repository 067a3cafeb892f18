import MixedInteger.Text.Ranges

/-! Blanks, decimal digits of every script, and numbers written as text. Blanks around the number
and single underscores between digits are allowed. -/

namespace MixedInteger.Text

/-! ### Blanks and digits -/

def blanks : Ranges := Ranges.ofText
  "9-d 1c-20 85 a0 1680 2000-200a 2028-2029 202f 205f 3000"

def isBlank (c : Char) : Bool := blanks.contains c

/-- Without blanks on either side. -/
def strip (cs : List Char) : List Char :=
  ((cs.dropWhile isBlank).reverse.dropWhile isBlank).reverse

def stripText (s : String) : String := String.ofList (strip s.toList)

/-- The zero of each block of ten decimal digits. -/
def zeroDigits : Ranges := Ranges.ofText
  "30 660 6f0 7c0 966 9e6 a66 ae6 b66 be6 c66 ce6 d66 de6 e50 ed0 f20 1040 1090 17e0 1810 1946
19d0 1a80 1a90 1b50 1bb0 1c40 1c50 a620 a8d0 a900 a9d0 a9f0 aa50 abf0 ff10 104a0 10d30 11066
110f0 11136 111d0 112f0 11450 114d0 11650 116c0 11730 118e0 11950 11c50 11d50 11da0 16a60
16ac0 16b50 1d7ce 1d7d8 1d7e2 1d7ec 1d7f6 1e140 1e2f0 1e950 1fbf0"

def decimalDigit (c : Char) : Option Nat :=
  let block := zeroDigits.find? fun r => r.first ≤ c.toNat && c.toNat < r.first + 10
  block.map fun r => c.toNat - r.first

/-! ### Numerals -/

/-- What a number may be read as before it is rounded. -/
inductive Numeral where
  | decimal (negative : Bool) (mantissa : Nat) (exponent : Int)
  | infinite (negative : Bool)
  | notANumber
deriving Repr

/-- Digits with single underscores between them, and what follows; `inside` tells
that a digit came just before. -/
def digitsFrom (inside : Bool) : List Char → List Nat × List Char
  | [] => ([], [])
  | c :: cs =>
    match decimalDigit c with
    | some d =>
      let (ds, rest) := digitsFrom true cs
      (d :: ds, rest)
    | none =>
      if inside && c == '_' && (cs.head?.bind decimalDigit).isSome then digitsFrom false cs
      else ([], c :: cs)

def digitRun (cs : List Char) : List Nat × List Char := digitsFrom false cs

def digitsValue (ds : List Nat) : Nat := ds.foldl (fun n d => 10 * n + d) 0

/-- A leading sign; `true` for minus. -/
def signed : List Char → Bool × List Char
  | '-' :: cs => (true, cs)
  | '+' :: cs => (false, cs)
  | cs => (false, cs)

/-- Longer numbers are refused. -/
def maxDigits : Nat := 4300

def readInt? (s : String) : Option Int :=
  let (negative, cs) := signed (strip s.toList)
  match digitRun cs with
  | ([], _) => none
  | (ds, []) =>
    if ds.length > maxDigits then none
    else
      let n : Int := digitsValue ds
      some (if negative then -n else n)
  | _ => none

/-- The exponent part, if the text is one or is empty. -/
def exponentPart? : List Char → Option Int
  | [] => some 0
  | c :: cs =>
    if c = 'e' ∨ c = 'E' then
      let (negative, cs) := signed cs
      match digitRun cs with
      | ([], _) => none
      | (ds, []) =>
        let n : Int := digitsValue ds
        some (if negative then -n else n)
      | _ => none
    else none

/-- Digits with a point somewhere and an exponent. -/
def decimalPart? (negative : Bool) (cs : List Char) : Option Numeral :=
  let (whole, after) := digitRun cs
  let (fraction, after) :=
    match after with
    | '.' :: rest => digitRun rest
    | _ => ([], after)
  if whole.isEmpty && fraction.isEmpty then none
  else (exponentPart? after).map fun e =>
    .decimal negative (digitsValue (whole ++ fraction)) (e - fraction.length)

def readNumeral? (s : String) : Option Numeral :=
  let (negative, cs) := signed (strip s.toList)
  match String.ofList (cs.map Char.toLower) with
  | "inf" | "infinity" => some (.infinite negative)
  | "nan" => some .notANumber
  | _ => decimalPart? negative cs

end MixedInteger.Text
