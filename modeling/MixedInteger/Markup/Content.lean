import MixedInteger.Data.Mapping
import MixedInteger.Markup.Node
import MixedInteger.Text.Case
import MixedInteger.Text.Ranges

/-! The data that a document stands for. A later entry under a key replaces an earlier
one; the entries of a merged mapping come before those of the mapping itself. -/

namespace MixedInteger.Markup

/-! ### Numbers -/

def digitOf? (base : Nat) (c : Char) : Option Nat :=
  if isHex c then
    let d := Text.hexNat [c]
    if d < base then some d else none
  else none

/-- Digits of a base, of which there is at least one. -/
def readBase? (base : Nat) (cs : List Char) : Option Nat :=
  if cs.isEmpty then none
  else cs.foldlM (fun n c => (digitOf? base c).map (base * n + ·)) 0

/-- Without low lines; the sign apart. -/
def signedText (text : String) : Bool × List Char :=
  let cs := text.toList.filter (· ≠ '_')
  (cs.head? = some '-', dropSign cs)

def orNumber {β : Type} : Option β → Except MarkupError β
  | some x => .ok x
  | none => .error .number

/-- A number with parts of base sixty. -/
def sixties {β : Type} [Add β] [Mul β] (ofInt : Int → β) (parts : List β) : β :=
  (parts.reverse.zipIdx.map fun e => e.1 * ofInt (Int.pow 60 e.2)).foldl (· + ·) (ofInt 0)

def readNatural (cs : List Char) : Except MarkupError Int :=
  match cs with
  | [] => .error .empty
  | ['0'] => .ok 0
  | '0' :: 'b' :: ds => (orNumber (readBase? 2 ds)).map (↑·)
  | '0' :: 'x' :: ds => (orNumber (readBase? 16 ds)).map (↑·)
  | '0' :: ds => (orNumber (readBase? 8 ('0' :: ds))).map (↑·)
  | cs => do
    let parts ← (Text.splitOn ':' cs).mapM fun p => orNumber (Text.readInt? (String.ofList p))
    return sixties id parts

def readInteger (text : String) : Except MarkupError Int := do
  let (negative, cs) := signedText text
  let i ← readNatural cs
  return if negative then -i else i

variable {α : Type} [Scalar α]

def readPositive (cs : List Char) : Except MarkupError α :=
  match String.ofList cs with
  | "" => .error .empty
  | ".inf" => .ok Scalar.infinity
  | ".nan" => .ok Scalar.nan
  | _ => do
    let parts ← (Text.splitOn ':' cs).mapM fun p => orNumber (Text.readNumeral? (String.ofList p))
    match parts with
    | [n] => return Value.ofNumeral n
    | ns => return sixties Scalar.ofInt (ns.map Value.ofNumeral)

def readReal (text : String) : Except MarkupError α := do
  let (negative, cs) := signedText (Text.lower text)
  let x ← readPositive cs
  return if negative then -x else x

/-! ### Dates -/

def isLeap (year : Nat) : Bool := year % 4 = 0 && (year % 100 ≠ 0 || year % 400 = 0)

def daysIn (year month : Nat) : Nat :=
  match month with
  | 2 => if isLeap year then 29 else 28
  | 4 | 6 | 9 | 11 => 30
  | _ => 31

/-- A day of the calendar and a time of the day. -/
def Moment.isValid (m : Moment) : Bool :=
  1 ≤ m.year && 1 ≤ m.month && m.month ≤ 12 && 1 ≤ m.day && m.day ≤ daysIn m.year m.month &&
    m.time.all (fun t => t.1 < 24 && t.2.1 < 60 && t.2.2.1 < 60) &&
    m.zone.all (fun z => z.natAbs < 24 * 60)

def padded (width n : Nat) : String :=
  let digits := toString n
  String.ofList (List.replicate (width - digits.length) '0') ++ digits

/-- Six digits of a fraction, unless they are all zero. -/
def fractionText (ds : List Char) : String :=
  let six := (ds ++ List.replicate 6 '0').take 6
  if six.all (· = '0') then "" else "." ++ String.ofList six

def zoneText (z : Int) : String :=
  (if z < 0 then "-" else "+") ++ padded 2 (z.natAbs / 60) ++ ":" ++ padded 2 (z.natAbs % 60)

def Moment.text (m : Moment) : String :=
  let date := padded 4 m.year ++ "-" ++ padded 2 m.month ++ "-" ++ padded 2 m.day
  match m.time with
  | none => date
  | some (hour, minute, second, fraction) =>
    date ++ " " ++ padded 2 hour ++ ":" ++ padded 2 minute ++ ":" ++ padded 2 second ++
      fractionText fraction ++ (m.zone.map zoneText).getD ""

/-! ### Data -/

def truth (text : String) : Except MarkupError Bool :=
  let word := Text.lower text
  if ["yes", "true", "on"].contains word then .ok true
  else if ["no", "false", "off"].contains word then .ok false
  else .error .truth

def moment (text : String) : Except MarkupError (Value α) :=
  match Moment.read? text.toList with
  | none => .error .value
  | some m => if m.isValid then .ok (.moment m.text) else .error .number

def scalarValue (kind : NodeKind) (text : String) : Except MarkupError (Value α) :=
  match kind with
  | .null => .ok .null
  | .bool => (truth text).map .bool
  | .int => (readInteger text).map .int
  | .real => (readReal text).map .real
  | .text => .ok (.text text)
  | .moment => moment text
  | _ => .error .value

/-- A key is no list and no mapping. -/
def asKey (v : Value α) : Except MarkupError (Value α) :=
  if v.isKey then .ok v else .error .value

abbrev Pairs (α : Type) := List (Value α × Value α)

mutual
def Node.toValue : Node → Except MarkupError (Value α)
  | .scalar kind text => scalarValue kind text
  | .sequence kind items => do
    if kind = .sequence then return .list (← valuesOf items) else throw .value
  | .mapping kind entries => do
    if kind = .mapping then
      let (merged, own) ← pairsOf entries
      return .map ((merged ++ own).foldl (fun es e => Value.put e.1 e.2 es) [])
    else throw .value

def Node.valuesOf : List Node → Except MarkupError (List (Value α))
  | [] => .ok []
  | n :: ns => do return (← n.toValue) :: (← valuesOf ns)

/-- Entries of merged mappings, and those of the mapping itself. -/
def Node.pairsOf : List (Node × Node) → Except MarkupError (Pairs α × Pairs α)
  | [] => .ok ([], [])
  | (key, value) :: rest => do
    if key.kind = .merge then
      let found ← value.toMerge
      let (merged, own) ← pairsOf rest
      return (found ++ merged, own)
    else
      let k ← asKey (← key.keyValue)
      let v ← value.toValue
      let (merged, own) ← pairsOf rest
      return (merged, (k, v) :: own)

/-- The mark of a default is just text as a key. -/
def Node.keyValue : Node → Except MarkupError (Value α)
  | .scalar .default text => .ok (.text text)
  | .scalar kind text => scalarValue kind text
  | _ => .error .value

/-- The entries of a mapping that is merged, or of several; the first of them counts
most and comes last. -/
def Node.toMerge : Node → Except MarkupError (Pairs α)
  | .mapping _ entries => do
    let (merged, own) ← pairsOf entries
    return merged ++ own
  | .sequence _ items => mergesOf items
  | .scalar .. => .error .value

def Node.mergesOf : List Node → Except MarkupError (Pairs α)
  | [] => .ok []
  | .mapping _ entries :: ns => do
    let (merged, own) ← pairsOf entries
    return (← mergesOf ns) ++ merged ++ own
  | _ :: _ => .error .value
end

/-- The data of a document; an empty one is null. -/
def read (text : String) : Except MarkupError (Value α) := do
  match ← Node.ofText text with
  | none => return .null
  | some n => n.toValue

end MixedInteger.Markup
