import MixedInteger.Number.Scalar
import MixedInteger.Text.Quoted
import MixedInteger.Text.Numeral

/-! Untyped data: what a document or a parameter holds before it is given a
meaning. Integers and real numbers are told apart, and a mapping keeps the order
of its entries. -/

namespace MixedInteger

inductive Value (α : Type) where
  | null
  | bool (b : Bool)
  | int (i : Int)
  | real (x : α)
  | complex (re im : α)
  | text (s : String)
  | list (items : List (Value α))
  | map (entries : List (Value α × Value α))
  /-- A date or time, known by its text. -/
  | moment (s : String)

/-- Why data is not the number that is asked for. -/
inductive ConversionError where
  /-- Text that is no number, or a value that is not a number. -/
  | invalid
  /-- Data of a kind that is never a number. -/
  | kind
  /-- A number out of range. -/
  | overflow
deriving DecidableEq, Repr

namespace Value

variable {α : Type} [Scalar α]

instance : Inhabited (Value α) := ⟨.null⟩

/-- Null, false, zero and everything empty count as false. -/
def truthy : Value α → Bool
  | null => false
  | bool b => b
  | int i => i != 0
  | real x => !(x == 0)
  | complex re im => !(re == 0 && im == 0)
  | text s => !s.isEmpty
  | list items => !items.isEmpty
  | map entries => !entries.isEmpty
  | moment _ => true

/-- Items between commas. -/
def commaList (xs : List String) : String := String.intercalate ", " xs

/-- A part of a complex number; a whole one has no point. -/
def partText (x : α) : String :=
  match (Scalar.text x).toList.reverse with
  | '0' :: '.' :: whole => String.ofList whole.reverse
  | _ => Scalar.text x

/-- Without brackets when there is no real part. -/
def complexText (re im : α) : String :=
  let imaginary := partText im ++ "j"
  if Scalar.text re == "0.0" then imaginary
  else
    let plus := if imaginary.toList.head? = some '-' then "" else "+"
    "(" ++ partText re ++ plus ++ imaginary ++ ")"

mutual
/-- The written form: text is quoted, nesting is shown by brackets. -/
def written : Value α → String
  | null => "None"
  | bool b => if b then "True" else "False"
  | int i => toString i
  | real x => Scalar.text x
  | complex re im => complexText re im
  | text s => Text.quoted s
  | list items => "[" ++ commaList (writtenItems items) ++ "]"
  | map entries => "\x7b" ++ commaList (writtenEntries entries) ++ "\x7d"
  | moment s => s

def writtenItems : List (Value α) → List String
  | [] => []
  | v :: vs => written v :: writtenItems vs

def writtenEntries : List (Value α × Value α) → List String
  | [] => []
  | (k, v) :: es => (written k ++ ": " ++ written v) :: writtenEntries es
end

/-- As `written`, but text on its own stands without quotes. -/
def shown : Value α → String
  | text s => s
  | v => v.written

/-- The first entry under a text key. -/
def find? (key : String) (entries : List (Value α × Value α)) : Option (Value α) :=
  (entries.find? fun e => match e.1 with | text s => s == key | _ => false).map (·.2)

/-- The integer a value stands for; a real number loses its fraction. -/
def toInt : Value α → Except ConversionError Int
  | int i => .ok i
  | bool b => .ok (if b then 1 else 0)
  | real x =>
    if Scalar.isNaN x then .error .invalid
    else if Scalar.isInf x then .error .overflow
    else .ok (Scalar.truncInt x)
  | text s => match Text.readInt? s with
    | some i => .ok i
    | none => .error .invalid
  | _ => .error .kind

def ofNumeral : Text.Numeral → α
  | .decimal negative m e =>
    let x := Scalar.ofDecimal m e
    if negative then -x else x
  | .infinite negative => if negative then -Scalar.infinity else Scalar.infinity
  | .notANumber => Scalar.nan

/-- The real number a value stands for. -/
def toReal : Value α → Except ConversionError α
  | int i => match Scalar.ofInt? i with
    | some x => .ok x
    | none => .error .overflow
  | bool b => .ok (if b then 1 else 0)
  | real x => .ok x
  | text s => match Text.readNumeral? s with
    | some n => .ok (ofNumeral n)
    | none => .error .invalid
  | _ => .error .kind

/-- Name of the data's kind, as messages give it. -/
def kindName : Value α → String
  | null => "NoneType"
  | bool _ => "bool"
  | int _ => "int"
  | real _ => "float"
  | complex .. => "complex"
  | text _ => "str"
  | list _ => "list"
  | map _ => "dict"
  | moment _ => "date"

end Value

/-! ### Parts

What is not there reads as null, as an empty list or as zero, so that a reader states its own
defaults. -/

namespace Value

variable {α : Type} [Scalar α]

def field? (v : Value α) (key : String) : Option (Value α) :=
  match v with
  | map entries => find? key entries
  | _ => none

def field (v : Value α) (key : String) : Value α := (v.field? key).getD null

/-- The field, or a default where there is none. -/
def fieldOr (v : Value α) (key : String) (default : Value α) : Value α :=
  (v.field? key).getD default

def items : Value α → List (Value α)
  | list xs => xs
  | _ => []

/-- The entry at a position. -/
def item (v : Value α) (i : Nat) : Value α := v.items.getD i null

/-- The entries of a mapping with their keys as text. -/
def members : Value α → List (String × Value α)
  | map entries => entries.map fun e => (e.1.shown, e.2)
  | _ => []

def asText : Value α → String
  | text s => s
  | _ => ""

def asInt (v : Value α) : Int :=
  match v.toInt with
  | .ok i => i
  | .error _ => 0

/-- Numbers may be given as integers or by the names of the infinities. -/
def asReal (v : Value α) : α :=
  match v.toReal with
  | .ok x => x
  | .error _ => Scalar.nan

def asInts (v : Value α) : List Int := v.items.map asInt

def asReals (v : Value α) : List α := v.items.map asReal

/-! ### Building -/

def record (entries : List (String × Value α)) : Value α :=
  map (entries.map fun e => (text e.1, e.2))

def nat (n : Nat) : Value α := int n

def reals (xs : List α) : Value α := list (xs.map real)

def texts (xs : List String) : Value α := list (xs.map text)

def ofOption (v : Option (Value α)) : Value α := v.getD null

end Value

end MixedInteger
