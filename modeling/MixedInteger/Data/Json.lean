import MixedInteger.Data.Value
import MixedInteger.Number.Double

/-! Data as JSON. A number with a point or an exponent is real and any other one an
integer; the entries of an object keep their order, and the last one of a key
counts. Numbers that are not finite are written as text. -/

namespace MixedInteger.Json

abbrev Data := Value Float

/-! ### Reading

What a reader takes is removed from the characters; `fuel` bounds the nesting and
the length of lists. -/

/-- Four hexadecimal digits. -/
def unit? : List Char → Option (Nat × List Char)
  | a :: b :: c :: d :: rest => do
    let ds ← [a, b, c, d].mapM Text.hexDigit
    return (ds.foldl (fun n d => 16 * n + d) 0, rest)
  | _ => none

def replacement : Char := Char.ofNat 0xFFFD

/-- A character by its code, or by two codes for the higher planes. -/
def coded? (cs : List Char) : Option (Char × List Char) := do
  let (high, rest) ← unit? cs
  if 0xD800 ≤ high ∧ high < 0xDC00 then
    match rest with
    | '\\' :: 'u' :: more =>
      let (low, after) ← unit? more
      if 0xDC00 ≤ low ∧ low < 0xE000 then
        return (Char.ofNat (0x10000 + (high - 0xD800) * 1024 + (low - 0xDC00)), after)
      else return (replacement, rest)
    | _ => return (replacement, rest)
  else if 0xDC00 ≤ high ∧ high < 0xE000 then return (replacement, rest)
  else return (Char.ofNat high, rest)

def escape (c : Char) : Char :=
  match c with
  | 'n' => '\n'
  | 't' => '\t'
  | 'r' => '\r'
  | 'b' => Char.ofNat 8
  | 'f' => Char.ofNat 12
  | c => c

/-- Text up to the closing quote; `acc` holds what was read, in reverse. -/
def text? (fuel : Nat) (acc : List Char) (cs : List Char) : Option (String × List Char) :=
  match fuel with
  | 0 => none
  | fuel + 1 =>
    match cs with
    | '"' :: rest => some (String.ofList acc.reverse, rest)
    | '\\' :: 'u' :: rest =>
      match coded? rest with
      | some (c, rest) => text? fuel (c :: acc) rest
      | none => none
    | '\\' :: c :: rest => text? fuel (escape c :: acc) rest
    | c :: rest => text? fuel (c :: acc) rest
    | [] => none

def skipBlanks (cs : List Char) : List Char :=
  cs.dropWhile fun c => c = ' ' ∨ c = '\t' ∨ c = '\n' ∨ c = '\r'

def isNumberChar (c : Char) : Bool :=
  c.isDigit || c = '-' || c = '+' || c = '.' || c = 'e' || c = 'E'

def number? (cs : List Char) : Option (Data × List Char) := do
  let word := cs.takeWhile isNumberChar
  let rest := cs.dropWhile isNumberChar
  if word.any fun c => c = '.' ∨ c = 'e' ∨ c = 'E' then
    let n ← Text.readNumeral? (String.ofList word)
    return (.real (Value.ofNumeral n), rest)
  else
    let (negative, ds) := Text.signed word
    if ds.isEmpty then none
    else
      let n : Int := Text.digitsValue (ds.map fun c => c.toNat - 48)
      return (.int (if negative then -n else n), rest)

/-- Constants by their names. -/
def words : List (String × Data) := [
  ("true", .bool true), ("false", .bool false), ("null", .null), ("NaN", .real Scalar.nan),
  ("Infinity", .real Scalar.infinity), ("-Infinity", .real (-Scalar.infinity))]

def word? (cs : List Char) : Option (Data × List Char) :=
  (words.find? fun w => w.1.toList.isPrefixOf cs).map fun w => (w.2, cs.drop w.1.length)

/-- Sets a key, which keeps its place when it is there. -/
def setKey (k : String) (v : Data) (acc : List (Data × Data)) : List (Data × Data) :=
  if acc.any fun e => e.1.asText == k then
    acc.map fun e => if e.1.asText == k then (e.1, v) else e
  else (.text k, v) :: acc

def openBrace : Char := Char.ofNat 123
def closeBrace : Char := Char.ofNat 125

mutual
def value? (fuel : Nat) (cs : List Char) : Option (Data × List Char) :=
  match fuel with
  | 0 => none
  | fuel + 1 =>
    match skipBlanks cs with
    | [] => none
    | c :: rest =>
      if c = '"' then (text? (rest.length + 1) [] rest).map fun r => (.text r.1, r.2)
      else if c = '[' then
        match skipBlanks rest with
        | ']' :: rest => some (.list [], rest)
        | rest => items? fuel [] rest
      else if c = openBrace then entries? fuel [] rest
      else (word? (c :: rest)).or (number? (c :: rest))

def items? (fuel : Nat) (acc : List Data) (cs : List Char) : Option (Data × List Char) :=
  match fuel with
  | 0 => none
  | fuel + 1 =>
    match value? fuel cs with
    | none => none
    | some (v, rest) =>
      match skipBlanks rest with
      | ',' :: rest => items? fuel (v :: acc) rest
      | ']' :: rest => some (.list (v :: acc).reverse, rest)
      | _ => none

def entries? (fuel : Nat) (acc : List (Data × Data)) (cs : List Char) :
    Option (Data × List Char) :=
  match fuel with
  | 0 => none
  | fuel + 1 =>
    match skipBlanks cs with
    | '"' :: rest =>
      match text? (rest.length + 1) [] rest with
      | none => none
      | some (k, rest) =>
        match skipBlanks rest with
        | ':' :: rest =>
          match value? fuel rest with
          | none => none
          | some (v, rest) =>
            match skipBlanks rest with
            | ',' :: rest => entries? fuel (setKey k v acc) rest
            | c :: rest =>
              if c = closeBrace then some (.map (setKey k v acc).reverse, rest) else none
            | [] => none
        | _ => none
    | c :: rest => if c = closeBrace then some (.map acc.reverse, rest) else none
    | [] => none
end

def read? (s : String) : Option Data := (value? (s.length + 1) s.toList).map (·.1)

/-! ### Writing -/

def writeChar (c : Char) : String :=
  if c = '"' then "\\\""
  else if c = '\\' then "\\\\"
  else if c = '\n' then "\\n"
  else if c = '\t' then "\\t"
  else if c = '\r' then "\\r"
  else if c.toNat < 32 ∨ c.toNat = 127 then "\\u" ++ String.ofList (Text.hexFigures 4 c.toNat)
  else String.singleton c

def writeText (s : String) : String :=
  "\"" ++ s.toList.foldl (fun acc c => acc ++ writeChar c) "" ++ "\""

/-- Zero has no sign. -/
def writeReal (x : Float) : String :=
  if Scalar.isFinite x then if x == 0 then "0.0" else Scalar.text x
  else writeText (Scalar.text x)

mutual
def write : Data → String
  | .null => "null"
  | .bool b => if b then "true" else "false"
  | .int i => toString i
  | .real x => writeReal x
  | .complex re im => writeText (Value.complexText re im)
  | .text s => writeText s
  | .moment s => writeText s
  | .list items => "[" ++ ",".intercalate (writeItems items) ++ "]"
  | .map entries => "\x7b" ++ ",".intercalate (writeEntries entries) ++ "\x7d"

def writeItems : List Data → List String
  | [] => []
  | v :: vs => write v :: writeItems vs

def writeEntries : List (Data × Data) → List String
  | [] => []
  | (k, v) :: es => (writeText k.shown ++ ":" ++ write v) :: writeEntries es
end

end MixedInteger.Json
