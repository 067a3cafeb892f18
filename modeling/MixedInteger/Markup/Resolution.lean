import MixedInteger.Text.Numeral
import MixedInteger.Text.Ranges

/-! What a plain text of a document means by its looks: a truth value, a number, null,
a date, or just text. Integers may be binary, octal, hexadecimal or of base sixty; a
real number has a point, and an exponent of it has a sign. -/

namespace MixedInteger.Markup

/-- The kind of a node. -/
inductive NodeKind where
  | null
  | bool
  | int
  | real
  | text
  | moment
  /-- As a key: the entries of its value belong to the mapping around it. -/
  | merge
  /-- As a key: just text. -/
  | default
  | sequence
  | mapping
  | other
deriving DecidableEq, Repr

/-- The tags of the kinds all begin like this. -/
def kindPrefix : String := "tag:yaml.org,2002:"

def NodeKind.ofTag (tag : String) : NodeKind :=
  let kinds := [("null", null), ("bool", bool), ("int", int), ("float", real), ("str", text),
    ("timestamp", moment), ("merge", merge), ("value", default), ("seq", sequence),
    ("map", mapping)]
  ((kinds.find? fun e => kindPrefix ++ e.1 == tag).map (·.2)).getD other

/-! ### Numbers -/

def dropSign : List Char → List Char
  | '+' :: cs | '-' :: cs => cs
  | cs => cs

def isDigitOrLine (c : Char) : Bool := c.isDigit || c = '_'

/-- A digit and then digits and low lines. -/
def isDigits : List Char → Bool
  | c :: cs => c.isDigit && cs.all isDigitOrLine
  | [] => false

/-- A part of a number of base sixty behind a colon. -/
def isSixty : List Char → Bool
  | [c] => c.isDigit
  | [c, d] => c.isDigit && c ≤ '5' && d.isDigit
  | _ => false

/-- Two parts or more, all but the first below sixty. -/
def isSexagesimal (cs : List Char) : Bool :=
  match Text.splitOn ':' cs with
  | first :: second :: more => isDigits first && (second :: more).all isSixty
  | _ => false

def isInteger (cs : List Char) : Bool :=
  let cs := dropSign cs
  match cs with
  | '0' :: 'b' :: ds => !ds.isEmpty && ds.all fun d => d = '0' || d = '1' || d = '_'
  | '0' :: 'x' :: ds => !ds.isEmpty && ds.all fun d => isDigitOrLine d ||
      ('a' ≤ d && d ≤ 'f') || ('A' ≤ d && d ≤ 'F')
  | '0' :: ds => ds.all fun d => ('0' ≤ d && d ≤ '7') || d = '_'
  | _ => isDigits cs || isSexagesimal cs

/-- Nothing, or an exponent with a sign. -/
def isExponent : List Char → Bool
  | [] => true
  | e :: s :: d :: ds => (e = 'e' || e = 'E') && (s = '+' || s = '-') && (d :: ds).all Char.isDigit
  | _ => false

/-- What follows the point. -/
def isFraction (cs : List Char) : Bool := isExponent (cs.dropWhile isDigitOrLine)

def isReal (cs : List Char) : Bool :=
  let unsigned := dropSign cs
  let whole := unsigned.takeWhile (· ≠ '.')
  match unsigned.drop whole.length with
  | '.' :: after =>
    if whole.isEmpty then
      ["inf", "Inf", "INF"].contains (String.ofList after) ||
        (unsigned.length = cs.length &&
          (["nan", "NaN", "NAN"].contains (String.ofList after) ||
            (after.head?.any Char.isDigit && isFraction after)))
    else (isDigits whole && isFraction after) ||
      (isSexagesimal whole && after.all isDigitOrLine)
  | _ => false

/-! ### Dates -/

structure Moment where
  year : Nat
  month : Nat
  day : Nat
  /-- Hour, minute, second and the digits of the fraction. -/
  time : Option (Nat × Nat × Nat × List Char) := none
  /-- Minutes ahead of the common time. -/
  zone : Option Int := none

/-- A number of `least` to `most` digits and what follows. -/
def readDigits? (least most : Nat) (cs : List Char) : Option (Nat × List Char) :=
  let ds := (cs.take most).takeWhile Char.isDigit
  if ds.length < least then none
  else some (Text.digitsValue (ds.filterMap Text.decimalDigit), cs.drop ds.length)

def readChar? (c : Char) : List Char → Option (List Char)
  | d :: cs => if d = c then some cs else none
  | [] => none

def isTimeBlank (c : Char) : Bool := c = ' ' || c = '\t'

/-- Hours and perhaps minutes behind the sign of a zone. -/
def readOffset? (cs : List Char) : Option Int :=
  match readDigits? 1 2 cs with
  | some (hours, []) => some (60 * hours)
  | some (hours, ':' :: cs) =>
    match readDigits? 2 2 cs with
    | some (minutes, []) => some (60 * hours + minutes)
    | _ => none
  | _ => none

/-- The zone at the end of a time: nothing, or one that may be absent. -/
def readZone? (cs : List Char) : Option (Option Int) :=
  if cs.isEmpty then some none
  else match cs.dropWhile isTimeBlank with
    | ['Z'] => some (some 0)
    | '+' :: cs => (readOffset? cs).map some
    | '-' :: cs => (readOffset? cs).map fun m => some (-m)
    | _ => none

def readTime? (date : Moment) (cs : List Char) : Option Moment := do
  let (hour, cs) ← readDigits? 1 2 cs
  let (minute, cs) ← readDigits? 2 2 (← readChar? ':' cs)
  let (second, cs) ← readDigits? 2 2 (← readChar? ':' cs)
  let (fraction, cs) := match cs with
    | '.' :: cs => (cs.takeWhile Char.isDigit, cs.dropWhile Char.isDigit)
    | cs => ([], cs)
  let zone ← readZone? cs
  return { date with time := some (hour, minute, second, fraction), zone := zone }

/-- A date, or a date with a time. -/
def Moment.read? (cs : List Char) : Option Moment := do
  let (year, cs) ← readDigits? 4 4 cs
  let (month, afterMonth) ← readDigits? 1 2 (← readChar? '-' cs)
  let (day, rest) ← readDigits? 1 2 (← readChar? '-' afterMonth)
  let date : Moment := { year, month, day }
  match rest with
  | [] => if cs.length = 6 && afterMonth.length = 3 then return date else none
  | c :: cs =>
    if c = 'T' || c = 't' then readTime? date cs
    else if isTimeBlank c then readTime? date (cs.dropWhile isTimeBlank)
    else none

/-! ### All kinds -/

/-- A word in small letters, with a capital, or in capitals. -/
def hasCases (words : List String) (s : String) : Bool :=
  words.any fun w => s = w || s = w.capitalize || s = w.map Char.toUpper

def NodeKind.ofPlain (s : String) : NodeKind :=
  let cs := s.toList
  if hasCases ["yes", "no", "true", "false", "on", "off"] s then bool
  else if isReal cs then real
  else if isInteger cs then int
  else if s = "<<" then merge
  else if s.isEmpty || s = "~" || hasCases ["null"] s then null
  else if (Moment.read? cs).isSome then moment
  else if s = "=" then default
  else text

end MixedInteger.Markup
