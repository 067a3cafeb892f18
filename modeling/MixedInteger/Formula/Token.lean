import MixedInteger.Number.Double
import MixedInteger.Text.Identifier
import MixedInteger.Text.NormalForm
import MixedInteger.Text.Numeral

/-! The words of a formula. A line that begins with a blank is marked, line ends
within brackets are blanks, and a character that belongs to no word ends the list
with `bad`. -/

namespace MixedInteger.Formula

inductive Token where
  | int (n : Nat)
  | real (x : Float)
  | imaginary
  | text (bytes pieced : Bool)
  | name (s : String)
  /-- An operator, a bracket or a reserved word. -/
  | mark (s : String)
  | newline
  | indent
  | bad

def reserved : List String := ["False", "None", "True", "and", "as", "assert", "async", "await",
  "break", "class", "continue", "def", "del", "elif", "else", "except", "finally", "for", "from",
  "global", "if", "import", "in", "is", "lambda", "nonlocal", "not", "or", "pass", "raise",
  "return", "try", "while", "with", "yield"]

/-- The longest ones first. -/
def marks : List String := ["**=", "//=", ">>=", "<<=", "...", "**", "//", ">>", "<<", "<=", ">=",
  "==", "!=", "->", "+=", "-=", "*=", "/=", "%=", "&=", "|=", "^=", "@=", ":=", "<>", "+", "-",
  "*", "/", "%", "@", "&", "|", "^", "~", "<", ">", "(", ")", "[", "]", "\x7b", "\x7d", ",", ":",
  ".", ";", "="]

/-! ### Numbers -/

def digit? (base : Nat) (c : Char) : Option Nat := (Text.hexDigit c).filter (· < base)

def startsWithDigit (base : Nat) (cs : List Char) : Bool := (cs.head?.bind (digit? base)).isSome

/-- Digits with single underscores between them, and what follows; `inside` tells that
a digit came just before. -/
def digitsAfter (base : Nat) (inside : Bool) : List Char → List Nat × List Char
  | [] => ([], [])
  | c :: cs =>
    match digit? base c with
    | some d =>
      let (ds, rest) := digitsAfter base true cs
      (d :: ds, rest)
    | none =>
      if inside && c == '_' && startsWithDigit base cs then digitsAfter base false cs
      else ([], c :: cs)

def digits (base : Nat) (cs : List Char) : List Nat × List Char := digitsAfter base false cs

def valueIn (base : Nat) (ds : List Nat) : Nat := ds.foldl (fun n d => base * n + d) 0

/-- Words that may follow a number without a blank. -/
def numberFollowers : List String := ["and", "else", "for", "if", "in", "is", "or", "not"]

/-- May a number end before `cs`? -/
def numberEnds (cs : List Char) : Bool :=
  numberFollowers.any (fun w => w.toList.isPrefixOf cs) || !(cs.head?.any Text.isNamePart)

def ended (t : Token) (cs : List Char) : Token × List Char :=
  if numberEnds cs then (t, cs) else (.bad, [])

def inBase (base : Nat) (cs : List Char) : Token × List Char :=
  let (ds, rest) := digits base (if cs.head? = some '_' then cs.drop 1 else cs)
  if ds.isEmpty then (.bad, []) else ended (.int (valueIn base ds)) rest

/-- The exponent at the front, zero when there is none; nothing when a sign has no
digits. -/
def exponent (cs : List Char) : Option (Bool × Int × List Char) :=
  match cs with
  | c :: rest =>
    if c = 'e' ∨ c = 'E' then
      let (negative, after) := Text.signed rest
      if startsWithDigit 10 after then
        let (ds, after) := digits 10 after
        let n : Int := valueIn 10 ds
        some (true, if negative then -n else n, after)
      else if after.length < rest.length then none
      else some (false, 0, cs)
    else some (false, 0, cs)
  | [] => some (false, 0, [])

/-- A decimal number. A whole number has no leading zeros and not too many digits, unless it is
zero. -/
def decimal (cs : List Char) : Token × List Char :=
  let (whole, after) := digits 10 cs
  let pointed := after.head? = some '.'
  let (fraction, after) := if pointed then digits 10 (after.drop 1) else ([], after)
  match exponent after with
  | none => (.bad, [])
  | some (marked, e, after) =>
    let imaginary := after.head?.any fun c => c = 'j' ∨ c = 'J'
    if imaginary then ended .imaginary (after.drop 1)
    else if pointed || marked then
      ended (.real (doubleOfDecimal (valueIn 10 (whole ++ fraction)) (e - fraction.length))) after
    else if whole.any (· != 0) && (whole.head? = some 0 || whole.length > Text.maxDigits) then
      (.bad, [])
    else ended (.int (valueIn 10 whole)) after

def number (cs : List Char) : Token × List Char :=
  match cs with
  | '0' :: c :: rest =>
    if c = 'x' ∨ c = 'X' then inBase 16 rest
    else if c = 'o' ∨ c = 'O' then inBase 8 rest
    else if c = 'b' ∨ c = 'B' then inBase 2 rest
    else decimal cs
  | _ => decimal cs

/-! ### Texts -/

/-- What stands before a quote tells the kind of a text. -/
def textKinds : List String := ["r", "u", "b", "f", "br", "rb", "fr", "rf"]

/-- Characters up to the closing quotes and what follows them; `escaped` tells that a
backslash came just before. -/
def textBody (closing : List Char) (lines escaped : Bool) :
    List Char → Option (List Char × List Char)
  | [] => none
  | c :: cs =>
    if !escaped && closing.isPrefixOf (c :: cs) then some ([], (c :: cs).drop closing.length)
    else if c = '\n' ∧ !lines ∧ !escaped then none
    else
      (textBody closing lines (c = '\\' && !escaped) cs).map fun r => (c :: r.1, r.2)

/-- Hexadecimal digits at the front, all of `n`. -/
def hexHead (n : Nat) (cs : List Char) : Option Nat :=
  let ds := (cs.take n).filterMap Text.hexDigit
  if ds.length = n then some (valueIn 16 ds) else none

/-- Do all escapes name a character? -/
def escapesOk (bytes : Bool) : List Char → Bool
  | '\\' :: c :: cs =>
    let named := match c with
      | 'x' => (hexHead 2 cs).isSome
      | 'u' => bytes || (hexHead 4 cs).isSome
      | 'U' => bytes || (hexHead 8 cs).any (· < 0x110000)
      | 'N' => bytes || cs.head? = some (Char.ofNat 123)
      | _ => true
    named && escapesOk bytes cs
  | _ :: cs => escapesOk bytes cs
  | [] => true

/-- Braces of a pieced text: those that are doubled stand for themselves, others come
in pairs around something. `doubled` tells that the first of two came just before. -/
def bracesOk (depth : Nat) (filled doubled : Bool) : List Char → Bool
  | [] => depth = 0
  | c :: cs =>
    let twice := cs.head? = some c
    if doubled then bracesOk depth filled false cs
    else if c.toNat = 123 then
      if depth = 0 && twice then bracesOk depth filled true cs
      else bracesOk (depth + 1) false false cs
    else if c.toNat = 125 then
      if depth = 0 then twice && bracesOk depth filled true cs
      else filled && bracesOk (depth - 1) true false cs
    else bracesOk depth (filled || !Text.isBlank c) false cs

/-- A text from its opening quote on; `kind` is what stood before it. -/
def textFrom (kind : String) (cs : List Char) : Token × List Char :=
  let quote := cs.take 1
  let triple := cs.take 3 == List.replicate 3 (quote.headD '\'')
  let closing := if triple then cs.take 3 else quote
  match textBody closing triple false (cs.drop closing.length) with
  | none => (.bad, [])
  | some (body, rest) =>
    let has (c : Char) : Bool := kind.toList.contains c
    let ok := (has 'r' || escapesOk (has 'b') body) &&
      (!has 'b' || body.all fun c => c.toNat < 128) && (!has 'f' || bracesOk 0 false false body)
    if ok then (.text (has 'b') (has 'f'), rest) else (.bad, [])

/-! ### Lines -/

def isQuote (c : Char) : Bool := c = '\'' || c = '"'

def formFeed : Char := Char.ofNat 12

def isSpace (c : Char) : Bool := c = ' ' || c = '\t' || c = formFeed

/-- What a line holds behind the blanks and continuations that it begins with, and whether it is
indented. A form feed takes back the blanks before it, but not those in front of a
continuation. -/
def margin (blank kept : Bool) : List Char → Bool × List Char
  | '\\' :: '\n' :: c :: cs => margin blank (kept || blank) (c :: cs)
  | c :: cs => if isSpace c then margin (c ≠ formFeed) kept cs else (kept || blank, c :: cs)
  | [] => (kept || blank, [])

/-- The word at the front of a text without leading blanks. -/
def word (cs : List Char) : Token × List Char :=
  match cs with
  | [] => (.bad, [])
  | c :: _ =>
    if Text.isNameStart c then
      let run := cs.takeWhile Text.isNamePart
      let rest := cs.dropWhile Text.isNamePart
      let s := String.ofList run
      let kind := String.ofList (run.map Char.toLower)
      if rest.head?.any isQuote && textKinds.contains kind then textFrom kind rest
      else (if reserved.contains s then .mark s else .name (Text.normalForm s), rest)
    else if isQuote c then textFrom "" cs
    else if c.isDigit || (c = '.' && startsWithDigit 10 (cs.drop 1)) then number cs
    else
      match marks.find? fun m => m.toList.isPrefixOf cs with
      | some m => (.mark m, cs.drop m.length)
      | none => (.bad, [])

/-- Brackets may be nested as deep as this. -/
def maxDepth : Nat := 200

/-- The depth of brackets after a word. -/
def depthAfter (depth : Nat) : Token → Nat
  | .mark s =>
    if s = "(" ∨ s = "[" ∨ s = "\x7b" then depth + 1
    else if s = ")" ∨ s = "]" ∨ s = "\x7d" then depth - 1
    else depth
  | _ => depth

/-- The rest of a line is a comment. -/
def dropComment (cs : List Char) : List Char :=
  if cs.head? = some '#' then cs.dropWhile (· ≠ '\n') else cs

/-- All words; `fresh` tells that a line begins and `depth` counts open brackets. -/
def tokensFrom : Nat → Bool → Nat → List Char → List Token
  | 0, _, _, _ => [.bad]
  | fuel + 1, fresh, depth, cs =>
    let (indented, body) := if fresh then margin false false cs else (false, cs.dropWhile isSpace)
    match dropComment body with
    | [] => if indented && body.isEmpty then [.indent] else []
    | '\n' :: rest =>
      if fresh || depth > 0 then tokensFrom fuel fresh depth rest
      else .newline :: tokensFrom fuel true 0 rest
    | '\\' :: '\n' :: rest =>
      if rest.isEmpty then [.bad] else tokensFrom fuel false depth rest
    | body =>
      let (t, rest) := word body
      let depth := depthAfter depth t
      if depth > maxDepth then [.bad]
      else match t with
        | .bad => if indented then [.indent, .bad] else [.bad]
        | t =>
          let more := t :: tokensFrom fuel false depth rest
          if indented then .indent :: more else more

/-- Every kind of line end becomes a newline. -/
def unifyLines : List Char → List Char
  | '\r' :: '\n' :: cs => '\n' :: unifyLines cs
  | '\r' :: cs => '\n' :: unifyLines cs
  | c :: cs => c :: unifyLines cs
  | [] => []

/-- The words of a text, none of whose characters is zero. -/
def tokens (s : String) : List Token :=
  let cs := unifyLines s.toList
  if cs.contains (Char.ofNat 0) then [.bad] else tokensFrom (cs.length + 1) true 0 cs

end MixedInteger.Formula
