import MixedInteger.Formula.Basic
import MixedInteger.Formula.Token

/-! The grammar of formulas. From the loosest to the tightest a formula is a choice,
an alternative, a comparison, six levels of binary operators that group to the left,
a sign, a power, and last an operand with what is appended to it. A power groups to
the right and its exponent may have a sign. `fuel` bounds the depth, and a formula of
`n` words needs no more than `levels * (n + 1)`. -/

namespace MixedInteger.Formula

/-- Takes words from the front; nothing when they do not fit. -/
abbrev Reading := StateT (List Token) Option

namespace Reading

def refuse {β : Type} : Reading β := fun _ => none

def peek : Reading (Option Token) := do return (← get).head?

/-- Is the next word the mark `s`? -/
def next (s : String) : Reading Bool := do
  match ← peek with
  | some (.mark m) => return m == s
  | _ => return false

/-- Takes the mark `s` when it is next, and tells whether it was. -/
def accept (s : String) : Reading Bool := do
  let found ← next s
  if found then modify List.tail
  return found

def expect (s : String) : Reading Unit := do
  if !(← accept s) then refuse

def require (b : Bool) : Reading Unit := if b then pure () else refuse

def takeName : Reading String := do
  match ← peek with
  | some (.name s) =>
    modify List.tail
    return s
  | _ => refuse

/-- Is a mark of the list next? -/
def nextIn (ms : List String) : Reading Bool := do
  match ← peek with
  | some (.mark m) => return ms.contains m
  | _ => return false

/-- Takes a mark of the list when one is next, and tells whether it was. -/
def acceptIn (ms : List String) : Reading Bool := do
  let found ← nextIn ms
  if found then modify List.tail
  return found

/-- Is a name next, with the mark `s` behind it? -/
def nameBefore (s : String) : Reading Bool := do
  match (← get).take 2 with
  | [.name _, .mark m] => return m == s
  | _ => return false

end Reading

open Reading

/-! ### Operators -/

/-- Binary operators by level, the loosest first. -/
def operators : List (List (String × Operator)) := [
  [("|", .other)],
  [("^", .other)],
  [("&", .other)],
  [("<<", .other), (">>", .other)],
  [("+", .add), ("-", .subtract)],
  [("*", .multiply), ("/", .divide), ("//", .floorDivide), ("%", .modulo), ("@", .other)]]

/-- Takes an operator of the list. -/
def takeOperator (ops : List (String × Operator)) : Reading (Option Operator) := do
  match ← peek with
  | some (.mark m) =>
    match ops.lookup m with
    | some op =>
      modify List.tail
      return some op
    | none => return none
  | _ => return none

def signs : List (String × Sign) := [("+", .plus), ("-", .minus), ("~", .other)]

def takeSign : Reading (Option Sign) := do
  match ← peek with
  | some (.mark m) =>
    match signs.lookup m with
    | some s =>
      modify List.tail
      return some s
    | none => return none
  | _ => return none

/-- Takes a comparison, which may have two words. -/
def takeComparison : Reading Bool := do
  match (← get).take 2 with
  | [.mark "not", .mark "in"] | [.mark "is", .mark "not"] =>
    modify (List.drop 2)
    return true
  | .mark m :: _ =>
    let found := ["==", "!=", "<=", "<", ">=", ">", "in", "is"].contains m
    if found then modify List.tail
    return found
  | _ => return false

/-- Texts side by side are one, if they are of one kind. -/
def texts (bytes pieced : Bool) : List Token → Option (Formula × List Token)
  | .text b p :: rest => if b = bytes then texts bytes (pieced || p) rest else none
  | rest => some (if pieced then .other false else .constant, rest)

/-- Words that end a list of items. -/
def closers : List String := [")", "]", "\x7d"]

/-- What has been seen among the arguments of a call. -/
structure Arguments where
  named : Bool := false
  doubled : Bool := false
  count : Nat := 0

/-- What has been seen among parameters. -/
structure Parameters where
  given : Bool := false
  starred : Bool := false
  divided : Bool := false
  count : Nat := 0

/-! ### Levels -/

mutual
/-- A choice between two alternatives, or a function. -/
def expression : Nat → Reading Formula
  | 0 => refuse
  | fuel + 1 => do
    if ← accept "lambda" then
      parameters fuel {}
      let _ ← expression fuel
      return .other false
    let f ← alternative fuel
    if ← accept "if" then
      let _ ← alternative fuel
      expect "else"
      let _ ← expression fuel
      return .other false
    return f

/-- Negations and comparisons joined by `and` and `or`. -/
def alternative : Nat → Reading Formula
  | 0 => refuse
  | fuel + 1 => do
    let f ← negation fuel
    if ← acceptIn ["and", "or"] then
      let _ ← alternative fuel
      return .other false
    return f

def negation : Nat → Reading Formula
  | 0 => refuse
  | fuel + 1 => do
    if ← accept "not" then return .unary .other (← negation fuel)
    let f ← chain fuel operators
    if ← takeComparison then
      compared fuel
      return .other false
    return f

/-- Operands of further comparisons. -/
def compared : Nat → Reading Unit
  | 0 => refuse
  | fuel + 1 => do
    let _ ← chain fuel operators
    if ← takeComparison then compared fuel

/-- Binary operators of the levels given. -/
def chain : Nat → List (List (String × Operator)) → Reading Formula
  | 0, _ => refuse
  | fuel + 1, [] => signed fuel
  | fuel + 1, ops :: tighter => do
    let f ← chain fuel tighter
    chainFrom fuel ops tighter f

/-- Goes on with operators of one level, the left operand being known. -/
def chainFrom : Nat → List (String × Operator) → List (List (String × Operator)) → Formula →
    Reading Formula
  | 0, _, _, _ => refuse
  | fuel + 1, ops, tighter, left => do
    match ← takeOperator ops with
    | some op =>
      let right ← chain fuel tighter
      chainFrom fuel ops tighter (.binary op left right)
    | none => return left

def signed : Nat → Reading Formula
  | 0 => refuse
  | fuel + 1 => do
    match ← takeSign with
    | some s => return .unary s (← signed fuel)
    | none =>
      let base ← awaited fuel
      if ← accept "**" then return .binary .power base (← signed fuel)
      return base

def awaited : Nat → Reading Formula
  | 0 => refuse
  | fuel + 1 => do
    if ← accept "await" then
      let _ ← operand fuel >>= trailers fuel
      return .other false
    operand fuel >>= trailers fuel

/-- Members, calls and parts of an operand. -/
def trailers : Nat → Formula → Reading Formula
  | 0, _ => refuse
  | fuel + 1, f => do
    if ← accept "." then
      let _ ← takeName
      trailers fuel (.other true)
    else if ← accept "(" then
      arguments fuel {}
      trailers fuel (.other false)
    else if ← accept "[" then
      parts fuel
      trailers fuel (.other true)
    else return f

def operand : Nat → Reading Formula
  | 0 => refuse
  | fuel + 1 => do
    match ← peek with
    | some (.int n) =>
      modify List.tail
      return .int n
    | some (.real x) =>
      modify List.tail
      return .real x
    | some .imaginary =>
      modify List.tail
      return .constant
    | some (.name s) =>
      modify List.tail
      return .name s
    | some (.text bytes _) => texts bytes false
    | some (.mark m) =>
      modify List.tail
      if ["None", "True", "False", "..."].contains m then return .constant
      else if m == "(" then group fuel
      else if m == "[" then bracketed fuel
      else if m == "\x7b" then braced fuel
      else refuse
    | _ => refuse

/-- An item, which may be assigned to a name on the way. -/
def named : Nat → Reading Formula
  | 0 => refuse
  | fuel + 1 => do
    if ← nameBefore ":=" then
      modify (List.drop 2)
      let _ ← expression fuel
      return .other false
    expression fuel

/-- An item or a starred one, and whether it had a star. -/
def starred : Nat → Reading (Formula × Bool)
  | 0 => refuse
  | fuel + 1 => do
    if ← accept "*" then return (← chain fuel operators, true)
    return (← named fuel, false)

/-- More items after a comma, up to the mark `close`, and whether all are places. -/
def items : Nat → String → Bool → Reading Bool
  | 0, _, _ => refuse
  | fuel + 1, close, places => do
    if ← accept close then return places
    let (f, _) ← starred fuel
    if !(← next close) then expect ","
    items fuel close (places && f.isPlace)

/-- After an opening parenthesis: a formula, a list of them or a generator. -/
def group : Nat → Reading Formula
  | 0 => refuse
  | fuel + 1 => do
    if ← accept ")" then return .other true
    if ← accept "yield" then
      yielded fuel
      expect ")"
      return .other false
    let (f, star) ← starred fuel
    if ← nextIn ["for", "async"] then
      require !star
      clauses fuel
      expect ")"
      return .other false
    if ← accept "," then return .other (← items fuel ")" f.isPlace)
    require !star
    expect ")"
    return f

/-- What is handed out: nothing, a list of items, or all of something. -/
def yielded : Nat → Reading Unit
  | 0 => refuse
  | fuel + 1 => do
    if ← accept "from" then
      let _ ← expression fuel
      return
    if ← next ")" then return
    let (_, star) ← starred fuel
    if ← accept "," then openItems fuel else require !star

/-- Items separated by commas in front of a closing parenthesis, which stays. -/
def openItems : Nat → Reading Unit
  | 0 => refuse
  | fuel + 1 => do
    if ← nextIn closers then return
    let _ ← starred fuel
    if !(← nextIn closers) then expect ","
    openItems fuel

/-- After an opening bracket. -/
def bracketed : Nat → Reading Formula
  | 0 => refuse
  | fuel + 1 => do
    if ← accept "]" then return .other true
    let (f, star) ← starred fuel
    if ← nextIn ["for", "async"] then
      require !star
      clauses fuel
      expect "]"
      return .other false
    if !(← next "]") then expect ","
    return .other (← items fuel "]" f.isPlace)

/-- After an opening brace: a mapping or a set. -/
def braced : Nat → Reading Formula
  | 0 => refuse
  | fuel + 1 => do
    if (← next "\x7d") || (← next "**") then
      pairs fuel
      return .other false
    let assigned ← nameBefore ":="
    let (_, star) ← starred fuel
    if ← accept ":" then
      require !(star || assigned)
      let _ ← expression fuel
      if ← nextIn ["for", "async"] then
        clauses fuel
        expect "\x7d"
      else
        if !(← next "\x7d") then expect ","
        pairs fuel
    else if ← nextIn ["for", "async"] then
      require !star
      clauses fuel
      expect "\x7d"
    else
      if !(← next "\x7d") then expect ","
      let _ ← items fuel "\x7d" false
    return .other false

/-- Entries of a mapping up to the closing brace. -/
def pairs : Nat → Reading Unit
  | 0 => refuse
  | fuel + 1 => do
    if ← accept "\x7d" then return
    if ← accept "**" then
      let _ ← chain fuel operators
    else
      let _ ← expression fuel
      expect ":"
      let _ ← expression fuel
    if !(← next "\x7d") then expect ","
    pairs fuel

/-- Clauses of a generator. -/
def clauses : Nat → Reading Unit
  | 0 => refuse
  | fuel + 1 => do
    let _ ← accept "async"
    expect "for"
    targets fuel
    expect "in"
    let _ ← alternative fuel
    conditions fuel
    if ← nextIn ["for", "async"] then clauses fuel

def conditions : Nat → Reading Unit
  | 0 => refuse
  | fuel + 1 => do
    if ← accept "if" then
      let _ ← alternative fuel
      conditions fuel

/-- Places separated by commas in front of `in`. -/
def targets : Nat → Reading Unit
  | 0 => refuse
  | fuel + 1 => do
    let _ ← accept "*"
    let f ← chain fuel operators
    require f.isPlace
    if ← accept "," then
      if !(← next "in") then targets fuel

/-- Arguments up to the closing parenthesis. -/
def arguments : Nat → Arguments → Reading Unit
  | 0, _ => refuse
  | fuel + 1, seen => do
    if ← accept ")" then return
    let seen := { seen with count := seen.count + 1 }
    if ← accept "**" then
      let _ ← expression fuel
      separated fuel { seen with doubled := true }
    else if ← accept "*" then
      require !seen.doubled
      let _ ← expression fuel
      separated fuel seen
    else if ← nameBefore "=" then
      modify (List.drop 2)
      let _ ← expression fuel
      separated fuel { seen with named := true }
    else
      require !(seen.doubled || seen.named)
      let _ ← named fuel
      if ← nextIn ["for", "async"] then
        require (seen.count = 1)
        clauses fuel
        expect ")"
      else separated fuel seen

/-- Goes on with arguments after a comma. -/
def separated : Nat → Arguments → Reading Unit
  | 0, _ => refuse
  | fuel + 1, seen => do
    if !(← next ")") then expect ","
    arguments fuel seen

/-- Parts of an operand up to the closing bracket, at least one. -/
def parts : Nat → Reading Unit
  | 0 => refuse
  | fuel + 1 => do
    part fuel
    if ← accept "]" then return
    expect ","
    if ← accept "]" then return
    parts fuel

/-- A single part: a position or a range of them. -/
def part : Nat → Reading Unit
  | 0 => refuse
  | fuel + 1 => do
    if ← next ":" then range fuel
    else if ← accept "*" then
      let _ ← expression fuel
    else if ← nameBefore ":=" then
      let _ ← named fuel
    else
      let _ ← expression fuel
      if ← next ":" then range fuel

/-- The rest of a range after its start. -/
def range : Nat → Reading Unit
  | 0 => refuse
  | fuel + 1 => do
    expect ":"
    if !(← nextIn [":", ",", "]"]) then
      let _ ← expression fuel
    if ← accept ":" then
      if !(← nextIn [",", "]"]) then
        let _ ← expression fuel

/-- Parameters of a function up to the colon. -/
def parameters : Nat → Parameters → Reading Unit
  | 0, _ => refuse
  | fuel + 1, seen => do
    if ← accept ":" then return
    let after := { seen with count := seen.count + 1 }
    if ← accept "**" then
      let _ ← takeName
      let _ ← accept ","
      expect ":"
    else if ← accept "*" then
      require !seen.starred
      if ← accept "," then
        require !(← nextIn [":", "**"])
        parameters fuel { after with starred := true }
      else
        let _ ← takeName
        moreParameters fuel { after with starred := true }
    else if ← accept "/" then
      require (seen.count > 0 && !seen.starred && !seen.divided)
      moreParameters fuel { after with divided := true }
    else
      let _ ← takeName
      if ← accept "=" then
        let _ ← expression fuel
        moreParameters fuel { after with given := true }
      else
        require (seen.starred || !seen.given)
        moreParameters fuel after

/-- Goes on with parameters after a comma. -/
def moreParameters : Nat → Parameters → Reading Unit
  | 0, _ => refuse
  | fuel + 1, seen => do
    if !(← next ":") then expect ","
    parameters fuel seen
end

/-- As many calls as may be nested without a word being taken. -/
def levels : Nat := 24

/-- A whole text: formulas separated by commas, and then empty lines only. -/
def whole (fuel : Nat) : Reading Formula := do
  let f ← expression fuel
  if ← accept "," then
    rest fuel
    return .other false
  return f
where
  rest : Nat → Reading Unit
    | 0 => refuse
    | n + 1 => do
      match ← peek with
      | none | some .newline => return
      | _ =>
        let _ ← expression fuel
        if ← accept "," then rest n

def dropNewlines : List Token → List Token
  | .newline :: ts => dropNewlines ts
  | ts => ts

/-- The formula that a text stands for. -/
def read (s : String) : Except Malformed Formula :=
  match tokens s with
  | .indent :: _ => .error .indented
  | ts =>
    match whole (levels * (ts.length + 1)) ts with
    | none => .error .invalid
    | some (f, rest) =>
      match dropNewlines rest with
      | [] => .ok f
      | .indent :: _ => .error .indented
      | _ => .error .invalid

end MixedInteger.Formula
