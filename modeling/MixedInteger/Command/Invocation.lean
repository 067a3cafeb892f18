import MixedInteger.Data.Value
import MixedInteger.Number.Double
import MixedInteger.Text.Numeral

/-! What a command line asks for, and what it shows when it is asked for help. A word is
a switch by its looks, the divider `--`, behind which no word is a switch, or a plain
word. A long switch may be cut as long as it is clear which one is meant, and its
argument may follow an equals sign; flags of one letter may share a hyphen. Words are
taken from left to right. -/

namespace MixedInteger.Command

/-- A switch: its names, and whether an argument belongs to it. -/
structure Switch (κ : Type) where
  key : κ
  names : List String
  takesArgument : Bool := false

/-- What is taken besides switches. -/
inductive Operand where
  | nothing
  | one
  /-- A word and all that follow it. -/
  | command
deriving DecidableEq, Repr

structure Grammar (κ : Type) where
  switches : List (Switch κ)
  operand : Operand

/-- How the reading of a command line ends early. -/
inductive Ending where
  /-- With a text that was asked for. -/
  | shown (text : String)
  | misuse
deriving DecidableEq, Repr

/-- A part of a command line that was recognised. -/
inductive Argument (κ : Type) where
  | flag (key : κ)
  | setting (key : κ) (value : String)
  | operand (value : String)
  | command (words : List String)

/-- A switch with the name that it was given by and the text that came with it. -/
structure Given (κ : Type) where
  switch : Switch κ
  name : String
  attached : Option String := none

inductive Mark (κ : Type) where
  | word
  | divider
  /-- Something that looks like a switch; it may be unknown. -/
  | switch (given : Option (Given κ))

def Mark.isDivider {κ : Type} : Mark κ → Bool
  | divider => true
  | _ => false

abbrev Marked (κ : Type) := String × Mark κ

variable {κ σ : Type}

namespace Grammar

/-- Every name with its switch. -/
def names (g : Grammar κ) : List (String × Switch κ) :=
  g.switches.flatMap fun s => s.names.map fun n => (n, s)

def find? (g : Grammar κ) (name : String) : Option (Switch κ) :=
  (g.names.find? fun e => e.1 == name).map (·.2)

/-- A text before and behind the first equals sign. -/
def splitEquals (cs : List Char) : String × Option String :=
  let name := cs.takeWhile (· ≠ '=')
  match cs.drop name.length with
  | [] => (String.ofList name, none)
  | _ :: value => (String.ofList name, some (String.ofList value))

/-- Switches that may be meant by a word that is none of their names. -/
def candidates (g : Grammar κ) (cs : List Char) : List (Given κ) :=
  if cs[1]? = some '-' then
    let (name, value) := splitEquals cs
    g.names.filterMap fun e =>
      if name.toList.isPrefixOf e.1.toList then some ⟨e.2, e.1, value⟩ else none
  else
    g.names.filterMap fun e =>
      if e.1.toList = cs.take 2 then some ⟨e.2, e.1, some (String.ofList (cs.drop 2))⟩
      else if cs.isPrefixOf e.1.toList then some ⟨e.2, e.1, none⟩
      else none

def isDigit (c : Char) : Bool := (Text.decimalDigit c).isSome

/-- A hyphen and digits, perhaps with a point before the last of them. -/
def isNegative (cs : List Char) : Bool :=
  match cs with
  | '-' :: ds =>
    match ds.dropWhile isDigit with
    | [] => !ds.isEmpty
    | '.' :: fraction => !fraction.isEmpty && fraction.all isDigit
    | _ => false
  | _ => false

/-- The name before an equals sign, given in full. -/
def assigned? (g : Grammar κ) (cs : List Char) : Option (Given κ) :=
  match splitEquals cs with
  | (name, some value) => (g.find? name).map fun s => ⟨s, name, some value⟩
  | _ => none

/-- A word that begins with a hyphen and is no name of a switch. -/
def markLoose (g : Grammar κ) (cs : List Char) : Except Ending (Mark κ) :=
  match assigned? g cs, candidates g cs with
  | some given, _ => .ok (.switch (some given))
  | none, [given] => .ok (.switch (some given))
  | none, _ :: _ :: _ => .error .misuse
  | none, [] => .ok (if isNegative cs || cs.contains ' ' then .word else .switch none)

def mark (g : Grammar κ) (word : String) : Except Ending (Mark κ) :=
  let cs := word.toList
  if cs.head? ≠ some '-' then .ok .word
  else match g.find? word with
    | some s => .ok (.switch (some ⟨s, word, none⟩))
    | none => if cs.length = 1 then .ok .word else markLoose g cs

def markAll (g : Grammar κ) : List String → Except Ending (List (Marked κ))
  | [] => .ok []
  | word :: words =>
    if word = "--" then .ok ((word, .divider) :: words.map fun w => (w, .word))
    else do
      let m ← mark g word
      return (word, m) :: (← markAll g words)

/-! ### Switches -/

/-- What a switch that came with a text stands for, flags before the last one included.
Behind a flag of one letter the text holds further flags. -/
def unfold (g : Grammar κ) (s : Switch κ) (short : Bool) :
    List Char → Except Ending (List (Argument κ) × Option (Switch κ))
  | [] => .error .misuse
  | c :: cs =>
    if s.takesArgument then .ok ([.setting s.key (String.ofList (c :: cs))], none)
    else if !short then .error .misuse
    else match g.find? (String.ofList ['-', c]), cs with
      | none, _ => .error .misuse
      | some t, [] => .ok ([.flag s.key], some t)
      | some t, cs => (unfold g t true cs).map fun r => (.flag s.key :: r.1, r.2)

/-- A switch whose argument, if it takes one, is the next word. -/
def takeNext (s : Switch κ) (rest : List (Marked κ)) :
    Except Ending (Argument κ × List (Marked κ)) :=
  if s.takesArgument then
    match rest with
    | (value, .word) :: rest => .ok (.setting s.key value, rest)
    | _ => .error .misuse
  else .ok (.flag s.key, rest)

def takeGiven (g : Grammar κ) (given : Given κ) (rest : List (Marked κ)) :
    Except Ending (List (Argument κ) × List (Marked κ)) :=
  match given.attached with
  | none => (takeNext given.switch rest).map fun r => ([r.1], r.2)
  | some "" =>
    if given.switch.takesArgument then .ok ([.setting given.switch.key ""], rest)
    else .error .misuse
  | some text => do
    let (found, last) ← unfold g given.switch (given.name.length = 2) text.toList
    match last with
    | none => return (found, rest)
    | some s =>
      let (a, rest) ← takeNext s rest
      return (found ++ [a], rest)

/-! ### Operands -/

/-- The operand at the beginning of what is left, if there is one. A divider next to it
is no part of it. -/
def operand? (o : Operand) (items : List (Marked κ)) :
    Option (Argument κ × List (Marked κ)) :=
  let front := items.takeWhile (·.2.isDivider)
  match o, items.drop front.length with
  | .one, (value, .word) :: rest => some (.operand value, rest.dropWhile (·.2.isDivider))
  | .command, (_, .word) :: _ => some (.command (items.map (·.1)), [])
  | _, _ => none

/-! ### All words -/

def takeAll (take : σ → Argument κ → Except Ending σ) (s : σ) (found : List (Argument κ)) :
    Except Ending σ :=
  found.foldlM take s

/-- Takes arguments as they come; what has no place is left over. -/
def consume (g : Grammar κ) (take : σ → Argument κ → Except Ending σ) (fuel : Nat)
    (operand : Operand) (s : σ) (extra : List String) (items : List (Marked κ)) :
    Except Ending (σ × List String) :=
  match fuel with
  | 0 => .ok (s, extra)
  | fuel + 1 =>
    match items with
    | [] => .ok (s, extra)
    | (word, .switch none) :: rest => consume g take fuel operand s (extra ++ [word]) rest
    | (_, .switch (some given)) :: rest => do
      let (found, rest) ← takeGiven g given rest
      consume g take fuel operand (← takeAll take s found) extra rest
    | (word, _) :: rest =>
      match operand? operand items with
      | some (a, rest) => do consume g take fuel .nothing (← take s a) extra rest
      | none => consume g take fuel operand s (extra ++ [word]) rest

/-- Reads a command line; beside the result there are words that have no place. -/
def read (g : Grammar κ) (take : σ → Argument κ → Except Ending σ) (start : σ)
    (words : List String) : Except Ending (σ × List String) := do
  let items ← markAll g words
  consume g take (items.length + 1) g.operand start [] items

end Grammar

/-! ### Help -/

/-- Lines of a text, each with its end. -/
def linesText (lines : List String) : String := String.join (lines.map (· ++ "\n"))

def mainUsage : String :=
  "usage: lpadapter [-h] [--config CONFIG] \x7bsolve,validate,info\x7d ..."

def mainHelp : String := linesText [
  mainUsage,
  "",
  "Solve LP/MIP models described in YAML",
  "",
  "positional arguments:",
  "  \x7bsolve,validate,info\x7d",
  "    solve               Solve a YAML model",
  "    validate            Load a YAML model without solving it",
  "    info                Show current configuration",
  "",
  "options:",
  "  -h, --help            show this help message and exit",
  "  --config CONFIG       Path to YAML config. Default: configs/default.yaml"]

def solveHelp : String := linesText [
  "usage: lpadapter solve [-h] [--method \x7bsimplex,exact,interior\x7d] [--presolve]",
  "                       [--time-limit TIME_LIMIT] [--print-every PRINT_EVERY]",
  "                       model",
  "",
  "positional arguments:",
  "  model                 Path to the YAML model",
  "",
  "options:",
  "  -h, --help            show this help message and exit",
  "  --method \x7bsimplex,exact,interior\x7d",
  "                        Algorithm for continuous models; default from config",
  "  --presolve            Enable the presolver",
  "  --time-limit TIME_LIMIT",
  "                        Time limit in seconds; default from config",
  "  --print-every PRINT_EVERY",
  "                        Log branch-and-bound progress every N tree callbacks"]

def validateHelp : String := linesText [
  "usage: lpadapter validate [-h] model",
  "",
  "positional arguments:",
  "  model       Path to the YAML model",
  "",
  "options:",
  "  -h, --help  show this help message and exit"]

def infoHelp : String := linesText [
  "usage: lpadapter info [-h]",
  "",
  "options:",
  "  -h, --help  show this help message and exit"]

/-! ### Invocations -/

/-- How a model is to be solved, where that differs from the options. -/
structure SolveArguments where
  path : Option String := none
  method : Option String := none
  presolve : Bool := false
  /-- Seconds. -/
  timeLimit : Option Float := none
  printEvery : Option Int := none

inductive Action where
  | solve (path : String) (a : SolveArguments)
  | validate (path : String)
  | info

structure Invocation where
  /-- The file with the options. -/
  options : String := "configs/default.yaml"
  /-- Without one, only help is shown. -/
  action : Option Action := none

/-! ### Solve -/

inductive SolveKey where
  | help
  | method
  | presolve
  | timeLimit
  | printEvery
deriving DecidableEq, Repr

def solveGrammar : Grammar SolveKey where
  switches := [
    ⟨.help, ["-h", "--help"], false⟩,
    ⟨.method, ["--method"], true⟩,
    ⟨.presolve, ["--presolve"], false⟩,
    ⟨.timeLimit, ["--time-limit"], true⟩,
    ⟨.printEvery, ["--print-every"], true⟩]
  operand := .one

def methods : List String := ["simplex", "exact", "interior"]

/-- A value that can be read. -/
def required {β : Type} : Option β → Except Ending β
  | some b => .ok b
  | none => .error .misuse

def takeSolve (s : SolveArguments) : Argument SolveKey → Except Ending SolveArguments
  | .flag .presolve => .ok { s with presolve := true }
  | .flag _ => .error (.shown solveHelp)
  | .setting .method v =>
    if methods.contains v then .ok { s with method := some v } else .error .misuse
  | .setting .timeLimit v => do
    return { s with timeLimit := some (Value.ofNumeral (← required (Text.readNumeral? v))) }
  | .setting .printEvery v => do return { s with printEvery := some (← required (Text.readInt? v)) }
  | .operand path => .ok { s with path := some path }
  | _ => .error .misuse

/-- Nothing may be left over. -/
def readWhole {κ σ : Type} (g : Grammar κ) (take : σ → Argument κ → Except Ending σ) (start : σ)
    (words : List String) : Except Ending σ := do
  let (s, extra) ← g.read take start words
  if extra.isEmpty then return s else throw .misuse

def readSolve (words : List String) : Except Ending Action := do
  let s ← readWhole solveGrammar takeSolve {} words
  return .solve (← required s.path) s

/-! ### Commands with help as their only switch -/

def helpOnly (operand : Operand) : Grammar Unit := ⟨[⟨(), ["-h", "--help"], false⟩], operand⟩

def takePath (help : String) (_ : Option String) : Argument Unit → Except Ending (Option String)
  | .flag () => .error (.shown help)
  | .operand path => .ok (some path)
  | _ => .error .misuse

def readValidate (words : List String) : Except Ending Action := do
  let path ← readWhole (helpOnly .one) (takePath validateHelp) none words
  return .validate (← required path)

def readInfo (words : List String) : Except Ending Action := do
  let _ ← readWhole (helpOnly .nothing) (takePath infoHelp) none words
  return .info

/-! ### The whole command line -/

inductive MainKey where
  | help
  | options
deriving DecidableEq, Repr

def mainGrammar : Grammar MainKey where
  switches := [⟨.help, ["-h", "--help"], false⟩, ⟨.options, ["--config"], true⟩]
  operand := .command

def readAction : List String → Except Ending Action
  | "solve" :: words => readSolve words
  | "validate" :: words => readValidate words
  | "info" :: words => readInfo words
  | _ => .error .misuse

def takeMain (s : Invocation) : Argument MainKey → Except Ending Invocation
  | .flag _ => .error (.shown mainHelp)
  | .setting _ path => .ok { s with options := path }
  | .command words => do return { s with action := some (← readAction words) }
  | .operand _ => .error .misuse

def Invocation.read (words : List String) : Except Ending Invocation :=
  readWhole mainGrammar takeMain {} words

end MixedInteger.Command
