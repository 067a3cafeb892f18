import MixedInteger.Data.Value

/-! Parameter stores, one for each family of algorithms. A parameter is found by
its name in every store that has it, and a value is converted to the kind that
the parameter was declared with. The stores are written one after the other. -/

namespace MixedInteger

namespace Parameter

/-- No limit on time or iterations. -/
def unlimited : Int := 2147483647

/-! ### Message levels -/

def levelOff : Int := 0
def levelErrors : Int := 1
def levelNormal : Int := 2
def levelAll : Int := 3

/-- The parameters of an algorithm store have one of two kinds. -/
inductive Setting (α : Type) where
  | int (i : Int)
  | real (x : α)

inductive Access (S α : Type) where
  | int (get : S → Int) (set : S → Int → S)
  | real (get : S → α) (set : S → α → S)

structure Field (S α : Type) where
  name : String
  access : Access S α

def Field.read {S α : Type} (f : Field S α) (s : S) : Setting α :=
  match f.access with
  | .int get _ => .int (get s)
  | .real get _ => .real (get s)

variable (α : Type) [Scalar α]

structure Simplex where
  messageLevel : Int := levelAll
  timeLimit : Int := unlimited
  presolve : Int := 0
  method : Int := 1
  pricing : Int := 0x22
  ratioTest : Int := 0x22
  boundTolerance : α := Scalar.ofDecimal 1 (-7)
  dualTolerance : α := Scalar.ofDecimal 1 (-7)
  pivotTolerance : α := Scalar.ofDecimal 1 (-10)
  objectiveLower : α := -Scalar.largest
  objectiveUpper : α := Scalar.largest
  iterationLimit : Int := unlimited
  outputFrequency : Int := 500
  outputDelay : Int := 0

structure Interior where
  messageLevel : Int := levelAll
  ordering : Int := 2

structure Search where
  messageLevel : Int := levelAll
  timeLimit : Int := unlimited
  presolve : Int := 0
  branching : Int := 4
  backtracking : Int := 3
  integerTolerance : α := Scalar.ofDecimal 1 (-5)
  objectiveTolerance : α := Scalar.ofDecimal 1 (-7)
  outputFrequency : Int := 5000
  outputDelay : Int := 10000
  gap : α := 0
  preprocessing : Int := 2
  binarize : Int := 0
  feasibilityPump : Int := 0
  proximitySearch : Int := 0
  proximityLimit : Int := 60000
  simpleRounding : Int := 1
  useSolution : Int := 0
  gomoryCuts : Int := 0
  roundingCuts : Int := 0
  coverCuts : Int := 0
  cliqueCuts : Int := 0
  alien : Int := 0

variable {α}

def Simplex.fields : List (Field (Simplex α) α) := [
  ⟨"msg_lev", .int (·.messageLevel) fun s v => { s with messageLevel := v }⟩,
  ⟨"tm_lim", .int (·.timeLimit) fun s v => { s with timeLimit := v }⟩,
  ⟨"presolve", .int (·.presolve) fun s v => { s with presolve := v }⟩,
  ⟨"meth", .int (·.method) fun s v => { s with method := v }⟩,
  ⟨"pricing", .int (·.pricing) fun s v => { s with pricing := v }⟩,
  ⟨"r_test", .int (·.ratioTest) fun s v => { s with ratioTest := v }⟩,
  ⟨"tol_bnd", .real (·.boundTolerance) fun s v => { s with boundTolerance := v }⟩,
  ⟨"tol_dj", .real (·.dualTolerance) fun s v => { s with dualTolerance := v }⟩,
  ⟨"tol_piv", .real (·.pivotTolerance) fun s v => { s with pivotTolerance := v }⟩,
  ⟨"obj_ll", .real (·.objectiveLower) fun s v => { s with objectiveLower := v }⟩,
  ⟨"obj_ul", .real (·.objectiveUpper) fun s v => { s with objectiveUpper := v }⟩,
  ⟨"it_lim", .int (·.iterationLimit) fun s v => { s with iterationLimit := v }⟩,
  ⟨"out_frq", .int (·.outputFrequency) fun s v => { s with outputFrequency := v }⟩,
  ⟨"out_dly", .int (·.outputDelay) fun s v => { s with outputDelay := v }⟩]

def Interior.fields : List (Field Interior α) := [
  ⟨"msg_lev", .int (·.messageLevel) fun s v => { s with messageLevel := v }⟩,
  ⟨"ord_alg", .int (·.ordering) fun s v => { s with ordering := v }⟩]

def Search.fields : List (Field (Search α) α) := [
  ⟨"msg_lev", .int (·.messageLevel) fun s v => { s with messageLevel := v }⟩,
  ⟨"tm_lim", .int (·.timeLimit) fun s v => { s with timeLimit := v }⟩,
  ⟨"presolve", .int (·.presolve) fun s v => { s with presolve := v }⟩,
  ⟨"br_tech", .int (·.branching) fun s v => { s with branching := v }⟩,
  ⟨"bt_tech", .int (·.backtracking) fun s v => { s with backtracking := v }⟩,
  ⟨"tol_int", .real (·.integerTolerance) fun s v => { s with integerTolerance := v }⟩,
  ⟨"tol_obj", .real (·.objectiveTolerance) fun s v => { s with objectiveTolerance := v }⟩,
  ⟨"out_frq", .int (·.outputFrequency) fun s v => { s with outputFrequency := v }⟩,
  ⟨"out_dly", .int (·.outputDelay) fun s v => { s with outputDelay := v }⟩,
  ⟨"mip_gap", .real (·.gap) fun s v => { s with gap := v }⟩,
  ⟨"pp_tech", .int (·.preprocessing) fun s v => { s with preprocessing := v }⟩,
  ⟨"binarize", .int (·.binarize) fun s v => { s with binarize := v }⟩,
  ⟨"fp_heur", .int (·.feasibilityPump) fun s v => { s with feasibilityPump := v }⟩,
  ⟨"ps_heur", .int (·.proximitySearch) fun s v => { s with proximitySearch := v }⟩,
  ⟨"ps_tm_lim", .int (·.proximityLimit) fun s v => { s with proximityLimit := v }⟩,
  ⟨"sr_heur", .int (·.simpleRounding) fun s v => { s with simpleRounding := v }⟩,
  ⟨"use_sol", .int (·.useSolution) fun s v => { s with useSolution := v }⟩,
  ⟨"gmi_cuts", .int (·.gomoryCuts) fun s v => { s with gomoryCuts := v }⟩,
  ⟨"mir_cuts", .int (·.roundingCuts) fun s v => { s with roundingCuts := v }⟩,
  ⟨"cov_cuts", .int (·.coverCuts) fun s v => { s with coverCuts := v }⟩,
  ⟨"clq_cuts", .int (·.cliqueCuts) fun s v => { s with cliqueCuts := v }⟩,
  ⟨"alien", .int (·.alien) fun s v => { s with alien := v }⟩]

/-- Why a parameter is refused. -/
inductive OptionError (α : Type) where
  /-- Callbacks are not parameters. -/
  | reserved (key : String)
  | fraction (key : String) (value : Value α)
  | unknown (key : String) (value : Value α)
  | unreadable (key : String)
  | keyKind (key : Value α)

def OptionError.message : OptionError α → String
  | reserved key => "Invalid option: " ++ key ++ ". Use `Optimizer.set_callback` instead."
  | fraction key v => "Invalid option: " ++ key ++ " => " ++ v.shown ++ " (integer expected)"
  | unknown key v => "Invalid option: " ++ key ++ " => " ++ v.shown
  | unreadable key => "Unable to get parameter: " ++ key
  | keyKind v => "Raw parameter names must be strings, got " ++ v.written

inductive SetError (α : Type) where
  | option (e : OptionError α)
  | conversion (e : ConversionError)

/-- A real number given for an integer must be whole. -/
def wholeInt (key : String) (v : Value α) : Except (SetError α) Int :=
  match v.toInt with
  | .error e => .error (.conversion e)
  | .ok i => match v with
    | .real x => if x == Scalar.ofInt i then .ok i else .error (.option (.fraction key v))
    | _ => .ok i

/-- Writes a converted value into a field. -/
def Field.write {S : Type} (f : Field S α) (s : S) (v : Value α) : Except (SetError α) S :=
  match f.access with
  | .int _ set => (wholeInt f.name v).map (set s)
  | .real _ set => match v.toReal with
    | .ok x => .ok (set s x)
    | .error e => .error (.conversion e)

def reserved (key : String) : Bool := key == "cb_func" || key == "cb_info"

/-- Sets a field of a store; whether the store has such a field. -/
def assign {S : Type} (fields : List (Field S α)) (key : String) (v : Value α) :
    EStateM (SetError α) S Bool := do
  if reserved key then throw (.option (.reserved key))
  match fields.find? fun f => f.name == key with
  | none => return false
  | some f =>
    match f.write (← get) v with
    | .ok s => do
      set s
      return true
    | .error e => throw e

def read? {S : Type} (fields : List (Field S α)) (s : S) (key : String) : Option (Setting α) :=
  (fields.find? fun f => f.name == key).map fun f => f.read s

variable (α)

/-- The stores of an optimizer. -/
structure Stores where
  simplex : Simplex α := {}
  interior : Interior := {}
  search : Search α := {}

variable {α}

namespace Stores

variable {ε β : Type}

def inSimplex (f : EStateM ε (Simplex α) β) : EStateM ε (Stores α) β := fun s =>
  match f s.simplex with
  | .ok b simplex => .ok b { s with simplex := simplex }
  | .error e simplex => .error e { s with simplex := simplex }

def inInterior (f : EStateM ε Interior β) : EStateM ε (Stores α) β := fun s =>
  match f s.interior with
  | .ok b interior => .ok b { s with interior := interior }
  | .error e interior => .error e { s with interior := interior }

def inSearch (f : EStateM ε (Search α) β) : EStateM ε (Stores α) β := fun s =>
  match f s.search with
  | .ok b search => .ok b { s with search := search }
  | .error e search => .error e { s with search := search }

end Stores

/-- Sets a parameter in one store after the other. What an earlier store has taken stays when
a later one refuses. -/
def Stores.set (key : String) (v : Value α) : EStateM (SetError α) (Stores α) Unit := do
  let interior ← inInterior (assign Interior.fields key v)
  let search ← inSearch (assign Search.fields key v)
  let simplex ← inSimplex (assign Simplex.fields key v)
  unless interior || search || simplex do throw (.option (.unknown key v))

def Stores.get? (s : Stores α) (key : String) : Option (Setting α) :=
  (read? Simplex.fields s.simplex key).orElse fun _ =>
    (read? Search.fields s.search key).orElse fun _ =>
      read? Interior.fields s.interior key

end Parameter

end MixedInteger
