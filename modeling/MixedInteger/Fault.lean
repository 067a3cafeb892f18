import MixedInteger.Formula.Basic
import MixedInteger.Job.Directory
import MixedInteger.Markup.Token
import MixedInteger.Model.Bound
import MixedInteger.Model.NameIndex
import MixedInteger.Parameter.Store
import MixedInteger.Problem.Edit
import MixedInteger.Solver.Request

/-! Everything that can go wrong, by cause. -/

namespace MixedInteger

inductive SearchError where
  | inactiveNode (number : Int)
  | backtracking (technique : Int)
deriving DecidableEq, Repr

def SearchError.message : SearchError → String
  | inactiveNode n => s!"node_bound: node {n} is not active"
  | backtracking t => s!"invalid backtracking technique bt_tech = {t}"

/-- Queries that are refused, with the reason. -/
inductive Unsupported where
  | dualAfterSearch
  | dualOfType (kind : Kind)
  | basisOfType (kind : Kind)
  | gapWithoutSearch
  | objective (kindName : String)

def Unsupported.message : Unsupported → String
  | dualAfterSearch => text "ConstraintDual" "no dual solution after a mixed-integer solve"
  | dualOfType k => text "ConstraintDual" (k.name ++ " constraints have no dual")
  | basisOfType k => text "ConstraintBasisStatus" (k.name ++ " constraints")
  | gapWithoutSearch => text "RelativeGap" "only available after a mixed-integer solve"
  | objective k => text "ObjectiveFunction" (k ++ " objectives")
where
  text (what detail : String) : String :=
    "Attribute " ++ what ++ " is not supported: " ++ detail

/-- Misuse of the data that a callback is handed. -/
inductive CallbackError where
  /-- Relaxation values can be read at row generation only. -/
  | primalReason
  | lazySet (kind : Kind)
  | expired

def CallbackError.message : CallbackError → String
  | primalReason => "callback_variable_primal can only be called when the reason is IROWGEN."
  | lazySet k => "lazy constraints must be LessThan, GreaterThan or EqualTo, got " ++ k.name
  | expired => "Callback data used outside the callback it was passed to."

/-- Modelling calls that contradict the model. -/
inductive ModelError (α : Type) where
  | invalidIndex (index : IndexArg α)
  | constantNotZero (constant : α)
  | singleFunction
  | typeTaken (v : VariableIndex) (existing : TypeState)
  | unsupportedConstraint (function set : Kind)
  | setKind (given expected : Kind)
  | noSingleSense (set : SetArg α)
  | lengths
  | rowBasis (code : Int)
  | columnBasis (code : Int)

variable {α : Type} [Scalar α]

def ModelError.message : ModelError α → String
  | invalidIndex i => "Invalid index " ++ i.written ++ ": it does not exist or has been deleted."
  | constantNotZero c => "Constant in scalar function must be zero, got " ++ Scalar.text c ++
      "; move it to the set instead."
  | singleFunction => "Cannot set the function of a single-variable constraint."
  | typeTaken v t => v.written ++ " already carries a " ++
      (match t with
        | .binary => "binary" | .integer => "integer" | .continuous => "continuous") ++
      " type constraint."
  | unsupportedConstraint f s => "Constraints of type " ++ f.name ++ "-in-" ++ s.name ++
      " are not supported."
  | setKind g e => "cannot set " ++ g.name ++ " on a " ++ e.name ++ " constraint"
  | noSingleSense s => "set " ++ s.written ++ " has no single sense"
  | lengths => "functions and sets have different lengths"
  | rowBasis c => s!"row basis status {c} isn't defined"
  | columnBasis c => s!"column basis status {c} isn't defined"

/-- Where a description of a model is at fault. -/
inductive Place (α : Type) where
  | constraint (label : Value α)
  | objective

/-- Descriptions that describe no model. -/
inductive FormatError (α : Type) where
  | suffix (s : String)
  | topLevel
  | variableEntry (i : Nat)
  | declaredTwice (name : String)
  | unknownType (name type : String)
  | constraintEntry (i : Nat)
  | unknownSense (place : Place α) (sense : String)
  | unknownVariable (place : Place α) (name : Value α)
  | objectiveSense (sense : String)

def Place.text : Place α → String
  | constraint label => "constraint " ++ label.shown
  | objective => "objective"

def FormatError.message : FormatError α → String
  | suffix s => "Unsupported model format '" ++ s ++ "'. Please provide a YAML file."
  | topLevel => "Top-level YAML document must be a mapping"
  | variableEntry i => s!"variable #{i}: expected a mapping with a 'name'"
  | declaredTwice n => "variable " ++ Text.quoted n ++ " is declared twice"
  | unknownType n t => "variable " ++ Text.quoted n ++ ": unknown type " ++ Text.quoted t
  | constraintEntry i => s!"constraint #{i}: expected a mapping"
  | unknownSense p s => p.text ++ ": unknown sense " ++ Text.quoted s
  | unknownVariable p v => p.text ++ ": unknown variable " ++ v.written
  | objectiveSense s => "unknown objective sense " ++ Text.quoted s

/-- Options that cannot be taken. -/
inductive OptionsError where
  /-- A parameter with a formula that has no value. -/
  | parameter (key text : String) (why : FormulaError)
  | suffix (s : String)
  | topLevel

def OptionsError.message? : OptionsError → Option String
  | parameter key text why => why.message?.map fun m =>
      "cannot evaluate parameter " ++ key ++ "=" ++ Text.quoted text ++ ": " ++ m
  | suffix s => some ("Unsupported config format '" ++ s ++ "'. Please provide a YAML file.")
  | topLevel => some "Top-level YAML document must be a mapping"

/-- Algebraic models that cannot be taken over. -/
inductive ImportError where
  | notLinear (what name : String)
  | objectives (model : String) (count : Nat)

def ImportError.message : ImportError → String
  | notLinear what name => what ++ " " ++ name ++ " is not linear"
  | objectives m n => "model " ++ m ++ s!" has {n} active objectives"

inductive Fault (α : Type) where
  | problem (e : ProblemError α)
  | affineRow (e : AffineRowError α)
  | bound (e : BoundError)
  | duplicate (d : DuplicateName)
  /-- The name of a constraint on a variable that no longer is there. -/
  | staleName (name : String) (v : VariableIndex)
  | model (e : ModelError α)
  | unsupported (e : Unsupported)
  | callback (e : CallbackError)
  | option (e : Parameter.OptionError α)
  | search (e : SearchError)
  | solver (e : SolverError)
  | rounding (e : RoundingError)
  | conversion (e : ConversionError)
  | formula (e : FormulaError)
  | options (e : OptionsError)
  | format (e : FormatError α)
  | notImported (e : ImportError)
  | file (e : FileError)
  | markup (e : Markup.MarkupError)
  /-- Raised by a callback. -/
  | raised (text : String)
  /-- Something without the part that is asked for. -/
  | missingPart
  /-- Something of a kind that does not fit. -/
  | wrongKind
  | missingKey
  | pastEnd
  | unknownWord
  /-- More steps than were allowed. -/
  | unfinished

namespace Fault

/-- The text that a caller is shown, for causes that have one. -/
def message? : Fault α → Option String
  | problem e => some e.message
  | affineRow e => some e.message
  | bound e => some e.message
  | duplicate d => some d.message
  | staleName n v => some ("stale constraint name " ++ Text.quoted n ++ " on " ++ v.written)
  | model e => some e.message
  | unsupported e => some e.message
  | callback e => some e.message
  | option e => some e.message
  | search e => some e.message
  | formula e => e.message?
  | options e => e.message?
  | format e => some e.message
  | notImported e => some e.message
  | raised s => some s
  | _ => none

/-- Is this a fault of a model's description, rather than of the data in it? -/
def isOfModel : Fault α → Bool
  | bound (.lowerTaken ..) | bound (.upperTaken ..) => true
  | model (.setKind ..) | model (.noSingleSense _) | model .lengths => false
  | model (.rowBasis _) | model (.columnBasis _) => false
  | duplicate _ | model _ | unsupported _ | callback _ | option _ | format _ => true
  | _ => false

def ofSet : Parameter.SetError α → Fault α
  | .option e => option e
  | .conversion e => conversion e

end Fault

end MixedInteger
