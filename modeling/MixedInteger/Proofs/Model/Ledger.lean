import MixedInteger.Proofs.Model.Call
import Mathlib.Logic.Function.Basic

/-! The meaning of a model, without columns and rows. A ledger keeps what was said about
each identity: the sets of a variable, the set and the terms of an affine constraint,
and the objective. An edit of a ledger either fails, or changes the records it is
about; deleting a variable erases its record and its terms. -/

namespace MixedInteger

variable {α : Type} [Scalar α]

/-! ### Records -/

/-- A type of a variable as a kind of set. -/
def TypeState.kind? : TypeState → Option Kind
  | continuous => none
  | binary => some .zeroOne
  | integer => some .integer

def ScalarSet.type? : ScalarSet α → Option TypeState
  | .zeroOne => some .binary
  | .integer => some .integer
  | _ => none

def ScalarSet.boundsBelow : ScalarSet α → Bool
  | .greaterThan _ | .equalTo _ | .interval .. => true
  | _ => false

def ScalarSet.boundsAbove : ScalarSet α → Bool
  | .lessThan _ | .equalTo _ | .interval .. => true
  | _ => false

/-- The sets that a variable lies in: those that bound it, as they were written last,
and a type. A set with two sides stands on both. -/
structure VariableRecord (α : Type) where
  below : Option (ScalarSet α) := none
  above : Option (ScalarSet α) := none
  type : TypeState := .continuous

namespace VariableRecord

def carries (r : VariableRecord α) (k : Kind) : Bool :=
  r.below.map (·.kind) = some k || r.above.map (·.kind) = some k || r.type.kind? = some k

/-- The set that is in the way of a new one. -/
def conflict? (r : VariableRecord α) (v : VariableIndex) (s : ScalarSet α) : Option BoundError :=
  match if s.boundsBelow then r.below else none with
  | some t => some (.lowerTaken v t.kind s.kind)
  | none => (if s.boundsAbove then r.above else none).map fun t => .upperTaken v t.kind s.kind

def write (r : VariableRecord α) (s : ScalarSet α) : VariableRecord α :=
  { r with
    below := if s.boundsBelow then some s else r.below
    above := if s.boundsAbove then some s else r.above }

/-- The record without the set of a kind. -/
def release (r : VariableRecord α) (k : Kind) : VariableRecord α where
  below := r.below.filter fun s => s.kind ≠ k
  above := r.above.filter fun s => s.kind ≠ k
  type := if r.type.kind? = some k then .continuous else r.type

/-- The set of a kind as it was written last; a type has nothing written. -/
def set (r : VariableRecord α) (k : Kind) : ScalarSet α :=
  ((r.below.filter fun s => s.kind = k).or (r.above.filter fun s => s.kind = k)).getD
    (if k = .zeroOne then .zeroOne else .integer)

end VariableRecord

/-- The coefficients of the variables that occur. -/
abbrev Terms (α : Type) := VariableIndex → Option α

structure AffineRecord (α : Type) where
  set : ScalarSet α
  term : Terms α

structure Ledger (α : Type) [Scalar α] where
  /-- The last identity of a variable. -/
  lastVariable : Nat := 0
  vars : VariableIndex → Option (VariableRecord α) := fun _ => none
  /-- The last identity of an affine constraint. -/
  lastAffine : Nat := 0
  affine : Int → Option (AffineRecord α) := fun _ => none
  cost : Terms α := fun _ => none
  constant : α := 0
  objectiveKind : ObjectiveKind := .scalarAffine

namespace Ledger

/-! ### Queries -/

def invalid {β : Type} (i : IndexArg α) : Except (Fault α) β := .error (.model (.invalidIndex i))

/-- The variable of an index, or of a constraint on a single variable. -/
def owner (L : Ledger α) (i : IndexArg α) :
    Except (Fault α) (VariableIndex × VariableRecord α) :=
  let v? : Option VariableIndex := match i with
    | .var v => some v
    | .constraint c => if c.function = .singleVariable then some ⟨c.value⟩ else none
    | .raw _ => none
  match v?.bind fun v => (L.vars v).map fun r => (v, r) with
  | some e => .ok e
  | none => invalid i

/-- The record behind a constraint on a single variable. -/
def single (L : Ledger α) (c : ConstraintIndex) : Except (Fault α) (VariableRecord α) :=
  match (L.vars ⟨c.value⟩).filter fun r => r.carries c.set with
  | some r => .ok r
  | none => invalid (.constraint c)

def affineOf (L : Ledger α) (c : ConstraintIndex) : Except (Fault α) (AffineRecord α) :=
  match (if c.function = .scalarAffine then L.affine c.value else none).filter
      fun r => r.set.kind = c.set with
  | some r => .ok r
  | none => invalid (.constraint c)

def isValid (L : Ledger α) : IndexArg α → Bool
  | .var v => (L.vars v).isSome
  | .constraint c =>
    match c.function with
    | .singleVariable => (L.vars ⟨c.value⟩).any fun r => r.carries c.set
    | .scalarAffine => (L.affine c.value).any fun r => r.set.kind = c.set
    | _ => false
  | .raw _ => false

/-- The identities from one to the last that are live. -/
def identities (last : Nat) (live : Nat → Bool) : List Nat :=
  ((List.range last).map (· + 1)).filter live

def variableIndices (L : Ledger α) : List VariableIndex :=
  (identities L.lastVariable fun k => (L.vars ⟨k⟩).isSome).map fun (k : Nat) => ⟨k⟩

def constraintIndices (L : Ledger α) (function set : Kind) : List ConstraintIndex :=
  let keys : List Nat := match function with
    | .singleVariable =>
      identities L.lastVariable fun k => (L.vars ⟨k⟩).any fun r => r.carries set
    | .scalarAffine =>
      identities L.lastAffine fun k => (L.affine k).any fun r => r.set.kind = set
    | _ => []
  keys.map fun (k : Nat) => ⟨function, set, k⟩

/-- The pairs of kinds that occur, by name. -/
def constraintTypes (L : Ledger α) : List (Kind × Kind) :=
  Model.constraintKinds.filter fun e => !(L.constraintIndices e.1 e.2).isEmpty

/-- Terms by identity. -/
def list (L : Ledger α) (t : Terms α) : List (Term α) :=
  L.variableIndices.filterMap fun v => (t v).map fun x => ⟨x, v⟩

def constraintFunction (L : Ledger α) (i : IndexArg α) : Except (Fault α) (Function α) := do
  let c ← i.constraint?
  if c.function = .singleVariable then
    let _ ← L.single c
    return .single ⟨c.value⟩
  else return .affine ⟨L.list (← L.affineOf c).term, 0⟩

def constraintSet (L : Ledger α) (i : IndexArg α) : Except (Fault α) (ScalarSet α) := do
  let c ← i.constraint?
  if c.function = .singleVariable then return (← L.single c).set c.set
  else return (← L.affineOf c).set

/-- A single variable is answered as such when it was set as such. -/
def objective (L : Ledger α) : Function α :=
  let f : AffineFunction α := ⟨L.list L.cost, L.constant⟩
  match L.objectiveKind, f.terms with
  | .singleVariable, [t] =>
    if t.coefficient == 1 && f.constant == 0 then .single t.var else .affine f
  | _, _ => .affine f

/-! ### Edits -/

/-- A function may name live variables only. -/
def checkTerms (L : Ledger α) (ts : List (Term α)) : Except (Fault α) Unit :=
  match ts.find? fun t => (L.vars t.var).isNone with
  | some t => invalid (.var t.var)
  | none => .ok ()

def setVariable (L : Ledger α) (v : VariableIndex) (r : VariableRecord α) : Ledger α :=
  { L with vars := Function.update L.vars v (some r) }

def setAffine (L : Ledger α) (k : Int) (r : AffineRecord α) : Ledger α :=
  { L with affine := Function.update L.affine k (some r) }

def addVariables (L : Ledger α) (n : Nat) : Ledger α :=
  { L with
    lastVariable := L.lastVariable + n
    vars := fun v =>
      if L.lastVariable < v.value ∧ v.value ≤ L.lastVariable + n then some {} else L.vars v }

def addSingle (L : Ledger α) (v : VariableIndex) (s : ScalarSet α) :
    Except (Fault α) (ConstraintIndex × Ledger α) := do
  let (v, r) ← L.owner (.var v)
  let c : ConstraintIndex := ⟨.singleVariable, s.kind, v.value⟩
  match s.type? with
  | some t =>
    if r.type ≠ .continuous then .error (.model (.typeTaken v r.type))
    else return (c, L.setVariable v { r with type := t })
  | none =>
    match r.conflict? v s with
    | some e => .error (.bound e)
    | none => return (c, L.setVariable v (r.write s))

def addAffine (L : Ledger α) (f : AffineFunction α) (s : ScalarSet α) :
    Except (Fault α) (ConstraintIndex × Ledger α) := do
  if !(f.constant == 0) then .error (.model (.constantNotZero f.constant))
  else
    L.checkTerms f.canonical.terms
    return (⟨.scalarAffine, s.kind, (L.lastAffine + 1 : Nat)⟩,
      { L.setAffine (L.lastAffine + 1 : Nat) ⟨s, f.term?⟩ with lastAffine := L.lastAffine + 1 })

def addConstraint (L : Ledger α) (f : FunctionArg α) (s : SetArg α) :
    Except (Fault α) (ConstraintIndex × Ledger α) :=
  match f, s with
  | .var v, .set s | .single v, .set s => L.addSingle v s
  | .affine f, .set s =>
    if s.isRow then L.addAffine f s
    else .error (.model (.unsupportedConstraint .scalarAffine s.kind))
  | .var _, s | .single _, s => .error (.model (.unsupportedConstraint .singleVariable s.kind))
  | f, s => .error (.model (.unsupportedConstraint f.kind s.kind))

/-- Erases the record of a variable and its terms, and nothing else. -/
def eraseVariable (L : Ledger α) (v : VariableIndex) : Ledger α :=
  { L with
    vars := Function.update L.vars v none
    affine := fun k =>
      (L.affine k).map fun r => { r with term := Function.update r.term v none }
    cost := Function.update L.cost v none }

def delete (L : Ledger α) (i : IndexArg α) : Except (Fault α) (Ledger α) :=
  match i with
  | .var v => do
    let _ ← L.owner (.var v)
    return L.eraseVariable v
  | .constraint c =>
    match c.function with
    | .singleVariable => do
      let r ← L.single c
      return L.setVariable ⟨c.value⟩ (r.release c.set)
    | .scalarAffine => do
      let _ ← L.affineOf c
      return { L with affine := Function.update L.affine c.value none }
    | _ => invalid i
  | .raw _ => invalid i

def setConstraintSet (L : Ledger α) (i : IndexArg α) (s : SetArg α) :
    Except (Fault α) (Ledger α) := do
  let c ← i.constraint?
  if s.kind ≠ c.set then .error (.model (.setKind s.kind c.set))
  else if c.function = .singleVariable then
    let r ← L.single c
    match s with
    | .set s => return L.setVariable ⟨c.value⟩ (r.write s)
    | .raw _ => return L
  else
    let r ← L.affineOf c
    match s with
    | .set s => return L.setAffine c.value { r with set := s }
    | .raw _ => return L

def setConstraintFunction (L : Ledger α) (i : IndexArg α) (f : FunctionArg α) :
    Except (Fault α) (Ledger α) := do
  let c ← i.constraint?
  if c.function = .singleVariable then .error (.model .singleFunction)
  else
    match f with
    | .affine f =>
      if !(f.constant == 0) then .error (.model (.constantNotZero f.constant))
      else
        let r ← L.affineOf c
        L.checkTerms f.canonical.terms
        return L.setAffine c.value { r with term := f.term? }
    | _ => .error .missingPart

def modifyCoefficient (L : Ledger α) (i v : IndexArg α) (x : α) :
    Except (Fault α) (Ledger α) := do
  let c ← i.constraint?
  let r ← L.affineOf c
  let (v, _) ← L.owner v
  return L.setAffine c.value { r with term := Function.update r.term v (nonzero? x) }

def setAffineObjective (L : Ledger α) (kind : ObjectiveKind) (f : AffineFunction α) :
    Except (Fault α) (Ledger α) := do
  L.checkTerms f.terms
  return { L with cost := f.term?, constant := f.constant, objectiveKind := kind }

def setObjective (L : Ledger α) : FunctionArg α → Except (Fault α) (Ledger α)
  | .var v | .single v => L.setAffineObjective .singleVariable ⟨[⟨1, v⟩], 0⟩
  | .affine f => L.setAffineObjective .scalarAffine f
  | f => .error (.unsupported (.objective f.kind.name))

def modifyObjectiveCoefficient (L : Ledger α) (v : IndexArg α) (x : α) :
    Except (Fault α) (Ledger α) := do
  let (v, _) ← L.owner v
  return { L with cost := Function.update L.cost v (nonzero? x) }

/-- An edit of the ledger: an answer with the new ledger, or a fault. -/
def run (L : Ledger α) : Edit α → Except (Fault α) (Reply × Ledger α)
  | .addVariable => .ok (.newVariable ⟨(L.lastVariable + 1 : Nat)⟩, L.addVariables 1)
  | .addVariables n =>
    .ok (.newVariables ((List.range n.toNat).map fun i => ⟨(L.lastVariable + 1 + i : Nat)⟩),
      L.addVariables n.toNat)
  | .addConstraint f s => (L.addConstraint f s).map fun e => (.newConstraint e.1, e.2)
  | .delete i => (L.delete i).map (.done, ·)
  | .setConstraintSet i s => (L.setConstraintSet i s).map (.done, ·)
  | .setConstraintFunction i f => (L.setConstraintFunction i f).map (.done, ·)
  | .modifyCoefficient i v x => (L.modifyCoefficient i v x).map (.done, ·)
  | .setObjective f => (L.setObjective f).map (.done, ·)
  | .modifyObjectiveCoefficient v x => (L.modifyObjectiveCoefficient v x).map (.done, ·)
  | .modifyObjectiveConstant x => .ok (.done, { L with constant := x })

/-- The answers to a history of edits, and the ledger after it. A fault changes nothing. -/
def runAll : List (Edit α) → Ledger α → List (Except (Fault α) Reply) × Ledger α
  | [], L => ([], L)
  | e :: es, L =>
    match L.run e with
    | .ok (a, L') => (.ok a :: (runAll es L').1, (runAll es L').2)
    | .error f => (.error f :: (runAll es L).1, (runAll es L).2)

end Ledger

end MixedInteger
