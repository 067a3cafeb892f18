import MixedInteger.Model.Variable

/-! Constraints of a model: bounds and types of single variables, and rows. -/

namespace MixedInteger

variable {α : Type} [Scalar α]

/-- The sense and right-hand side of a set that bounds a row. -/
def SetArg.sense : SetArg α → Except (Fault α) (RowSense × α)
  | .set (.lessThan u) => .ok (.atMost, u)
  | .set (.greaterThan l) => .ok (.atLeast, l)
  | .set (.equalTo v) => .ok (.equal, v)
  | s => .error (.model (.noSingleSense s))

/-- Sets that a row can lie in. -/
def ScalarSet.isRow : ScalarSet α → Bool
  | .lessThan _ | .greaterThan _ | .equalTo _ => true
  | _ => false

namespace Modelling

/-! ### Sets -/

/-- A set replaces one of its own kind. -/
def setConstraintSet (i : IndexArg α) (s : SetArg α) : Modelling α Unit := do
  let c ← ofExcept i.constraint?
  if s.kind ≠ c.set then throw (.model (.setKind s.kind c.set))
  if c.function = .singleVariable then
    let info ← query (·.liveInfo c)
    match s.bounds with
    | .ok change => setVariableBound info.column change
    | .error _ => pure ()
  else
    let info ← query (·.affineInfo c)
    let (sense, rhs) ← ofExcept s.sense
    editRow (Problem.setRowSense info.row sense rhs)
    match s with
    | .set new => modify fun m =>
        { m with affine := m.affine.modify c.value fun info => { info with set := new } }
    | .raw _ => pure ()

/-! ### Adding -/

def addBoundConstraint (v : VariableIndex) (s : ScalarSet α) : Modelling α ConstraintIndex := do
  let info ← query (·.info (.var v))
  match info.addBound s.kind with
  | .error e => throw (.bound e)
  | .ok b =>
    modifyInfo v.value fun info => { info with bound := b }
    let c : ConstraintIndex := ⟨.singleVariable, s.kind, v.value⟩
    setConstraintSet (.constraint c) (.set s)
    return c

/-- The column becomes an integer one; the box of a binary is left for the solve. -/
def addTypeConstraint (v : VariableIndex) (t : TypeState) (kind : Kind) :
    Modelling α ConstraintIndex := do
  let info ← query (·.info (.var v))
  if info.type ≠ .continuous then throw (.model (.typeTaken v info.type))
  change fun p => p.setColumnKind info.column .integer
  modifyInfo v.value fun info => { info with type := t }
  count t 1
  return ⟨.singleVariable, kind, v.value⟩

def addAffineConstraint (f : AffineFunction α) (s : ScalarSet α) :
    Modelling α ConstraintIndex := do
  if !(f.constant == 0) then throw (.model (.constantNotZero f.constant))
  let (columns, values) ← query (·.rowOf f)
  let m ← get
  let (affine, key) := m.affine.add ⟨m.affine.size + 1, s, ""⟩
  set { m with affine := affine }
  let (sense, rhs) ← ofExcept (SetArg.sense (.set s))
  let _ ← editRow (Problem.addAffineRow columns values sense rhs)
  return ⟨.scalarAffine, s.kind, key⟩

/-- A variable on its own stands for the function of that variable. -/
def addConstraint (f : FunctionArg α) (s : SetArg α) : Modelling α ConstraintIndex :=
  let single (v : VariableIndex) : Modelling α ConstraintIndex :=
    match s with
    | .set .zeroOne => addTypeConstraint v .binary .zeroOne
    | .set .integer => addTypeConstraint v .integer .integer
    | .set bound => addBoundConstraint v bound
    | .raw _ => throw (.model (.unsupportedConstraint .singleVariable s.kind))
  match f, s with
  | .var v, _ => single v
  | .single v, _ => single v
  | .affine f, .set set =>
    if set.isRow then addAffineConstraint f set
    else throw (.model (.unsupportedConstraint .scalarAffine set.kind))
  | f, s => throw (.model (.unsupportedConstraint f.kind s.kind))

def addConstraints (fs : List (FunctionArg α)) (ss : List (SetArg α)) :
    Modelling α (List ConstraintIndex) := do
  if fs.length ≠ ss.length then throw (.model .lengths)
  (fs.zip ss).mapM fun e => addConstraint e.1 e.2

/-! ### Deleting -/

def renameConstraint (old new : String) (c : ConstraintIndex) : Modelling α Unit :=
  modify fun m => { m with constraintNames := m.constraintNames.update old new c }

def deleteSingleConstraint (c : ConstraintIndex) : Modelling α Unit := do
  let info ← query (·.liveInfo c)
  if c.set.isBound then
    match info.bound.remove c.set with
    | .error e => throw (.bound e)
    | .ok (b, change) =>
      modifyInfo c.value fun info => { info with bound := b }
      setVariableBound info.column change
  else
    change fun p => p.setColumnKind info.column .continuous
    count info.type (-1)
    modifyInfo c.value fun info => { info with type := .continuous }
  match NameSlot.ofKind? c.set with
  | none => throw .missingKey
  | some slot =>
    renameConstraint (slot.get info) "" c
    modifyInfo c.value (slot.set "")

/-- The rows after the deleted one move up. -/
def deleteAffineConstraint (c : ConstraintIndex) : Modelling α Unit := do
  let info ← query (·.affineInfo c)
  modify fun m => { m with problem := m.problem.forgetBasis }
  change fun p => p.deleteRows [(info.row : Int)]
  if info.name ≠ "" then
    modify fun m => { m with constraintNames := m.constraintNames.invalidate }
  modify fun m =>
    match m.affine.delete? c.value with
    | none => m
    | some (rest, _) =>
      let close (other : ConstraintInfo α) : ConstraintInfo α :=
        if info.row < other.row then { other with row := other.row - 1 } else other
      { m with affine := rest.mapValues close }

/-- Deletes a variable or a constraint. -/
def delete (i : IndexArg α) : Modelling α Unit :=
  match i with
  | .var v => deleteVariable v
  | .constraint c =>
    match c.function with
    | .singleVariable => deleteSingleConstraint c
    | .scalarAffine => deleteAffineConstraint c
    | _ => throw (.model (.invalidIndex i))
  | .raw _ => throw (.model (.invalidIndex i))

/-! ### Functions -/

def setConstraintFunction (i : IndexArg α) (f : FunctionArg α) : Modelling α Unit := do
  let c ← ofExcept i.constraint?
  if c.function = .singleVariable then throw (.model .singleFunction)
  match f with
  | .affine f =>
    if !(f.constant == 0) then throw (.model (.constantNotZero f.constant))
    let info ← query (·.affineInfo c)
    let (columns, values) ← query (·.rowOf f)
    change fun p => p.setMatrixRow info.row columns values
  | _ => throw .missingPart

/-- Replaces the coefficient in a column or appends it. -/
def replaceCoef (column : Nat) (value : α) : List (Nat × α) → List (Nat × α)
  | [] => [(column, value)]
  | e :: es => if e.1 = column then (column, value) :: es else e :: replaceCoef column value es

def modifyCoefficient (i v : IndexArg α) (value : α) : Modelling α Unit := do
  let c ← ofExcept i.constraint?
  let row ← query (·.affineInfo c)
  let info ← query (·.info v)
  let m ← get
  match m.problem.matrixRow row.row with
  | .error e => throw (.problem e)
  | .ok entries =>
    let entries := replaceCoef info.column value entries
    change fun p => p.setMatrixRow row.row (entries.map fun e => (e.1 : Int)) (entries.map (·.2))

/-! ### Names -/

def setConstraintName (i : IndexArg α) (name : String) : Modelling α Unit := do
  let c ← ofExcept i.constraint?
  if c.function = .singleVariable then
    let info ← query (·.liveInfo c)
    match NameSlot.ofKind? c.set with
    | none => throw .missingKey
    | some slot =>
      modifyInfo c.value (slot.set name)
      renameConstraint (slot.get info) name c
  else
    let info ← query (·.affineInfo c)
    modify fun m =>
      { m with affine := m.affine.modify c.value fun info => { info with name := name } }
    if name ≠ "" then change fun p => p.setRowName info.row name
    renameConstraint info.name name c

/-- The named constraints on a variable; a name whose constraint is gone is a fault. -/
def namedSlots (v : Nat) (info : VariableInfo) :
    List (Except (Fault α) (String × ConstraintIndex)) :=
  [NameSlot.upper, NameSlot.lower, NameSlot.type].filterMap fun slot =>
    if slot.get info = "" then none
    else match info.slotKind slot with
      | some kind => some (.ok (slot.get info, ⟨.singleVariable, kind, v⟩))
      | none => some (.error (.staleName (slot.get info) ⟨v⟩))

def scanConstraintNames (m : Model α) : List (Except (Fault α) (String × ConstraintIndex)) :=
  (m.affine.entries.map fun e => .ok (e.2.name, ⟨.scalarAffine, e.2.set.kind, e.1⟩)) ++
    m.vars.entries.flatMap fun e => namedSlots e.1 e.2

/-- What comes before the first fault of a scan, and this fault. -/
def untilFault {β : Type} : List (Except (Fault α) β) → List β × Option (Fault α)
  | [] => ([], none)
  | .ok b :: rest => (b :: (untilFault rest).1, (untilFault rest).2)
  | .error e :: _ => ([], some e)

/-- Nothing also when the constraint of that name has other kinds. A scan that fails
leaves the index unbuilt, unless a name that occurs twice is met before. -/
def constraintByName (name : String) (kinds : Option (Kind × Kind)) :
    Modelling α (Option ConstraintIndex) := do
  let m ← get
  let (scan, fault) := untilFault (scanConstraintNames m)
  let (found, names) := m.constraintNames.lookup scan name
  match found, if m.constraintNames.built then none else fault with
  | .error d, _ =>
    set { m with constraintNames := names }
    throw (.duplicate d)
  | .ok _, some e => throw e
  | .ok c, none =>
    set { m with constraintNames := names }
    return c.filter fun c => kinds.all fun k => k = (c.function, c.set)

end Modelling

namespace Model

def constraintSet (m : Model α) (i : IndexArg α) : Except (Fault α) (ScalarSet α) := do
  let c ← i.constraint?
  if c.function = .singleVariable then
    let info ← m.liveInfo c
    let column ← (m.problem.column info.column).mapError .problem
    return match c.set with
      | .lessThan => .lessThan column.upper
      | .greaterThan => .greaterThan column.lower
      | .equalTo => .equalTo column.lower
      | .interval => .interval column.lower column.upper
      | .zeroOne => .zeroOne
      | _ => .integer
  else
    let info ← m.affineInfo c
    let row ← (m.problem.row info.row).mapError .problem
    let value := if row.bound.hasLower then row.lower else row.upper
    return match c.set with
      | .greaterThan => .greaterThan value
      | .equalTo => .equalTo value
      | _ => .lessThan value

def constraintFunction (m : Model α) (i : IndexArg α) : Except (Fault α) (Function α) := do
  let c ← i.constraint?
  if c.function = .singleVariable then
    let _ ← m.liveInfo c
    return .single ⟨c.value⟩
  else
    let info ← m.affineInfo c
    let entries ← (m.problem.matrixRow info.row).mapError .problem
    let kept := entries.filter fun e => !(e.2 == 0)
    return .affine ⟨kept.map fun e => ⟨e.2, m.variableOf e.1⟩, 0⟩

def constraintName (m : Model α) (i : IndexArg α) : Except (Fault α) String := do
  let c ← i.constraint?
  if c.function = .singleVariable then
    let info ← m.liveInfo c
    return ((NameSlot.ofKind? c.set).map fun slot => slot.get info).getD ""
  else return (← m.affineInfo c).name

/-! ### Lists -/

/-- The live constraints of two kinds by identity. -/
def constraintIndices (m : Model α) (function set : Kind) : List ConstraintIndex :=
  let keys : List Nat := match function with
    | .singleVariable =>
      (m.vars.entries.filter fun e => e.2.carries set).map (·.1)
    | .scalarAffine =>
      (m.affine.entries.filter fun e => e.2.set.kind = set).map (·.1)
    | _ => []
  (keys.mergeSort (· ≤ ·)).map fun (k : Nat) => ⟨function, set, k⟩

/-- All pairs of kinds by name. -/
def constraintKinds : List (Kind × Kind) :=
  let sets : List Kind := [.equalTo, .greaterThan, .integer, .interval, .lessThan, .zeroOne]
  [Kind.scalarAffine, Kind.singleVariable].flatMap fun f => sets.map fun s => (f, s)

/-- The pairs of kinds that occur, by name. -/
def constraintTypes (m : Model α) : List (Kind × Kind) :=
  constraintKinds.filter fun e => !(m.constraintIndices e.1 e.2).isEmpty

def allConstraints (m : Model α) : List ConstraintIndex :=
  m.constraintTypes.flatMap fun e => m.constraintIndices e.1 e.2

end Model

end MixedInteger
