import MixedInteger.Number.Scalar

/-! A linear problem with integer columns. Columns and rows are numbered from
one without gaps; a row lists the columns in which it has a coefficient. A
missing bound is an infinity. Solutions are kept beside the data, one for each
family of algorithms. -/

namespace MixedInteger

/-- Which of the two bounds count. -/
inductive BoundKind where
  | free
  | lower
  | upper
  | double
  | fixed
deriving DecidableEq, Repr

inductive ColumnKind where
  | continuous
  | integer
deriving DecidableEq, Repr

inductive Direction where
  | minimize
  | maximize
deriving DecidableEq, Repr

/-- Where a column or row stands in a basis; codes without a meaning are kept. -/
inductive BasisStatus where
  | basic
  | atLower
  | atUpper
  | free
  | fixed
  | other (code : Int)
deriving DecidableEq, Repr

/-- What is known of a stored solution; codes without a meaning are kept. -/
inductive SolutionStatus where
  | undefined
  | feasible
  | infeasible
  | noFeasible
  | optimal
  | unbounded
  | other (code : Int)
deriving DecidableEq, Repr

/-! ### Codes -/

def BoundKind.code : BoundKind → Int
  | free => 1
  | lower => 2
  | upper => 3
  | double => 4
  | fixed => 5

def BoundKind.ofCode? (c : Int) : Option BoundKind :=
  if c = 1 then some free else if c = 2 then some lower else if c = 3 then some upper
  else if c = 4 then some double else if c = 5 then some fixed else none

def ColumnKind.code : ColumnKind → Int
  | continuous => 1
  | integer => 2

def ColumnKind.ofCode? (c : Int) : Option ColumnKind :=
  if c = 1 then some continuous else if c = 2 then some integer else none

def Direction.code : Direction → Int
  | minimize => 1
  | maximize => 2

def Direction.ofCode? (c : Int) : Option Direction :=
  if c = 1 then some minimize else if c = 2 then some maximize else none

def BasisStatus.code : BasisStatus → Int
  | basic => 1
  | atLower => 2
  | atUpper => 3
  | free => 4
  | fixed => 5
  | other c => c

def BasisStatus.ofCode (c : Int) : BasisStatus :=
  if c = 1 then basic else if c = 2 then atLower else if c = 3 then atUpper
  else if c = 4 then free else if c = 5 then fixed else other c

def SolutionStatus.code : SolutionStatus → Int
  | undefined => 1
  | feasible => 2
  | infeasible => 3
  | noFeasible => 4
  | optimal => 5
  | unbounded => 6
  | other c => c

def SolutionStatus.ofCode (c : Int) : SolutionStatus :=
  if c = 1 then undefined else if c = 2 then feasible else if c = 3 then infeasible
  else if c = 4 then noFeasible else if c = 5 then optimal else if c = 6 then unbounded
  else other c

/-! ### Data -/

variable (α : Type) [Scalar α]

structure Column where
  name : String := ""
  bound : BoundKind := .free
  lower : α := -Scalar.infinity
  upper : α := Scalar.infinity
  kind : ColumnKind := .continuous
  cost : α := 0

structure Row where
  name : String := ""
  bound : BoundKind := .free
  lower : α := -Scalar.infinity
  upper : α := Scalar.infinity
  /-- Column numbers with their coefficients, in the order in which they were set. -/
  coefs : List (Nat × α) := []

/-- Values past the end of a list count as zero, and a basis status past the end
is the one of the slack basis. -/
structure Solution where
  status : SolutionStatus := .undefined
  dualStatus : SolutionStatus := .undefined
  objective : α := 0
  colPrimal : List α := []
  colDual : List α := []
  rowPrimal : List α := []
  rowDual : List α := []
  colBasis : List BasisStatus := []
  rowBasis : List BasisStatus := []

structure Problem where
  name : String := ""
  direction : Direction := .minimize
  constant : α := 0
  columns : List (Column α) := []
  rows : List (Row α) := []
  /-- A double bound whose sides do not leave room between them is refused when set. -/
  strict : Bool := true
  basic : Solution α := {}
  interior : Solution α := {}
  integer : Solution α := {}

/-- A call that names what is not there, or asks for the impossible. -/
inductive ProblemError where
  | columnCount (n : Int)
  | rowCount (n : Int)
  | columnRange (j : Int)
  | rowRange (i : Int)
  | columnRepeated (j : Int)
  | rowRepeated (i : Int)
  | boundCode (code : Int)
  | columnBounds (j : Int) (lower upper : α)
  | rowBounds (i : Int) (lower upper : α)
  | columnKind (j code : Int)
  | directionCode (code : Int)
  | rowLengths
  | rowDuplicate (i j : Int)

variable {α}

def ProblemError.message : ProblemError α → String
  | columnCount n => s!"add_cols: n = {n}; invalid number of columns"
  | rowCount n => s!"add_rows: n = {n}; invalid number of rows"
  | columnRange j => s!"column number {j} out of range"
  | rowRange i => s!"row number {i} out of range"
  | columnRepeated j => s!"del_cols: column {j} listed more than once"
  | rowRepeated i => s!"del_rows: row {i} listed more than once"
  | boundCode c => s!"invalid bound type {c}"
  | columnBounds j l u => s!"set_col_bnds: col {j}; lb = " ++ Scalar.text l ++ "; ub = " ++
      Scalar.text u ++ "; invalid bounds"
  | rowBounds i l u => s!"set_row_bnds: row {i}; lb = " ++ Scalar.text l ++ "; ub = " ++
      Scalar.text u ++ "; invalid bounds"
  | columnKind j c => s!"set_col_kind: column {j}; kind = {c}; invalid column kind"
  | directionCode c => s!"set_obj_dir: dir = {c}; invalid direction flag"
  | rowLengths => "set_mat_row: columns and coefficients have different lengths"
  | rowDuplicate i j => s!"set_mat_row: row {i}; column {j} duplicated"

namespace Problem

def columnCount (p : Problem α) : Nat := p.columns.length

def rowCount (p : Problem α) : Nat := p.rows.length

def integerCount (p : Problem α) : Nat :=
  (p.columns.filter fun c => c.kind = .integer).length

/-- The column with a number from one to the count. -/
def column (p : Problem α) (j : Int) : Except (ProblemError α) (Column α) :=
  if j < 1 then .error (.columnRange j)
  else match p.columns[(j - 1).toNat]? with
    | some c => .ok c
    | none => .error (.columnRange j)

def row (p : Problem α) (i : Int) : Except (ProblemError α) (Row α) :=
  if i < 1 then .error (.rowRange i)
  else match p.rows[(i - 1).toNat]? with
    | some r => .ok r
    | none => .error (.rowRange i)

/-- The signs of the objective turned into one to minimise. -/
def sense (p : Problem α) : α := if p.direction = .maximize then -1 else 1

/-- The columns with their numbers. -/
def numberedColumns (p : Problem α) : List (Nat × Column α) :=
  (List.range p.columnCount).map (· + 1) |>.zip p.columns

def numberedRows (p : Problem α) : List (Nat × Row α) :=
  (List.range p.rowCount).map (· + 1) |>.zip p.rows

end Problem

/-- The coefficient of a column, zero where the row has none. -/
def Row.coef (r : Row α) (j : Nat) : α := (r.coefs.lookup j).getD 0

end MixedInteger
