import MixedInteger.Proofs.Continuous.Multipliers
import MixedInteger.Proofs.Model.Listing
import MixedInteger.Proofs.Model.Satisfaction
import MixedInteger.Proofs.Model.Tabulation
import MixedInteger.Proofs.Model.Run

/-! Combinations of constraints. Multipliers with the signs of their constraints show that a model
has no solution when they leave nothing of its variables and something of its bounds. Constraints
go by identity; the rows and columns of the problem go by place. What refutes the problem by place
is such a certificate: the multiplier of a row is the one of its constraint, and the bounds of a
variable share the one of its column. -/

namespace MixedInteger

open Extended Finset

/-! ### Certificates -/

/-- The coefficient of a variable. -/
def Function.coefficientOf : Function Extended → VariableIndex → ℚ
  | .single u, v => if u = v then 1 else 0
  | .affine f, v => ((f.terms.filter fun t => t.var = v).map fun t => t.coefficient.value).sum

/-- The kinds of bounds in a state. -/
def BoundState.kinds : BoundState → List Kind
  | none => []
  | lessThan => [.lessThan]
  | greaterThan => [.greaterThan]
  | lessAndGreaterThan => [.greaterThan, .lessThan]
  | interval => [.interval]
  | equalTo => [.equalTo]

theorem BoundState.nodup_kinds (b : BoundState) : b.kinds.Nodup := by
  cases b <;> decide

theorem VariableInfo.mem_kinds (info : VariableInfo) {kind : Kind} :
    kind ∈ info.bound.kinds ↔ info.carries kind = true ∧ kind.isBound = true := by
  cases kind <;> cases hb : info.bound <;>
    simp [BoundState.kinds, VariableInfo.carries, Kind.isBound, hb]

/-- The bound that a multiplier is for. -/
def ScalarSet.boundFor (q : ℚ) : ScalarSet Extended → Extended
  | .lessThan u => u
  | .greaterThan l => l
  | .equalTo e => e
  | .interval l u => Extended.boundFor q l u
  | .zeroOne | .integer => nan

namespace Model

variable (m : Model Extended)

/-- The live constraints that bound something, which are all but the types of variables. -/
def bounding : List ConstraintIndex := m.allConstraints.filter (·.set.isBound)

def coefficientIn (c : ConstraintIndex) (v : VariableIndex) : ℚ :=
  match m.constraintFunction (.constraint c) with
  | .ok f => f.coefficientOf v
  | .error _ => 0

def boundIn (c : ConstraintIndex) (q : ℚ) : Extended :=
  match m.constraintSet (.constraint c) with
  | .ok s => s.boundFor q
  | .error _ => nan

/-- Multipliers with the signs of their constraints that combine them to a contradiction: nothing
is left of any variable, and something of the bounds. -/
structure IsCertificate (y : ConstraintIndex → ℚ) : Prop where
  atLeast : ∀ c ∈ m.bounding, c.set = .greaterThan → 0 ≤ y c
  atMost : ∀ c ∈ m.bounding, c.set = .lessThan → y c ≤ 0
  balance : ∀ v, m.isValid (.var v) = true →
    (m.bounding.map fun c => m.coefficientIn c v * y c).sum = 0
  bounded : ∀ c ∈ m.bounding, y c ≠ 0 → (m.boundIn c (y c)).IsRat
  positive : 0 < (m.bounding.map fun c => y c * (m.boundIn c (y c)).value).sum

/-! ### Constraints by place -/

/-- The constraint of a row. -/
def rowIndex (i : ℕ) : ConstraintIndex :=
  ((m.affine.entries[i]?).map fun e => ⟨.scalarAffine, e.2.set.kind, e.1⟩).getD
    ⟨.scalarAffine, .lessThan, 0⟩

/-- The bounds of the variable of a column. -/
def boundsOn (j : ℕ) : List ConstraintIndex :=
  ((m.vars.entries[j]?).map fun e => e.2.bound.kinds.map
    fun kind => ⟨.singleVariable, kind, e.1⟩).getD []

variable {m} {i j k : ℕ}

theorem RowAt.rowIndex {info : ConstraintInfo Extended} {r : Row Extended}
    (h : m.RowAt i k info r) : m.rowIndex i = ⟨.scalarAffine, info.set.kind, k⟩ := by
  rw [Model.rowIndex, h.entry]
  rfl

theorem VariableAt.boundsOn {info : VariableInfo} {c : Column Extended}
    (h : m.VariableAt j k info c) :
    m.boundsOn j = info.bound.kinds.map fun kind => ⟨.singleVariable, kind, k⟩ := by
  rw [Model.boundsOn, h.entry]
  rfl

theorem RowAt.affineInfo {info : ConstraintInfo Extended} {r : Row Extended}
    (h : m.RowAt i k info r) (hm : m.WellFormed) :
    m.affineInfo ⟨.scalarAffine, info.set.kind, k⟩ = .ok info := by
  rw [affineInfo_eq, if_pos rfl, h.get? hm, Option.filter_some_pos (by simp)]

theorem VariableAt.isValid {info : VariableInfo} {c : Column Extended}
    (h : m.VariableAt j k info c) (hm : m.WellFormed) : m.isValid (.var ⟨k⟩) = true := by
  rw [Model.isValid, hm.vars.contains_eq, h.get? hm]
  rfl

theorem VariableAt.liveInfo {info : VariableInfo} {c : Column Extended}
    (h : m.VariableAt j k info c) (hm : m.WellFormed) {kind : Kind}
    (hcarries : info.carries kind = true) :
    m.liveInfo ⟨.singleVariable, kind, k⟩ = .ok info := by
  rw [liveInfo_eq m rfl, h.get? hm, Option.filter_some_pos (by exact hcarries)]

theorem RowAt.isBound {info : ConstraintInfo Extended} {r : Row Extended}
    (h : m.RowAt i k info r) : info.set.kind.isBound = true := by
  have hbounds := h.bounds
  cases hs : info.set <;> rw [hs] at hbounds <;> first | rfl | cases hbounds

section
variable (hm : m.WellFormed)
include hm

theorem WellFormed.rowAt_of_lt (hi : i < m.problem.rowCount) : ∃ k info r, m.RowAt i k info r := by
  have hlt : i < m.affine.entries.length := by
    rw [← hm.rowCount]
    exact hi
  have hentry : m.affine.entries[i]? = some (m.affine.entries[i].1, m.affine.entries[i].2) :=
    List.getElem?_eq_getElem hlt
  obtain ⟨r, hat⟩ := hm.rowAt_of_getElem hentry
  exact ⟨_, _, r, hat⟩

theorem WellFormed.rowIndex_inj {i' : ℕ} (hi : i < m.problem.rowCount)
    (hi' : i' < m.problem.rowCount) (h : m.rowIndex i = m.rowIndex i') : i = i' := by
  obtain ⟨k, info, r, hat⟩ := hm.rowAt_of_lt hi
  obtain ⟨k', info', r', hat'⟩ := hm.rowAt_of_lt hi'
  rw [hat.rowIndex, hat'.rowIndex] at h
  have hkey : (k : ℤ) = k' := congrArg ConstraintIndex.value h
  exact (hat.place_eq_iff hm hat').2 (by omega)

theorem WellFormed.eq_of_mem_boundsOn {j' : ℕ} (hj : j < m.problem.columnCount)
    (hj' : j' < m.problem.columnCount) {c : ConstraintIndex} (hc : c ∈ m.boundsOn j)
    (hc' : c ∈ m.boundsOn j') : j = j' := by
  obtain ⟨k, info, d, hat⟩ := hm.variableAt_of_lt hj
  obtain ⟨k', info', d', hat'⟩ := hm.variableAt_of_lt hj'
  rw [hat.boundsOn] at hc
  rw [hat'.boundsOn] at hc'
  obtain ⟨kind, -, rfl⟩ := List.mem_map.1 hc
  obtain ⟨kind', -, heq⟩ := List.mem_map.1 hc'
  have hkey : (k' : ℤ) = k := congrArg ConstraintIndex.value heq
  exact (hat.place_eq_iff hm hat').2 (by omega)

theorem WellFormed.nodup_places : ((List.range m.problem.rowCount).map m.rowIndex ++
    (List.range m.problem.columnCount).flatMap m.boundsOn).Nodup := by
  rw [List.nodup_append']
  refine ⟨?_, ?_, ?_⟩
  · exact List.Nodup.map_on (fun i hi i' hi' heq =>
      hm.rowIndex_inj (List.mem_range.1 hi) (List.mem_range.1 hi') heq) List.nodup_range
  · rw [List.nodup_flatMap]
    refine ⟨fun j hj => ?_, List.nodup_range.imp_of_mem fun {j j'} hj hj' hne c hc hc' => ?_⟩
    · obtain ⟨k, info, c, hat⟩ := hm.variableAt_of_lt (List.mem_range.1 hj)
      rw [hat.boundsOn]
      refine List.Nodup.map (fun kind kind' heq => ?_) info.bound.nodup_kinds
      exact congrArg ConstraintIndex.set heq
    · exact hne (hm.eq_of_mem_boundsOn (List.mem_range.1 hj) (List.mem_range.1 hj') hc hc')
  · intro c hc hc'
    obtain ⟨i, hi, rfl⟩ := List.mem_map.1 hc
    obtain ⟨j, hj, hc'⟩ := List.mem_flatMap.1 hc'
    obtain ⟨k, info, r, hat⟩ := hm.rowAt_of_lt (List.mem_range.1 hi)
    obtain ⟨k', info', c, hat'⟩ := hm.variableAt_of_lt (List.mem_range.1 hj)
    rw [hat.rowIndex, hat'.boundsOn] at hc'
    obtain ⟨kind, -, heq⟩ := List.mem_map.1 hc'
    cases congrArg ConstraintIndex.function heq

end

section
variable {L : Ledger Extended} (hL : Represents m L)
include hL

theorem mem_bounding {c : ConstraintIndex} :
    c ∈ m.bounding ↔ m.isValid (.constraint c) = true ∧ c.set.isBound = true := by
  rw [bounding, List.mem_filter, hL.allConstraints, hL.mem_listed_append]

/-- A live constraint that bounds something is one of a row or one on a variable. -/
theorem bounding_cases {c : ConstraintIndex} (hc : c ∈ m.bounding) :
    (∃ i k info r, m.RowAt i k info r ∧ c = ⟨.scalarAffine, info.set.kind, k⟩) ∨
      ∃ j k info d kind, m.VariableAt j k info d ∧ kind ∈ info.bound.kinds ∧
        c = ⟨.singleVariable, kind, k⟩ := by
  obtain ⟨hlive, hbound⟩ := (mem_bounding hL).1 hc
  obtain ⟨function, set, value⟩ := c
  rw [hL.isValid] at hlive
  cases function
  case scalarAffine =>
    obtain ⟨rec, hrec, hkind⟩ := (Ledger.isValid_affine rfl).1 hlive
    obtain ⟨hnone, -⟩ | ⟨i, k, info, r, rfl, hat, hL'⟩ := hL.affine_cases value
    · cases hnone.symm.trans hrec
    · cases hL'.symm.trans hrec
      exact .inl ⟨i, k, info, r, hat, congrArg (ConstraintIndex.mk .scalarAffine · k) hkind.symm⟩
  case singleVariable =>
    obtain ⟨hdead, -⟩ | ⟨j, k, r, info, d, rfl, hat, -, hcarries, -⟩ := hL.single_cases set value
    · obtain ⟨r, hr, hk⟩ := (Ledger.isValid_single rfl).1 hlive
      simp [Ledger.single, hr, Option.filter, hk] at hdead
    · exact .inr ⟨j, k, info, d, set, hat, info.mem_kinds.2 ⟨hcarries, hbound⟩, rfl⟩
  all_goals cases hlive

theorem mem_bounding_rowIndex {info : ConstraintInfo Extended} {r : Row Extended}
    (hat : m.RowAt i k info r) : ⟨.scalarAffine, info.set.kind, k⟩ ∈ m.bounding := by
  refine (mem_bounding hL).2 ⟨?_, hat.isBound⟩
  rw [hL.isValid]
  exact (Ledger.isValid_affine rfl).2 ⟨_, (hL.affine k).trans (hat.affineRecord? hL.wf), rfl⟩

theorem mem_bounding_single {info : VariableInfo} {c : Column Extended} {kind : Kind}
    (hat : m.VariableAt j k info c) (hkind : kind ∈ info.bound.kinds) :
    ⟨.singleVariable, kind, k⟩ ∈ m.bounding := by
  obtain ⟨hcarries, hbound⟩ := info.mem_kinds.1 hkind
  refine (mem_bounding hL).2 ⟨?_, hbound⟩
  rw [isValid, Model.carries]
  simp [hat.get? hL.wf, hcarries]

end

section
variable (hm : m.Sound)
include hm

/-- What a constraint of a row consists of. -/
theorem Sound.answers_row {info : ConstraintInfo Extended} {r : Row Extended}
    (hat : m.RowAt i k info r) :
    (∃ f : AffineFunction Extended,
      m.constraintFunction (.constraint ⟨.scalarAffine, info.set.kind, k⟩) = .ok (.affine f) ∧
        f.constant = 0 ∧ (r.IsNumeric → ∀ z, f.valueAt z =
          r.activity m.problem.columnCount (m.pointOf z))) ∧
      m.constraintSet (.constraint ⟨.scalarAffine, info.set.kind, k⟩) = .ok info.set := by
  obtain ⟨L, hL, -⟩ := hm.ledger
  have hlive := (mem_bounding hL).1 (mem_bounding_rowIndex hL hat)
  obtain ⟨rec, hrec, -, hfunction, hset⟩ := hL.affine_of_isValid rfl (hL.isValid _ ▸ hlive.1)
  cases hrec.symm.trans ((hL.affine k).trans (hat.affineRecord? hm.named.wf))
  exact ⟨⟨_, hfunction, rfl, fun hr z => hL.valueAt_row hat hr z⟩, hset⟩

/-- What a bound of a variable consists of. -/
theorem Sound.answers_single {info : VariableInfo} {c : Column Extended} {kind : Kind}
    (hat : m.VariableAt j k info c) (hkind : kind ∈ info.bound.kinds) :
    m.constraintFunction (.constraint ⟨.singleVariable, kind, k⟩) = .ok (.single ⟨k⟩) ∧
      m.constraintSet (.constraint ⟨.singleVariable, kind, k⟩) = .ok (c.set kind) := by
  obtain ⟨L, hL, -⟩ := hm.ledger
  have hlive := (mem_bounding hL).1 (mem_bounding_single hL hat hkind)
  obtain ⟨-, d, -, hd, -, hfunction, hset⟩ := hL.single_of_isValid (hL.isValid _ ▸ hlive.1)
  cases hd.symm.trans (hat.column? hm.named.wf)
  exact ⟨hfunction, hset⟩

end

/-- Bounding constraints are those of the rows and those on the variables. -/
theorem Sound.bounding_perm (hm : m.Sound) : m.bounding.Perm
    ((List.range m.problem.rowCount).map m.rowIndex ++
      (List.range m.problem.columnCount).flatMap m.boundsOn) := by
  obtain ⟨L, hL, -⟩ := hm.ledger
  have hwf := hm.named.wf
  have hnodup : m.bounding.Nodup := by
    refine List.Nodup.filter _ ?_
    rw [hL.allConstraints, List.nodup_append']
    refine ⟨L.nodup_listed _, L.nodup_listed _, fun c hc hc' => ?_⟩
    cases (hL.mem_listed.1 hc).1.symm.trans (hL.mem_listed.1 hc').1
  refine (List.perm_ext_iff_of_nodup hnodup hwf.nodup_places).2 fun c => ?_
  rw [List.mem_append]
  constructor
  · intro hc
    obtain ⟨i, k, info, r, hat, rfl⟩ | ⟨j, k, info, d, kind, hat, hkind, rfl⟩ :=
      bounding_cases hL hc
    · have hi : i < m.problem.rowCount := hat.place_lt
      exact .inl (List.mem_map.2 ⟨i, List.mem_range.2 hi, hat.rowIndex⟩)
    · have hj : j < m.problem.columnCount := hat.place_lt
      refine .inr (List.mem_flatMap.2 ⟨j, List.mem_range.2 hj, ?_⟩)
      rw [hat.boundsOn]
      exact List.mem_map.2 ⟨kind, hkind, rfl⟩
  · rintro (hc | hc)
    · obtain ⟨i, hi, rfl⟩ := List.mem_map.1 hc
      obtain ⟨k, info, r, hat⟩ := hwf.rowAt_of_lt (List.mem_range.1 hi)
      rw [hat.rowIndex]
      exact mem_bounding_rowIndex hL hat
    · obtain ⟨j, hj, hc⟩ := List.mem_flatMap.1 hc
      obtain ⟨k, info, d, hat⟩ := hwf.variableAt_of_lt (List.mem_range.1 hj)
      rw [hat.boundsOn] at hc
      obtain ⟨kind, hkind, rfl⟩ := List.mem_map.1 hc
      exact mem_bounding_single hL hat hkind

theorem Sound.sum_bounding (hm : m.Sound) (f : ConstraintIndex → ℚ) : (m.bounding.map f).sum =
    ∑ i ∈ range m.problem.rowCount, f (m.rowIndex i) +
      ∑ j ∈ range m.problem.columnCount, ((m.boundsOn j).map f).sum := by
  have hsum : ∀ (n : ℕ) (g : ℕ → ℚ), ((List.range n).map g).sum = ∑ i ∈ range n, g i :=
    fun _ _ => rfl
  rw [(hm.bounding_perm.map f).sum_eq, List.map_append, List.sum_append, List.map_map, hsum,
    List.map_flatMap, List.flatMap_def, List.sum_flatten, List.map_map, hsum]
  rfl

/-! ### Coefficients and bounds by place -/

theorem coefficientOf_affine (f : AffineFunction Extended) (v : VariableIndex) :
    (Function.affine f).coefficientOf v =
      f.valueAt (fun u => if u = v then 1 else 0) - f.constant.value := by
  obtain ⟨terms, constant⟩ := f
  simp only [Function.coefficientOf, AffineFunction.valueAt, add_sub_cancel_left]
  induction terms with
  | nil => rfl
  | cons t ts ih =>
    by_cases hv : t.var = v
    · simp [hv, ih]
    · simp [hv, ih]

section
variable (hm : m.Sound)
include hm

/-- A function of a row has the coefficients of the row. -/
theorem Sound.coefficientIn_row {i' k' : ℕ} {info : ConstraintInfo Extended} {r : Row Extended}
    (hrow : m.RowAt i' k' info r) (hr : r.IsNumeric) {info' : VariableInfo} {c : Column Extended}
    (hat : m.VariableAt j k info' c) :
    m.coefficientIn ⟨.scalarAffine, info.set.kind, k'⟩ ⟨k⟩ = r.coefAt j := by
  have hwf := hm.named.wf
  obtain ⟨⟨f, hfunction, hconstant, hvalue⟩, -⟩ := hm.answers_row hrow
  have hpoint : ∀ j' ∈ range m.problem.columnCount, r.coefAt j' *
      m.pointOf (fun u => if u = ⟨k⟩ then 1 else 0) j' = if j' = j then r.coefAt j' else 0 := by
    intro j' hj'
    obtain ⟨l, info₁, c₁, hat₁⟩ := hwf.variableAt_of_lt (mem_range.1 hj')
    rw [hat₁.pointOf]
    simp [hat₁.place_eq_iff hwf hat]
  have hj : j < m.problem.columnCount := hat.place_lt
  rw [coefficientIn, hfunction]
  dsimp only
  rw [coefficientOf_affine, hvalue hr, hconstant, Row.activity, sum_congr rfl hpoint, sum_ite_eq',
    if_pos (mem_range.2 hj)]
  exact sub_zero _

theorem Sound.coefficientIn_single {info : VariableInfo} {c : Column Extended} {kind : Kind}
    (hat : m.VariableAt j k info c) (hkind : kind ∈ info.bound.kinds) (v : VariableIndex) :
    m.coefficientIn ⟨.singleVariable, kind, k⟩ v = if (⟨k⟩ : VariableIndex) = v then 1 else 0 := by
  rw [coefficientIn, (hm.answers_single hat hkind).1]
  rfl

/-- What multipliers leave of a variable. -/
theorem Sound.sum_coefficients (hr : ∀ r ∈ m.problem.rows, r.IsNumeric) {info : VariableInfo}
    {c : Column Extended} (hat : m.VariableAt j k info c) (y : ConstraintIndex → ℚ) :
    (m.bounding.map fun c => m.coefficientIn c ⟨k⟩ * y c).sum =
      ∑ i ∈ range m.problem.rowCount, y (m.rowIndex i) * (m.problem.rowAt i).coefAt j +
        ((m.boundsOn j).map y).sum := by
  have hwf := hm.named.wf
  have hj : j < m.problem.columnCount := hat.place_lt
  have hrows : ∀ i ∈ range m.problem.rowCount, m.coefficientIn (m.rowIndex i) ⟨k⟩ *
      y (m.rowIndex i) = y (m.rowIndex i) * (m.problem.rowAt i).coefAt j := by
    intro i hi
    obtain ⟨k', info', r, hrow⟩ := hwf.rowAt_of_lt (mem_range.1 hi)
    rw [hrow.rowIndex, hm.coefficientIn_row hrow (hr r (List.mem_of_getElem? hrow.row)) hat,
      Problem.rowAt_of_getElem hrow.row, mul_comm]
  have hcolumns : ∀ j' ∈ range m.problem.columnCount,
      ((m.boundsOn j').map fun c => m.coefficientIn c ⟨k⟩ * y c).sum =
        if j' = j then ((m.boundsOn j').map y).sum else 0 := by
    intro j' hj'
    obtain ⟨l, info', c', hat'⟩ := hwf.variableAt_of_lt (mem_range.1 hj')
    have hcoefficient : ∀ d ∈ m.boundsOn j', m.coefficientIn d ⟨k⟩ = if j' = j then 1 else 0 := by
      intro d hd
      rw [hat'.boundsOn] at hd
      obtain ⟨kind, hkind, rfl⟩ := List.mem_map.1 hd
      rw [hm.coefficientIn_single hat' hkind]
      simp [hat'.place_eq_iff hwf hat]
    rw [List.map_congr_left fun d hd => by rw [hcoefficient d hd]]
    split_ifs <;> simp
  rw [hm.sum_bounding, sum_congr rfl hrows, sum_congr rfl hcolumns, sum_ite_eq',
    if_pos (mem_range.2 hj)]

end

end Model

/-! ### What a certificate shows -/

/-- A value in a set is on the side of the bound that a multiplier is for. -/
theorem ScalarSet.Contains.mul_bound_le {s : ScalarSet Extended} {q v : ℚ} (h : s.Contains v)
    (hrat : q ≠ 0 → (s.boundFor q).IsRat) (hpos : s.kind = .greaterThan → 0 ≤ q)
    (hneg : s.kind = .lessThan → q ≤ 0) : q * (s.boundFor q).value ≤ q * v := by
  obtain rfl | hne := eq_or_ne q 0
  · simp
  have heq := (hrat hne).eq
  cases s with
  | lessThan u =>
    have hle : rat v ≤ u := h
    rw [show u = _ from heq, rat_le_rat] at hle
    exact mul_le_mul_of_nonpos_left hle (hneg rfl)
  | greaterThan l =>
    have hle : l ≤ rat v := h
    rw [show l = _ from heq, rat_le_rat] at hle
    exact mul_le_mul_of_nonneg_left hle (hpos rfl)
  | equalTo e =>
    have he : rat v = e := h
    rw [boundFor, ← he]
    exact le_rfl
  | interval l u =>
    obtain ⟨hle, hge⟩ : l ≤ rat v ∧ rat v ≤ u := h
    rw [boundFor, Extended.boundFor] at heq ⊢
    split_ifs at heq ⊢ with hlt
    · rw [heq, rat_le_rat] at hle
      exact mul_le_mul_of_nonneg_left hle hlt.le
    · rw [heq, rat_le_rat] at hge
      exact mul_le_mul_of_nonpos_left hge (not_lt.1 hlt)
  | zeroOne => cases heq
  | integer => cases heq

namespace Model

variable {m : Model Extended} {i j k : ℕ} {y : ConstraintIndex → ℚ} {z : Assignment}

/-- The value of the function of a constraint. -/
def valueIn (m : Model Extended) (z : Assignment) (c : ConstraintIndex) : ℚ :=
  match m.constraintFunction (.constraint c) with
  | .ok f => f.valueAt z
  | .error _ => 0

section
variable (hm : m.Sound)
include hm

theorem Sound.valueIn_row {info : ConstraintInfo Extended} {r : Row Extended}
    (hat : m.RowAt i k info r) (hr : r.IsNumeric) :
    m.valueIn z ⟨.scalarAffine, info.set.kind, k⟩ =
      r.activity m.problem.columnCount (m.pointOf z) := by
  obtain ⟨⟨f, hfunction, -, hvalue⟩, -⟩ := hm.answers_row hat
  rw [valueIn, hfunction]
  exact hvalue hr z

theorem Sound.valueIn_single {info : VariableInfo} {c : Column Extended} {kind : Kind}
    (hat : m.VariableAt j k info c) (hkind : kind ∈ info.bound.kinds) :
    m.valueIn z ⟨.singleVariable, kind, k⟩ = z ⟨k⟩ := by
  rw [valueIn, (hm.answers_single hat hkind).1]
  rfl

variable (h : m.IsCertificate y)
include h

/-- Nothing is left of the functions of the constraints. -/
theorem Sound.sum_values (hr : ∀ r ∈ m.problem.rows, r.IsNumeric) :
    (m.bounding.map fun c => y c * m.valueIn z c).sum = 0 := by
  have hwf := hm.named.wf
  have hrows : ∀ i ∈ range m.problem.rowCount,
      y (m.rowIndex i) * m.valueIn z (m.rowIndex i) =
        y (m.rowIndex i) * (m.problem.rowAt i).activity m.problem.columnCount (m.pointOf z) := by
    intro i hi
    obtain ⟨k, info, r, hat⟩ := hwf.rowAt_of_lt (mem_range.1 hi)
    rw [hat.rowIndex, hm.valueIn_row hat (hr r (List.mem_of_getElem? hat.row)),
      Problem.rowAt_of_getElem hat.row]
  have hcolumns : ∀ j ∈ range m.problem.columnCount,
      ((m.boundsOn j).map fun c => y c * m.valueIn z c).sum =
        ((m.boundsOn j).map y).sum * m.pointOf z j := by
    intro j hj
    obtain ⟨k, info, c, hat⟩ := hwf.variableAt_of_lt (mem_range.1 hj)
    rw [← List.sum_map_mul_right]
    refine congrArg List.sum (List.map_congr_left fun d hd => ?_)
    rw [hat.boundsOn] at hd
    obtain ⟨kind, hkind, rfl⟩ := List.mem_map.1 hd
    rw [hm.valueIn_single hat hkind, hat.pointOf]
  rw [hm.sum_bounding, sum_congr rfl hrows, sum_congr rfl hcolumns, Problem.sum_activities]
  refine sum_eq_zero fun j hj => ?_
  obtain ⟨k, info, c, hat⟩ := hwf.variableAt_of_lt (mem_range.1 hj)
  have hbalance := h.balance _ (hat.isValid hwf)
  rw [hm.sum_coefficients hr hat] at hbalance
  rw [hbalance, zero_mul]

theorem Sound.bound_le (hz : m.Satisfied z) {c : ConstraintIndex} (hc : c ∈ m.bounding) :
    y c * (m.boundIn c (y c)).value ≤ y c * m.valueIn z c := by
  obtain ⟨L, hL, -⟩ := hm.ledger
  have hlive := ((mem_bounding hL).1 hc).1
  obtain ⟨f, s, hf, hs, hin⟩ := hz c hlive
  have hkind : s.kind = c.set := by
    obtain ⟨i, k, info, r, hat, rfl⟩ | ⟨j, k, info, d, kind, hat, hkind, rfl⟩ :=
      bounding_cases hL hc
    · cases hs.symm.trans (hm.answers_row hat).2
      rfl
    · cases hs.symm.trans (hm.answers_single hat hkind).2
      have hbound := (info.mem_kinds.1 hkind).2
      cases kind <;> cases hbound <;> rfl
  have hbounded := h.bounded c hc
  rw [boundIn, hs] at hbounded ⊢
  rw [valueIn, hf]
  exact hin.mul_bound_le hbounded (fun hset => h.atLeast c hc (hkind.symm.trans hset))
    fun hset => h.atMost c hc (hkind.symm.trans hset)

/-- A certificate shows that nothing satisfies the model. -/
theorem Sound.not_satisfied (hr : ∀ r ∈ m.problem.rows, r.IsNumeric) : ¬m.Satisfied z := by
  intro hz
  have hle := List.sum_le_sum fun c hc => hm.bound_le h hz hc
  rw [hm.sum_values h hr] at hle
  exact absurd h.positive hle.not_gt

end

end Model

/-! ### Multipliers by place -/

/-- What a bound of this kind has of the multiplier of a variable. -/
def Kind.share : Kind → ℚ → ℚ
  | .greaterThan, q => max q 0
  | .lessThan, q => min q 0
  | _, q => q

/-- A column has the sides that the state of its variable has. -/
structure BoundState.Fits (b : BoundState) (c : Column Extended) : Prop where
  lower : b.lowerSet = Option.none → c.lower = bottom
  upper : b.upperSet = Option.none → c.upper = top
  fixed : b = equalTo → c.lower = c.upper

section
variable {b : BoundState} {c : Column Extended} {q : ℚ}

theorem BoundState.Fits.share_cases (h : b.Fits c) {kind : Kind} (hkind : kind ∈ b.kinds) :
    kind.share q = 0 ∨ kind.share q = q ∧
      (c.set kind).boundFor (kind.share q) = Extended.boundFor q c.lower c.upper := by
  cases kind with
  | lessThan =>
    obtain hq | hq := le_or_gt q 0
    · refine .inr ⟨min_eq_left hq, ?_⟩
      rw [Extended.boundFor, if_neg hq.not_gt]
      rfl
    · exact .inl (min_eq_right hq.le)
  | greaterThan =>
    obtain hq | hq := le_or_gt q 0
    · exact .inl (max_eq_right hq)
    · refine .inr ⟨max_eq_left hq.le, ?_⟩
      rw [Extended.boundFor, if_pos hq]
      rfl
  | interval => exact .inr ⟨rfl, rfl⟩
  | equalTo =>
    have hfixed : b = equalTo := by
      cases b <;> simp [kinds] at hkind
      rfl
    refine .inr ⟨rfl, ?_⟩
    rw [Extended.boundFor, ← h.fixed hfixed, ite_self]
    rfl
  | _ => cases b <;> simp [kinds] at hkind

/-- The bounds of a variable share its multiplier. -/
theorem BoundState.Fits.sum_share (h : b.Fits c)
    (hq : q ≠ 0 → (Extended.boundFor q c.lower c.upper).IsRat) :
    (b.kinds.map fun kind => kind.share q).sum = q := by
  have hpos : b.lowerSet = Option.none → q ≤ 0 := fun hnone =>
    nonpos_of_boundFor hq (by rw [h.lower hnone]; exact not_isRat_bottom)
  have hneg : b.upperSet = Option.none → 0 ≤ q := fun hnone =>
    nonneg_of_boundFor hq (by rw [h.upper hnone]; exact not_isRat_top)
  cases b with
  | none => exact le_antisymm (hneg rfl) (hpos rfl)
  | lessThan => simp [kinds, Kind.share, hpos rfl]
  | greaterThan => simp [kinds, Kind.share, hneg rfl]
  | lessAndGreaterThan => simp [kinds, Kind.share, max_add_min]
  | interval => simp [kinds, Kind.share]
  | equalTo => simp [kinds, Kind.share]

theorem BoundState.Fits.sum_bounds (h : b.Fits c)
    (hq : q ≠ 0 → (Extended.boundFor q c.lower c.upper).IsRat) :
    (b.kinds.map fun kind => kind.share q * ((c.set kind).boundFor (kind.share q)).value).sum =
      q * (Extended.boundFor q c.lower c.upper).value := by
  have hterm : ∀ kind ∈ b.kinds, kind.share q * ((c.set kind).boundFor (kind.share q)).value =
      kind.share q * (Extended.boundFor q c.lower c.upper).value := by
    intro kind hkind
    obtain hzero | ⟨-, hbound⟩ := h.share_cases (q := q) hkind
    · rw [hzero, zero_mul, zero_mul]
    · rw [hbound]
  rw [List.map_congr_left hterm, List.sum_map_mul_right, h.sum_share hq]

end

/-- A multiplier of a row is one of its set, for the same bound. -/
theorem ScalarSet.boundFor_row {s : ScalarSet Extended} {r : Row Extended}
    (h : s.rowBound? = some r.bounds) {q : ℚ}
    (hq : q ≠ 0 → (Extended.boundFor q r.lower r.upper).IsRat) :
    (q ≠ 0 → s.boundFor q = Extended.boundFor q r.lower r.upper) ∧
      (s.kind = .greaterThan → 0 ≤ q) ∧ (s.kind = .lessThan → q ≤ 0) := by
  obtain ⟨name, bound, lower, upper, coefs⟩ := r
  cases s <;> cases h
  case lessThan =>
    have hle := nonpos_of_boundFor hq not_isRat_bottom
    refine ⟨fun hne => ?_, Kind.noConfusion, fun _ => hle⟩
    rw [Extended.boundFor, if_neg hle.not_gt]
    rfl
  case greaterThan =>
    have hle := nonneg_of_boundFor hq not_isRat_top
    refine ⟨fun hne => ?_, fun _ => hle, Kind.noConfusion⟩
    rw [Extended.boundFor, if_pos (lt_of_le_of_ne hle hne.symm)]
    rfl
  case equalTo =>
    refine ⟨fun _ => ?_, Kind.noConfusion, Kind.noConfusion⟩
    rw [Extended.boundFor, ite_self]
    rfl

namespace Model

variable {m : Model Extended} {i j k : ℕ} {y δ : ℕ → ℚ}

variable (m y δ) in
/-- Multipliers of rows and columns, by constraint. -/
def multiplier (c : ConstraintIndex) : ℚ :=
  if c.function = .scalarAffine then
    ((m.affine.get? c.value).map fun info => y (info.row - 1)).getD 0
  else c.set.share (m.assignmentOf δ ⟨c.value⟩)

section
variable (hm : m.WellFormed)
include hm

theorem RowAt.multiplier {info : ConstraintInfo Extended} {r : Row Extended}
    (hat : m.RowAt i k info r) (kind : Kind) :
    m.multiplier y δ ⟨.scalarAffine, kind, k⟩ = y i := by
  rw [Model.multiplier, if_pos rfl, hat.get? hm, Option.map_some, hat.number, Nat.add_sub_cancel]
  rfl

theorem VariableAt.multiplier {info : VariableInfo} {c : Column Extended}
    (hat : m.VariableAt j k info c) (kind : Kind) :
    m.multiplier y δ ⟨.singleVariable, kind, k⟩ = kind.share (δ j) := by
  rw [Model.multiplier, if_neg Kind.noConfusion, hat.assignmentOf hm]

end

section
variable (hm : m.Sound)
include hm

/-- What stands in the column of a variable are its bounds. -/
theorem Sound.fits_column {info : VariableInfo} {c : Column Extended}
    (hat : m.VariableAt j k info c) : info.bound.Fits c := by
  obtain ⟨L, hL, hcoherent⟩ := hm.ledger
  obtain ⟨hnone, hdead⟩ | ⟨r, info', hr, hinfo, hshape⟩ := hL.vars_cases ⟨k⟩
  · cases hdead.symm.trans (hat.get? hL.wf)
  cases hinfo.symm.trans (hat.get? hL.wf)
  have hholds := hL.holds hr (hat.column? hL.wf)
  have hr := hcoherent _ _ hr
  refine ⟨fun hnone => ?_, fun hnone => ?_, fun hequal => ?_⟩
  · rw [lowerSet_of_shape hshape, Option.map_eq_none_iff] at hnone
    rw [hholds.lower_eq hr, VariableRecord.lower, hnone]
    rfl
  · rw [upperSet_of_shape hshape, Option.map_eq_none_iff] at hnone
    rw [hholds.upper_eq hr, VariableRecord.upper, hnone]
    rfl
  · have hlower := lowerSet_of_shape hshape
    rw [hequal] at hlower
    obtain ⟨s, hs, hkind⟩ := Option.map_eq_some_iff.1 hlower.symm
    cases s with
    | equalTo e => exact hholds.lower_eq_upper hr hs
    | _ => cases hkind

theorem Sound.boundIn_row {info : ConstraintInfo Extended} {r : Row Extended}
    (hat : m.RowAt i k info r) (q : ℚ) :
    m.boundIn ⟨.scalarAffine, info.set.kind, k⟩ q = info.set.boundFor q := by
  rw [boundIn, (hm.answers_row hat).2]

theorem Sound.boundIn_single {info : VariableInfo} {c : Column Extended} {kind : Kind}
    (hat : m.VariableAt j k info c) (hkind : kind ∈ info.bound.kinds) (q : ℚ) :
    m.boundIn ⟨.singleVariable, kind, k⟩ q = (c.set kind).boundFor q := by
  rw [boundIn, (hm.answers_single hat hkind).2]

variable (h : m.problem.Refutes y δ)
include h

omit hm in
/-- Multipliers of rows have the signs of their sets. -/
theorem RowAt.multiplier_fits {info : ConstraintInfo Extended} {r : Row Extended}
    (hat : m.RowAt i k info r) :
    (y i ≠ 0 → info.set.boundFor (y i) = Extended.boundFor (y i) r.lower r.upper) ∧
      (info.set.kind = .greaterThan → 0 ≤ y i) ∧ (info.set.kind = .lessThan → y i ≤ 0) :=
  ScalarSet.boundFor_row hat.bounds (h.row hat.row)

theorem Sound.multiplier_signs {c : ConstraintIndex} (hc : c ∈ m.bounding) :
    (c.set = .greaterThan → 0 ≤ m.multiplier y δ c) ∧
      (c.set = .lessThan → m.multiplier y δ c ≤ 0) := by
  obtain ⟨L, hL, -⟩ := hm.ledger
  obtain ⟨i, k, info, r, hat, rfl⟩ | ⟨j, k, info, d, kind, hat, -, rfl⟩ := bounding_cases hL hc
  · rw [hat.multiplier hm.named.wf]
    exact (hat.multiplier_fits h).2
  · rw [hat.multiplier hm.named.wf]
    refine ⟨?_, ?_⟩
    · rintro ⟨⟩
      exact le_max_right _ _
    · rintro ⟨⟩
      exact min_le_right _ _

/-- Nothing is left of any variable. -/
theorem Sound.sum_multipliers (hr : ∀ r ∈ m.problem.rows, r.IsNumeric) {v : VariableIndex}
    (hv : m.isValid (.var v) = true) :
    (m.bounding.map fun c => m.coefficientIn c v * m.multiplier y δ c).sum = 0 := by
  have hwf := hm.named.wf
  obtain ⟨j, k, info, c, rfl, -, hat⟩ := hwf.exists_variableAt hv
  have hj : j < m.problem.columnCount := hat.place_lt
  have hbounds : ((m.boundsOn j).map (m.multiplier y δ)).sum = δ j := by
    rw [hat.boundsOn, List.map_map, ← (hm.fits_column hat).sum_share (h.column hat.column)]
    exact congrArg List.sum (List.map_congr_left fun kind _ => hat.multiplier hwf kind)
  rw [hm.sum_coefficients hr hat, hbounds, ← h.balance j hj]
  refine congrArg (· + δ j) (sum_congr rfl fun i hi => ?_)
  obtain ⟨k, info, r, hat⟩ := hwf.rowAt_of_lt (mem_range.1 hi)
  rw [hat.rowIndex, hat.multiplier hwf]

theorem Sound.isRat_boundIn {c : ConstraintIndex} (hc : c ∈ m.bounding)
    (hne : m.multiplier y δ c ≠ 0) : (m.boundIn c (m.multiplier y δ c)).IsRat := by
  obtain ⟨L, hL, -⟩ := hm.ledger
  obtain ⟨i, k, info, r, hat, rfl⟩ | ⟨j, k, info, d, kind, hat, hkind, rfl⟩ :=
    bounding_cases hL hc
  · rw [hat.multiplier hm.named.wf] at hne ⊢
    rw [hm.boundIn_row hat, (hat.multiplier_fits h).1 hne]
    exact h.row hat.row hne
  · rw [hat.multiplier hm.named.wf] at hne ⊢
    rw [hm.boundIn_single hat hkind]
    obtain hzero | ⟨hshare, hside⟩ := (hm.fits_column hat).share_cases hkind
    · exact absurd hzero hne
    · rw [hside]
      exact h.column hat.column (hshare ▸ hne)

/-- Constraint by constraint, the bounds sum up to what they do by row and column. -/
theorem Sound.sum_boundIn :
    (m.bounding.map fun c => m.multiplier y δ c * (m.boundIn c (m.multiplier y δ c)).value).sum =
      m.problem.boundSum y δ := by
  have hwf := hm.named.wf
  rw [hm.sum_bounding, Problem.boundSum]
  refine congrArg₂ (· + ·) (sum_congr rfl fun i hi => ?_) (sum_congr rfl fun j hj => ?_)
  · obtain ⟨k, info, r, hat⟩ := hwf.rowAt_of_lt (mem_range.1 hi)
    rw [hat.rowIndex, hat.multiplier hwf, hm.boundIn_row hat, Problem.rowAt_of_getElem hat.row]
    obtain hzero | hne := eq_or_ne (y i) 0
    · rw [hzero, zero_mul, zero_mul]
    · rw [(hat.multiplier_fits h).1 hne]
  · obtain ⟨k, info, c, hat⟩ := hwf.variableAt_of_lt (mem_range.1 hj)
    rw [Problem.columnAt_of_getElem hat.column, hat.boundsOn, List.map_map,
      ← (hm.fits_column hat).sum_bounds (h.column hat.column)]
    refine congrArg List.sum (List.map_congr_left fun kind hkind => ?_)
    rw [Function.comp_apply, hat.multiplier hwf, hm.boundIn_single hat hkind]

/-- What refutes the problem of a model is a certificate that the model has no solution. -/
theorem Sound.isCertificate (hr : ∀ r ∈ m.problem.rows, r.IsNumeric) :
    m.IsCertificate (m.multiplier y δ) where
  atLeast _ hc := (hm.multiplier_signs h hc).1
  atMost _ hc := (hm.multiplier_signs h hc).2
  balance _ hv := hm.sum_multipliers h hr hv
  bounded _ hc := hm.isRat_boundIn h hc
  positive := h.positive.trans_eq (hm.sum_boundIn h).symm

end

end Model

end MixedInteger
