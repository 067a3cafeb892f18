import MixedInteger.Model.State
import MixedInteger.Proofs.Model.Registry
import MixedInteger.Proofs.Problem.Edit

/-! The two numberings of a model in step. In a well-formed model the variables stand
in their registry in the order of their columns, the affine constraints in the order
of their rows, every row has the bounds of the set of its constraint, and every row
fits the columns. -/

namespace MixedInteger

variable {α : Type} [Scalar α]

/-- The bounds of a row that lies in a set. -/
def ScalarSet.rowBound? : ScalarSet α → Option (BoundKind × α × α)
  | .lessThan u => some (.upper, -Scalar.infinity, u)
  | .greaterThan l => some (.lower, l, Scalar.infinity)
  | .equalTo v => some (.fixed, v, v)
  | _ => none

def Row.bounds (r : Row α) : BoundKind × α × α := (r.bound, r.lower, r.upper)

namespace Model

/-- A variable, its place among the variables and its column. -/
structure VariableAt (m : Model α) (i k : Nat) (info : VariableInfo) (c : Column α) : Prop where
  entry : m.vars.entries[i]? = some (k, info)
  column : m.problem.columns[i]? = some c
  index : info.index = ⟨k⟩
  number : info.column = i + 1

/-- An affine constraint, its place among them and its row. -/
structure RowAt (m : Model α) (i k : Nat) (info : ConstraintInfo α) (r : Row α) : Prop where
  entry : m.affine.entries[i]? = some (k, info)
  row : m.problem.rows[i]? = some r
  number : info.row = i + 1
  bounds : info.set.rowBound? = some r.bounds

theorem VariableAt.place_lt {m : Model α} {i k : Nat} {info : VariableInfo} {c : Column α}
    (h : m.VariableAt i k info c) : i < m.problem.columns.length :=
  (List.getElem?_eq_some_iff.1 h.column).1

theorem RowAt.place_lt {m : Model α} {i k : Nat} {info : ConstraintInfo α} {r : Row α}
    (h : m.RowAt i k info r) : i < m.problem.rows.length :=
  (List.getElem?_eq_some_iff.1 h.row).1

structure WellFormed (m : Model α) : Prop where
  vars : m.vars.Valid
  affine : m.affine.Valid
  columnCount : m.problem.columns.length = m.vars.entries.length
  rowCount : m.problem.rows.length = m.affine.entries.length
  column : ∀ {i k info}, m.vars.entries[i]? = some (k, info) →
    info.index = ⟨k⟩ ∧ info.column = i + 1
  row : ∀ {i k info r}, m.affine.entries[i]? = some (k, info) → m.problem.rows[i]? = some r →
    info.row = i + 1 ∧ info.set.rowBound? = some r.bounds
  fits : ∀ r ∈ m.problem.rows, r.Fits m.problem.columns.length

namespace WellFormed

theorem emptied (m : Model α) : m.emptied.WellFormed where
  vars := Registry.Valid.empty
  affine := Registry.Valid.empty
  columnCount := rfl
  rowCount := rfl
  column h := by simp [Model.emptied] at h
  row h := by simp [Model.emptied] at h
  fits r hr := by simp [Model.emptied] at hr

/-! ### Places -/

section Places
variable {m : Model α} (hm : m.WellFormed)
include hm

theorem variableAt_of_getElem {i k : Nat} {info : VariableInfo}
    (h : m.vars.entries[i]? = some (k, info)) : ∃ c, m.VariableAt i k info c := by
  have hi : i < m.problem.columns.length := by
    rw [hm.columnCount]
    exact (List.getElem?_eq_some_iff.1 h).1
  exact ⟨_, h, List.getElem?_eq_getElem hi, (hm.column h).1, (hm.column h).2⟩

theorem variableAt {v : Int} {info : VariableInfo} (h : m.vars.get? v = some info) :
    ∃ (i k : Nat) (c : Column α), v = k ∧ m.VariableAt i k info c := by
  obtain ⟨i, k, rfl, he⟩ := hm.vars.get?_eq_some.1 h
  obtain ⟨c, hc⟩ := hm.variableAt_of_getElem he
  exact ⟨i, k, c, rfl, hc⟩

theorem rowAt_of_getElem {i k : Nat} {info : ConstraintInfo α}
    (h : m.affine.entries[i]? = some (k, info)) : ∃ r, m.RowAt i k info r := by
  have hi : i < m.problem.rows.length := by
    rw [hm.rowCount]
    exact (List.getElem?_eq_some_iff.1 h).1
  have hr := List.getElem?_eq_getElem hi
  exact ⟨_, h, hr, (hm.row h hr).1, (hm.row h hr).2⟩

theorem rowAt {c : Int} {info : ConstraintInfo α} (h : m.affine.get? c = some info) :
    ∃ (i k : Nat) (r : Row α), c = k ∧ m.RowAt i k info r := by
  obtain ⟨i, k, rfl, he⟩ := hm.affine.get?_eq_some.1 h
  obtain ⟨r, hr⟩ := hm.rowAt_of_getElem he
  exact ⟨i, k, r, rfl, hr⟩

end Places

end WellFormed

section At
variable {m : Model α} {i k : Nat}

theorem VariableAt.get? {info : VariableInfo} {c : Column α} (h : m.VariableAt i k info c)
    (hm : m.WellFormed) : m.vars.get? k = some info := hm.vars.get?_of_getElem h.entry

/-- Places and identities of variables go together. -/
theorem VariableAt.place_eq_iff {j l : Nat} {info info' : VariableInfo} {c d : Column α}
    (hm : m.WellFormed) (hi : m.VariableAt i k info c) (hj : m.VariableAt j l info' d) :
    i = j ↔ k = l := by
  constructor
  · rintro rfl
    have := hj.entry
    rw [hi.entry] at this
    cases this
    rfl
  · rintro rfl
    exact hm.vars.getElem?_inj hi.entry hj.entry

theorem RowAt.place_eq_iff {j l : Nat} {info info' : ConstraintInfo α} {r s : Row α}
    (hm : m.WellFormed) (hi : m.RowAt i k info r) (hj : m.RowAt j l info' s) :
    i = j ↔ k = l := by
  constructor
  · rintro rfl
    have := hj.entry
    rw [hi.entry] at this
    cases this
    rfl
  · rintro rfl
    exact hm.affine.getElem?_inj hi.entry hj.entry

theorem RowAt.get? {info : ConstraintInfo α} {r : Row α} (h : m.RowAt i k info r)
    (hm : m.WellFormed) : m.affine.get? k = some info := hm.affine.get?_of_getElem h.entry

theorem RowAt.fits {info : ConstraintInfo α} {r : Row α} (h : m.RowAt i k info r)
    (hm : m.WellFormed) : r.Fits m.problem.columns.length :=
  hm.fits r (List.mem_of_getElem? h.row)

end At

namespace WellFormed

/-! ### Changes that keep the numberings -/

section Changes
variable {m : Model α} (hm : m.WellFormed)
include hm

/-- Nothing but the variables, the affine constraints and the sizes and rows of the
problem matters. -/
theorem congr {m' : Model α} (hv : m'.vars = m.vars) (ha : m'.affine = m.affine)
    (hc : m'.problem.columns.length = m.problem.columns.length)
    (hr : m'.problem.rows = m.problem.rows) : m'.WellFormed where
  vars := hv ▸ hm.vars
  affine := ha ▸ hm.affine
  columnCount := by rw [hc, hv, hm.columnCount]
  rowCount := by rw [hr, ha, hm.rowCount]
  column h := hm.column (hv ▸ h)
  row h h' := hm.row (ha ▸ h) (hr ▸ h')
  fits r h := hc ▸ hm.fits r (hr ▸ h)

/-- A change of a variable that leaves its identity and its column alone. -/
theorem modifyVariable (k : Int) {f : VariableInfo → VariableInfo}
    (hi : ∀ info, (f info).index = info.index) (hf : ∀ info, (f info).column = info.column) :
    ({ m with vars := m.vars.modify k f } : Model α).WellFormed where
  vars := hm.vars.modify k f
  affine := hm.affine
  columnCount := by
    have := congrArg List.length (Registry.keys_modify m.vars k f)
    simp only [Registry.keys, List.length_map] at this
    rw [this]
    exact hm.columnCount
  rowCount := hm.rowCount
  column {i n info} h := by
    cases hs : m.vars.slot? k with
    | none =>
      simp only [Registry.modify, hs] at h
      exact hm.column h
    | some j =>
      simp only [Registry.modify, hs, List.getElem?_modify, Option.map_eq_map,
        Option.map_eq_some_iff] at h
      obtain ⟨e, he, heq⟩ := h
      have hcol := hm.column he
      split_ifs at heq with hij
      · cases heq
        exact ⟨(hi _).trans hcol.1, (hf _).trans hcol.2⟩
      · cases heq
        exact hcol
  row := hm.row
  fits := hm.fits

theorem modifyColumn (i : Nat) (f : Column α → Column α) :
    ({ m with problem := { m.problem with columns := m.problem.columns.modify i f } } :
      Model α).WellFormed :=
  hm.congr rfl rfl (List.length_modify ..) rfl

/-- A change of a constraint together with its row. -/
theorem modifyRow {i k : Nat} {info : ConstraintInfo α} {r : Row α} (hr : m.RowAt i k info r)
    {f : ConstraintInfo α → ConstraintInfo α} {g : Row α → Row α}
    (hrow : (f info).row = info.row) (hset : (f info).set.rowBound? = some (g r).bounds)
    (hfits : (g r).Fits m.problem.columns.length) :
    ({ m with
      affine := m.affine.modify k f
      problem := { m.problem with rows := m.problem.rows.modify i g } } : Model α).WellFormed where
  vars := hm.vars
  affine := hm.affine.modify k f
  columnCount := hm.columnCount
  rowCount := by
    rw [hm.affine.modify_of_getElem hr.entry]
    simp only [List.length_modify]
    exact hm.rowCount
  column := hm.column
  row {j n info' r'} h h' := by
    rw [hm.affine.modify_of_getElem hr.entry] at h
    simp only [List.getElem?_modify, Option.map_eq_map, Option.map_eq_some_iff] at h h'
    obtain ⟨e, he, heq⟩ := h
    obtain ⟨s, hs, heq'⟩ := h'
    split_ifs at heq heq' with hij
    · subst hij
      rw [hr.entry] at he
      rw [hr.row] at hs
      cases he
      cases hs
      cases heq
      subst heq'
      exact ⟨hrow.trans hr.number, hset⟩
    · cases heq
      subst heq'
      exact hm.row he hs
  fits s hs := by
    obtain ⟨j, hj⟩ := List.mem_iff_getElem?.1 hs
    simp only [List.getElem?_modify, Option.map_eq_map, Option.map_eq_some_iff] at hj
    obtain ⟨t, ht, heq⟩ := hj
    split_ifs at heq with hij
    · subst hij
      rw [hr.row] at ht
      cases ht
      subst heq
      exact hfits
    · subst heq
      exact hm.fits t (List.mem_of_getElem? ht)

end Changes

end WellFormed

end Model

end MixedInteger
