import MixedInteger.Proofs.Model.ColumnValues

/-! The problem that a search is given, and what it has to do with the model. Its feasible
points are the assignments that satisfy the model, column by column, and it has the objective
of the model. -/

namespace MixedInteger

open Extended Finset

/-- A row holds when its activity lies in the set that it has the bounds of. -/
theorem ScalarSet.contains_iff_holds {s : ScalarSet Extended} {r : Row Extended}
    (h : s.rowBound? = some r.bounds) (n : ℕ) (x : ℕ → ℚ) :
    s.Contains (r.activity n x) ↔ r.Holds n x := by
  obtain ⟨name, bound, lower, upper, coefs⟩ := r
  unfold Row.Holds
  cases s <;> cases h
  · exact ⟨fun h => ⟨bottom_le_rat _, h⟩, fun h => h.2⟩
  · exact ⟨fun h => ⟨h, rat_le_top _⟩, fun h => h.1⟩
  · constructor
    · intro (h : rat _ = lower)
      dsimp only
      rw [← h]
      exact ⟨(rat_le_rat _ _).2 le_rfl, (rat_le_rat _ _).2 le_rfl⟩
    · rintro ⟨hl, hu⟩
      change rat _ = lower
      cases lower with
      | rat q => exact congrArg rat (le_antisymm ((rat_le_rat _ _).1 hu) ((rat_le_rat _ _).1 hl))
      | nan => cases hl
      | bottom => cases hu
      | top => cases hl

namespace Model

/-- All numbers are rational but the bounds of variables, which may be infinite. -/
structure Rational (m : Model Extended) : Prop where
  constant : m.problem.constant.IsRat
  cost : ∀ c ∈ m.problem.columns, c.cost.IsRat
  rows : ∀ r ∈ m.problem.rows, r.Rational

/-- The model as a search sees it. -/
def inner (m : Model Extended) : Model Extended := m.withColumns m.innerColumns

variable {m : Model Extended} {L : Ledger Extended}

/-! ### Columns -/

theorem VariableAt.innerColumn {i k : ℕ} {info : VariableInfo} {c : Column Extended}
    (h : m.VariableAt i k info c) : m.inner.problem.columns[i]? = some (c.inner info.type) := by
  have hinfo : m.vars.values[i]? = some info := by
    rw [Registry.values, List.getElem?_map, h.entry]
    rfl
  change (List.zipWith _ m.vars.values m.problem.columns)[i]? = _
  rw [List.getElem?_zipWith, hinfo, h.column]

section
variable (hm : m.WellFormed)
include hm

theorem WellFormed.innerCount : m.inner.problem.columnCount = m.problem.columnCount := by
  have hvalues : m.vars.values.length = m.problem.columns.length := by
    rw [Registry.values, List.length_map, hm.columnCount]
  change (List.zipWith _ m.vars.values m.problem.columns).length = m.problem.columns.length
  rw [List.length_zipWith, hvalues, min_self]

/-- Every column of the inner problem comes from a variable. -/
theorem WellFormed.exists_innerColumn {j : ℕ} {d : Column Extended}
    (hd : m.inner.problem.columns[j]? = some d) :
    ∃ k info c, m.VariableAt j k info c ∧ d = c.inner info.type := by
  have hj : j < m.inner.problem.columnCount := (List.getElem?_eq_some_iff.1 hd).1
  rw [hm.innerCount] at hj
  obtain ⟨k, info, c, hat⟩ := hm.variableAt_of_lt hj
  exact ⟨k, info, c, hat, Option.some.inj (hd.symm.trans hat.innerColumn)⟩

theorem WellFormed.valueOf_inner (x : ℕ → ℚ) :
    m.inner.problem.valueOf x = m.problem.valueOf x := by
  unfold Problem.valueOf
  rw [hm.innerCount]
  refine congrArg (m.problem.constant.value + ·) (sum_congr rfl fun j hj => ?_)
  obtain ⟨k, info, c, hat⟩ := hm.variableAt_of_lt (mem_range.1 hj)
  rw [Problem.costAt, Problem.costAt, hat.innerColumn, hat.column, Option.map_some,
    Option.map_some, Column.cost_inner]

end

end Model

/-! ### Functions -/

/-- Nonzero coefficients of live variables, listed by identity, are themselves. -/
theorem Ledger.term?_list_eq {L : Ledger Extended} {c : Terms Extended}
    (hzero : ∀ v x, c v = some x → (x == 0) = false)
    (hlive : ∀ v x, c v = some x → v ∈ L.variableIndices) (k : Extended) :
    (⟨L.list c, k⟩ : AffineFunction Extended).term? = c := by
  funext v
  rw [AffineFunction.term?_eq (L.nodup_vars_list c) fun t ht => hzero _ _ (mem_list.1 ht).2]
  ext x
  rw [termIn_eq_some (L.nodup_vars_list c), mem_list]
  exact ⟨fun h => h.2, fun h => ⟨hlive v x h, h⟩⟩

namespace Represents

open Model

variable {m : Model Extended} {L : Ledger Extended} (h : Represents m L)
include h

theorem get?_of_mem {v : VariableIndex} (hv : v ∈ L.variableIndices) :
    (m.vars.get? v.value).isSome = true := by
  rw [← h.isSome_vars]
  exact h.mem_variableIndices.1 hv

/-- Terms of live variables have the value of their linear form. -/
theorem valueAt_list {c : Terms Extended} (hzero : ∀ v x, c v = some x → (x == 0) = false)
    (hlive : ∀ v x, c v = some x → v ∈ L.variableIndices) (hrat : ∀ v x, c v = some x → x.IsRat)
    (k : Extended) (z : Assignment) :
    (⟨L.list c, k⟩ : AffineFunction Extended).valueAt z = k.value + m.linear c z := by
  rw [h.wf.valueAt_eq (fun t ht => h.get?_of_mem (Ledger.mem_list.1 ht).1)
    (fun t ht => hrat _ _ (Ledger.mem_list.1 ht).2), Ledger.term?_list_eq hzero hlive]

/-- The function of an affine constraint has the activity of its row for value. -/
theorem valueAt_row {i k : ℕ} {info : ConstraintInfo Extended} {r : Row Extended}
    (hat : m.RowAt i k info r) (hr : ∀ e ∈ r.coefs, e.2.IsRat) (z : Assignment) :
    (⟨L.list (m.termOf r), 0⟩ : AffineFunction Extended).valueAt z =
      r.activity m.problem.columnCount (m.pointOf z) := by
  have hterm : ∀ v x, m.termOf r v = some x → v ∈ L.variableIndices ∧
      ∃ j, r.coefs.lookup j = some x := by
    intro v x hx
    obtain ⟨info', hv, hlookup⟩ := Option.bind_eq_some_iff.1 hx
    refine ⟨h.mem_variableIndices.2 ?_, _, hlookup⟩
    rw [h.isSome_vars, hv]
    rfl
  rw [h.valueAt_list (fun v x hx => ?_) (fun v x hx => (hterm v x hx).1) (fun v x hx => ?_),
    h.wf.activity_eq, zero_eq]
  · exact zero_add _
  · obtain ⟨j, hj⟩ := (hterm v x hx).2
    exact (hat.fits h.wf).lookup_nonzero hj
  · obtain ⟨j, hj⟩ := (hterm v x hx).2
    obtain ⟨l₁, l₂, heq, -⟩ := List.lookup_eq_some_iff.1 hj
    exact hr (j, x) (by simp [heq])

/-- The objective of the model is the one of its problem. -/
theorem valueAt_objective (hr : m.Rational) (z : Assignment) :
    m.objective.valueAt z = m.problem.valueOf (m.pointOf z) := by
  have hsingle : m.objective.valueAt z = m.affineObjective.valueAt z := by
    unfold Model.objective
    dsimp only
    split
    · next t _ ht =>
      split_ifs with hone
      · obtain ⟨hcoefficient, hconstant⟩ := Bool.and_eq_true_iff.1 hone
        rw [Function.valueAt, AffineFunction.valueAt, ht, eq_of_beq hconstant]
        simp [eq_of_beq hcoefficient, value, one_eq]
      · rfl
    · rfl
  have hcolumn : ∀ v x, L.cost v = some x → ∃ c, m.column? v = some c ∧ c.cost = x := by
    intro v x hx
    rw [h.cost] at hx
    obtain ⟨c, hc, hcost⟩ := Option.bind_eq_some_iff.1 hx
    exact ⟨c, hc, (nonzero?_eq_some.1 hcost).1⟩
  have hcost : L.cost = m.cost? := funext h.cost
  rw [hsingle, h.affineObjective_eq, h.valueAt_list (fun v x => h.nonzero_cost) (fun v x hx => ?_)
    (fun v x hx => ?_), h.constant, h.wf.valueOf_eq, hcost]
  · obtain ⟨c, hc, -⟩ := hcolumn v x hx
    obtain ⟨r, hr⟩ := h.vars_of_column hc
    exact h.mem_variableIndices.2 (by rw [hr]; rfl)
  · obtain ⟨c, hc, rfl⟩ := hcolumn v x hx
    obtain ⟨info, -, hc⟩ := Option.bind_eq_some_iff.1 hc
    exact hr.cost c (List.mem_of_getElem? hc)

/-! ### Constraints -/

/-- A model is satisfied when all columns and all rows are. -/
theorem satisfied_iff (hcoherent : ∀ v r, L.vars v = some r → r.Coherent) (hr : m.Rational)
    (z : Assignment) : m.Satisfied z ↔
      (∀ {i k info c}, m.VariableAt i k info c →
        (c.lower ≤ rat (z ⟨k⟩) ∧ rat (z ⟨k⟩) ≤ c.upper) ∧ info.type.Admits (z ⟨k⟩)) ∧
      ∀ r ∈ m.problem.rows, r.Holds m.problem.columnCount (m.pointOf z) := by
  constructor
  · refine fun hz => ⟨fun {i k info c} hat => ?_, fun r hrow => ?_⟩
    · obtain ⟨r, hr, htype, hholds⟩ := h.recordAt hat
      rw [← htype]
      refine (hholds.contains_iff (hcoherent _ _ hr)).1 fun kind hkind => ?_
      have hlive : L.isValid (.constraint ⟨.singleVariable, kind, k⟩) = true :=
        (Ledger.isValid_single rfl).2 ⟨r, hr, hkind⟩
      obtain ⟨-, d, -, hd, -, hfunction, hset⟩ := h.single_of_isValid hlive
      cases hd.symm.trans (hat.column? h.wf)
      obtain ⟨f, s, hf, hs, hin⟩ := hz _ (by rw [h.isValid]; exact hlive)
      cases hf.symm.trans hfunction
      cases hs.symm.trans hset
      exact hin
    · obtain ⟨i, hi⟩ := List.mem_iff_getElem?.1 hrow
      have hlt : i < m.affine.entries.length := by
        rw [← h.wf.rowCount]
        exact (List.getElem?_eq_some_iff.1 hi).1
      obtain ⟨r', hat⟩ := h.wf.rowAt_of_getElem (List.getElem?_eq_getElem hlt :
        m.affine.entries[i]? = some (m.affine.entries[i].1, m.affine.entries[i].2))
      cases hat.row.symm.trans hi
      have haffine := (h.affine _).trans (hat.affineRecord? h.wf)
      have hlive := (Ledger.isValid_affine
        (c := ⟨.scalarAffine, m.affine.entries[i].2.set.kind, m.affine.entries[i].1⟩) rfl).2
        ⟨_, haffine, rfl⟩
      obtain ⟨rec, hrec, -, hfunction, hset⟩ := h.affine_of_isValid rfl hlive
      cases hrec.symm.trans haffine
      obtain ⟨f, s, hf, hs, hin⟩ := hz _ (by rw [h.isValid]; exact hlive)
      cases hf.symm.trans hfunction
      cases hs.symm.trans hset
      rw [Function.valueAt, h.valueAt_row hat (hr.rows r hrow).coefs] at hin
      exact (ScalarSet.contains_iff_holds hat.bounds _ _).1 hin
  · rintro ⟨hcolumns, hrows⟩ ⟨function, kind, value⟩ hlive
    rw [h.isValid] at hlive
    cases function
    case singleVariable =>
      obtain ⟨r, c, hr, hc, hcarries, hfunction, hset⟩ := h.single_of_isValid hlive
      refine ⟨_, _, hfunction, hset, ?_⟩
      obtain ⟨hnone, -⟩ | ⟨i, k, r', info, d, heq, hr', -, hat, hshape⟩ := h.live_cases ⟨value⟩
      · cases hnone.symm.trans hr
      · cases hr'.symm.trans hr
        cases heq
        cases (hat.column? h.wf).symm.trans hc
        have htype : r.type = info.type := congrArg (·.2.2) hshape
        have hin := hcolumns hat
        rw [← htype] at hin
        exact ((h.holds hr hc).contains_iff (hcoherent _ _ hr)).2 hin kind hcarries
    case scalarAffine =>
      obtain ⟨rec, hrec, -, hfunction, hset⟩ := h.affine_of_isValid rfl hlive
      refine ⟨_, _, hfunction, hset, ?_⟩
      obtain ⟨hnone, -⟩ | ⟨i, n, info, row, -, hat, haffine⟩ := h.affine_cases value
      · cases hnone.symm.trans hrec
      · cases haffine.symm.trans hrec
        have hrow := List.mem_of_getElem? hat.row
        rw [Function.valueAt, h.valueAt_row hat (hr.rows row hrow).coefs]
        exact (ScalarSet.contains_iff_holds hat.bounds _ _).2 (hrows row hrow)
    all_goals cases hlive

end Represents

/-! ### The problem of a search -/

namespace Model.Sound

variable {m : Model Extended} (h : m.Sound) (hr : m.Rational)
include h

theorem bounds_column {i k : ℕ} {info : VariableInfo} {c : Column Extended}
    (hat : m.VariableAt i k info c) : LowerBound c.lower ∧ UpperBound c.upper := by
  obtain ⟨L, hL, hcoherent⟩ := h.ledger
  obtain ⟨r, hr, -, hholds⟩ := hL.recordAt hat
  exact ⟨hholds.lowerBound (hcoherent _ _ hr), hholds.upperBound (hcoherent _ _ hr)⟩

include hr

theorem valueAt_objective (z : Assignment) :
    m.objective.valueAt z = m.inner.problem.valueOf (m.pointOf z) := by
  obtain ⟨L, hL, -⟩ := h.ledger
  rw [hL.valueAt_objective hr, hL.wf.valueOf_inner]

theorem rational_inner : m.inner.problem.Rational where
  constant := hr.constant
  cost d hd := by
    obtain ⟨j, hj⟩ := List.mem_iff_getElem?.1 hd
    obtain ⟨k, info, c, hat, rfl⟩ := h.named.wf.exists_innerColumn hj
    rw [Column.cost_inner]
    exact hr.cost c (List.mem_of_getElem? hat.column)
  proper d hd := by
    obtain ⟨j, hj⟩ := List.mem_iff_getElem?.1 hd
    obtain ⟨k, info, c, hat, rfl⟩ := h.named.wf.exists_innerColumn hj
    exact Column.proper_inner (h.bounds_column hat).1 (h.bounds_column hat).2
  whole d hd hkind := by
    obtain ⟨j, hj⟩ := List.mem_iff_getElem?.1 hd
    obtain ⟨k, info, c, hat, rfl⟩ := h.named.wf.exists_innerColumn hj
    rw [Column.kind_inner] at hkind
    exact Column.whole_inner (h.bounds_column hat).1 (h.bounds_column hat).2
      ((h.kind_column hat).1 hkind)
  rows := hr.rows

/-- The feasible points of the problem that a search is given are the assignments that satisfy
the model. -/
theorem feasible_inner_iff (z : Assignment) :
    m.inner.problem.Feasible (m.pointOf z) ↔ m.Satisfied z := by
  obtain ⟨L, hL, hcoherent⟩ := h.ledger
  rw [hL.satisfied_iff hcoherent hr]
  have hinner : ∀ {i k info c}, m.VariableAt i k info c →
      ((((c.inner info.type).lower ≤ rat (z ⟨k⟩) ∧ rat (z ⟨k⟩) ≤ (c.inner info.type).upper) ∧
        (info.type ≠ .continuous → ∃ n : ℤ, z ⟨k⟩ = n)) ↔
          (c.lower ≤ rat (z ⟨k⟩) ∧ rat (z ⟨k⟩) ≤ c.upper) ∧ info.type.Admits (z ⟨k⟩)) :=
    fun hat => Column.inner_iff (h.bounds_column hat).1 (h.bounds_column hat).2
  constructor
  · intro hfeasible
    refine ⟨fun {i k info c} hat => (hinner hat).1 ⟨?_, fun htype => ?_⟩, fun r hrow => ?_⟩
    · have hwithin := hfeasible.relaxed.within hat.innerColumn
      rwa [hat.pointOf] at hwithin
    · obtain ⟨n, hn⟩ := hfeasible.integral i (Problem.mem_integers.2
        ⟨_, hat.innerColumn, by rw [Column.kind_inner]; exact (h.kind_column hat).2 htype⟩)
      exact ⟨n, hat.pointOf z ▸ hn⟩
    · have hholds := hfeasible.relaxed.holds r hrow
      rwa [h.named.wf.innerCount] at hholds
  · rintro ⟨hcolumns, hrows⟩
    refine ⟨⟨fun {j d} hd => ?_, fun r hrow => ?_⟩, fun j hj => ?_⟩
    · obtain ⟨k, info, c, hat, rfl⟩ := h.named.wf.exists_innerColumn hd
      rw [hat.pointOf]
      exact ((hinner hat).2 (hcolumns hat)).1
    · rw [h.named.wf.innerCount]
      exact hrows r hrow
    · obtain ⟨d, hd, hkind⟩ := Problem.mem_integers.1 hj
      obtain ⟨k, info, c, hat, rfl⟩ := h.named.wf.exists_innerColumn hd
      rw [Column.kind_inner] at hkind
      rw [hat.pointOf]
      exact ((hinner hat).2 (hcolumns hat)).2 ((h.kind_column hat).1 hkind)

end Model.Sound

end MixedInteger
