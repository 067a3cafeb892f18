import MixedInteger.Model.Optimize
import MixedInteger.Proofs.Model.Satisfaction
import MixedInteger.Proofs.Search.Growth

/-! Constraints that come to a search while it runs. A callback adds each of them as a row of
the working problem. The row is rational and holds at the point of an assignment when the
constraint does. What a callback reads of the relaxation is the point of the relaxation, so a
callback that adds what is violated there, and nothing else, leaves only points at which
nothing is violated. -/

namespace MixedInteger

open Extended Finset

/-- The coefficients of a canonical form are sums of coefficients of terms. -/
theorem AffineFunction.of_mem_canonical {f : AffineFunction Extended} {t : Term Extended}
    (ht : t ∈ f.canonical.terms) :
    (∃ u ∈ f.terms, u.var = t.var) ∧ t.coefficient = f.coefficient t.var := by
  have hterm := f.termIn_canonical t.var
  rw [(termIn_eq_some f.nodup_vars_canonical).2 ht, term?, eq_comm, nonzero?_eq_some] at hterm
  exact ⟨by simpa using mem_vars_canonical ht, hterm.1.symm⟩

theorem AffineFunction.isRat_coefficient {f : AffineFunction Extended}
    (h : ∀ t ∈ f.terms, t.coefficient.IsRat) (v : VariableIndex) : (f.coefficient v).IsRat := by
  rw [coefficient, sum_eq]
  · exact isRat_rat _
  · intro x hx
    obtain ⟨u, hu, rfl⟩ := List.mem_map.1 hx
    exact h u (List.mem_filter.1 hu).1

/-- A constraint that a callback may add. -/
structure LazyConstraint where
  function : AffineFunction Extended
  set : ScalarSet Extended

namespace LazyConstraint

/-- Does the assignment satisfy the constraint? -/
def Holds (e : LazyConstraint) (z : Assignment) : Prop := e.set.Contains (e.function.valueAt z)

/-- A function without constant over live variables, in a set that a row can lie in. All numbers
are rational. -/
structure Proper (e : LazyConstraint) (m : Model Extended) : Prop where
  constant : e.function.constant = 0
  live : ∀ t ∈ e.function.terms, m.isValid (.var t.var) = true
  coefficient : ∀ t ∈ e.function.terms, t.coefficient.IsRat
  set : e.set.isRow = true
  value : ∀ v ∈ e.set.values, v.IsRat

/-- The row that is added for a constraint. -/
def row (e : LazyConstraint) (m : Model Extended) : Row Extended :=
  (e.set.rowBound?.map ({ coefs := m.coefsOf e.function } : Row Extended).within).getD {}

variable {e : LazyConstraint} {m m' : Model Extended}

theorem row_congr (e : LazyConstraint) (hv : m'.vars = m.vars) : e.row m' = e.row m := by
  rw [row, row, Model.coefsOf, Model.coefsOf, hv]

namespace Proper

theorem congr (h : e.Proper m) (hv : m'.vars = m.vars) : e.Proper m' where
  constant := h.constant
  live t ht := by
    rw [Model.isValid, hv]
    exact h.live t ht
  coefficient := h.coefficient
  set := h.set
  value := h.value

variable (h : e.Proper m)
include h

theorem exists_bound : ∃ b, e.set.rowBound? = some b ∧
    e.row m = ({ coefs := m.coefsOf e.function } : Row Extended).within b := by
  obtain ⟨b, hb⟩ : ∃ b, e.set.rowBound? = some b := by
    have hset := h.set
    cases hs : e.set <;> rw [hs] at hset <;> first | exact ⟨_, rfl⟩ | cases hset
  exact ⟨b, hb, by rw [row, hb]; rfl⟩

theorem rational : (e.row m).Rational := by
  obtain ⟨b, hb, hrow⟩ := h.exists_bound
  have hvalue := h.value
  have hcoefs : ∀ a ∈ m.coefsOf e.function, a.2.IsRat := by
    intro a ha
    obtain ⟨t, ht, info, -, rfl⟩ := Model.mem_coefsOf ha
    rw [(AffineFunction.of_mem_canonical ht).2]
    exact AffineFunction.isRat_coefficient h.coefficient _
  rw [hrow]
  cases hs : e.set <;> rw [hs] at hb hvalue <;> cases hb
  · exact ⟨hcoefs, rfl, (fun h => nomatch h), fun _ => hvalue _ List.mem_cons_self⟩
  · exact ⟨hcoefs, rfl, fun _ => hvalue _ List.mem_cons_self, fun h => nomatch h⟩
  · exact ⟨hcoefs, rfl, fun _ => hvalue _ List.mem_cons_self, fun h => nomatch h⟩

variable (hm : m.WellFormed)
include hm

theorem isSome : ∀ t ∈ e.function.terms, (m.vars.get? t.var.value).isSome = true := by
  intro t ht
  rw [← hm.vars.contains_eq]
  exact h.live t ht

theorem firstDead : m.firstDead e.function.canonical.terms = none :=
  Model.firstDead_canonical_eq_none (h.isSome hm)

/-- The row holds at a point when the constraint holds. -/
theorem holds_row (z : Assignment) :
    (e.row m).Holds m.problem.columnCount (m.pointOf z) ↔ e.Holds z := by
  obtain ⟨b, hb, hrow⟩ := h.exists_bound
  have hactivity : (e.row m).activity m.problem.columnCount (m.pointOf z) =
      e.function.valueAt z := by
    rw [hm.activity_eq, hm.valueAt_eq (h.isSome hm) h.coefficient, h.constant, zero_eq, hrow]
    refine (sum_congr rfl fun j hj => ?_).trans (zero_add _).symm
    obtain ⟨k, info, c, hat⟩ := hm.variableAt_of_lt (mem_range.1 hj)
    rw [hat.variableOf, hat.termOf hm, ← hat.number]
    exact congrArg (fun o => (Option.getD o 0).value * _) (hm.lookup_coefsOf _ (hat.get? hm))
  rw [Holds, ← hactivity]
  refine (ScalarSet.contains_iff_holds ?_ _ _).symm
  rw [hb, hrow]
  rfl

end Proper

end LazyConstraint

/-! ### What a callback reads and writes -/

section
variable {σ : Type} (s : Scene Extended σ)

@[simp] theorem SearchTask.tree_run : SearchTask.tree s = .ok s.tree s := rfl

@[simp] theorem SearchTask.modifyTree_run (f : Tree Extended → Tree Extended) :
    SearchTask.modifyTree f s = .ok () { s with tree := f s.tree } := rfl

end

namespace CallbackData

variable {σ : Type} (d : CallbackData Extended) (s : Scene Extended σ)

/-- The values that a callback is told for the variables that are live. -/
def Reports (z : Assignment) : Prop :=
  ∀ v, d.model.isValid (.var v) = true → d.variablePrimal (.var v) s = .ok (rat (z v)) s

/-- Adds constraints one after another. -/
def addAll (es : List LazyConstraint) : SearchTask Extended σ Unit :=
  es.forM fun e => d.addLazy (.affine e.function) (.set e.set)

variable {d s} (hvalid : d.valid = true)
include hvalid

theorem tree_of_valid : d.tree s = .ok s.tree s := by
  simp only [tree, model?, hvalid, if_true, ofExcept, bind_run, pure_run, SearchTask.tree_run]

/-- What a callback is told at row generation stands in the solution of the relaxation. -/
theorem Reports.valueAt_colPrimal {z : Assignment} (h : d.Reports s z)
    (hreason : s.tree.reason = some .rowGeneration) {v : VariableIndex} {info : VariableInfo}
    (hv : d.model.isValid (.var v) = true) (hinfo : d.model.vars.get? v.value = some info) :
    valueAt s.tree.problem.basic.colPrimal info.column = rat (z v) := by
  have hrun := h v hv
  simp only [variablePrimal, bind_run, tree_of_valid hvalid, hreason, ne_eq, not_true_eq_false,
    if_false, Model.info_var, hinfo, ofExcept, pure_run, Problem.columnValue] at hrun
  cases hcolumn : s.tree.problem.column info.column with
  | error e =>
    rw [hcolumn] at hrun
    cases hrun
  | ok c =>
    rw [hcolumn] at hrun
    exact (EStateM.Result.ok.inj hrun).1

variable (hm : d.model.WellFormed)
include hm

/-- At row generation these are the values of the relaxation. -/
theorem reports {x : ℕ → ℚ} (hreason : s.tree.reason = some .rowGeneration)
    (hcolumns : s.tree.problem.columnCount = d.model.problem.columnCount)
    (hpoint : s.tree.problem.basic.colPrimal = firstValues s.tree.problem.columnCount x) :
    d.Reports s (d.model.assignmentOf x) := by
  rintro ⟨v⟩ hv
  rw [Model.isValid, hm.vars.contains_eq, Option.isSome_iff_exists] at hv
  obtain ⟨info, hinfo⟩ := hv
  obtain ⟨i, k, c, rfl, hat⟩ := hm.variableAt hinfo
  have hi : i < s.tree.problem.columnCount := by
    rw [hcolumns]
    exact hat.place_lt
  have hcolumn : s.tree.problem.columnValue s.tree.problem.basic.colPrimal info.column =
      .ok (rat (x i)) := by
    rw [Problem.columnValue, hat.number,
      Problem.column_of_getElem (List.getElem?_eq_getElem hi), hpoint, bind_ok, pure_except,
      valueAt_firstValues hi]
  have hinfo' : d.model.info (.var ⟨k⟩) = .ok info := by rw [Model.info_var, hinfo]
  simp only [variablePrimal, bind_run, tree_of_valid hvalid, hreason, ne_eq, not_true_eq_false,
    if_false, hinfo', ofExcept, pure_run, SearchTask.ofProblem, hcolumn, hat.assignmentOf hm]

/-- A constraint becomes the last row. -/
theorem addLazy_run {e : LazyConstraint} (he : e.Proper d.model)
    (hcolumns : s.tree.problem.columnCount = d.model.problem.columnCount) :
    ∃ s', d.addLazy (.affine e.function) (.set e.set) s = .ok () s' ∧
      s'.tree = { s.tree with problem :=
        { s.tree.problem with rows := s.tree.problem.rows ++ [e.row d.model] }.padSolutions } := by
  obtain ⟨b, hb, hrow⟩ := he.exists_bound
  have hfits : ({ coefs := d.model.coefsOf e.function } : Row Extended).Fits
      s.tree.problem.columnCount := hcolumns ▸ hm.fits_coefsOf e.function {}
  obtain ⟨sense, rhs, hsense, hadd⟩ := Modelling.addAffineRow_run s.tree.problem _ hfits hb
  rw [← hrow] at hadd
  have hrowOf : d.model.rowOf e.function =
      .ok ((d.model.coefsOf e.function).map fun a => (a.1 : Int),
        (d.model.coefsOf e.function).map (·.2)) := by
    rw [Model.rowOf_eq, he.firstDead hm]
  have hconstant : (e.function.constant == 0) = true := by
    rw [he.constant]
    rfl
  have hedit : editRow (Problem.addAffineRow ((d.model.coefsOf e.function).map fun a => (a.1 : Int))
      ((d.model.coefsOf e.function).map (·.2)) sense rhs) s =
      .ok (s.tree.problem.rowCount + 1) { s with tree := { s.tree with
        problem := { s.tree.problem with
          rows := s.tree.problem.rows ++ [e.row d.model] }.padSolutions } } := by
    simp only [editRow, bind_run, SearchTask.tree_run, hadd, SearchTask.modifyTree_run, pure_run]
  simp only [addLazy, he.set, hconstant, Bool.not_true, Bool.false_eq_true, if_false, model?,
    hvalid, if_true, ofExcept, hrowOf, hsense, bind_run, pure_run, hedit, SearchTask.tree_run]
  exact ⟨_, rfl, rfl⟩

end CallbackData

end MixedInteger
