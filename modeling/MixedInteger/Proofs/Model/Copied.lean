import MixedInteger.Proofs.Model.CopyRun

/-! The end of a copy. After all constraints the objective is set: a single variable as such,
another function as what it is, whatever it was set as before. -/

namespace MixedInteger

variable {α : Type} [Scalar α]

/-! ### The variables of a copy -/

section Lists
variable {m : Model α} {L : Ledger α} (h : Represents m L)

include h in
theorem copied_variableIndices (as ss : List ConstraintIndex) :
    (L.copied m L.variableIndices as ss).variableIndices =
      L.variableIndices.map (recount L.variableIndices) := by
  rw [map_recount L.nodup_variableIndices, Ledger.variableIndices, Ledger.identities,
    List.filter_eq_self.2, List.map_map]
  · rfl
  · intro k hk
    obtain ⟨i, hi, rfl⟩ := List.mem_map.1 hk
    have hlt : i < L.variableIndices.length := List.mem_range.1 hi
    have hmem := List.getElem_mem hlt
    obtain ⟨r, hr⟩ := Option.isSome_iff_exists.1 (h.mem_variableIndices.1 hmem)
    obtain ⟨c, hc⟩ := h.column_of_vars hr
    have hnew : recount L.variableIndices L.variableIndices[i] = ⟨(i + 1 : Nat)⟩ := by
      rw [recount, L.nodup_variableIndices.idxOf_getElem]
    rw [← hnew, copied_vars hmem hr hc as ss]
    rfl

theorem list_recount {L' : Ledger α}
    (hL : L'.variableIndices = L.variableIndices.map (recount L.variableIndices)) (c : Terms α) :
    L'.list (fun w => (nth? L.variableIndices w.value).bind c) =
      (L.list c).map (Term.rename (recount L.variableIndices)) := by
  rw [Ledger.list, hL, List.filterMap_map, Ledger.list, List.map_filterMap]
  refine List.filterMap_congr fun v hv => ?_
  rw [Function.comp_apply, nth?_recount hv, Option.bind_some, Option.map_map]
  rfl

end Lists

/-! ### The objective -/

namespace Ledger

/-- The ledger with another objective. -/
def withObjective (L : Ledger α) (cost : Terms α) (constant : α) (kind : ObjectiveKind) :
    Ledger α :=
  { L with cost := cost, constant := constant, objectiveKind := kind }

variable {L L' : Ledger α}

/-- An objective over recounted variables is answered in the same way. -/
theorem objective_rename {ρ : VariableIndex → VariableIndex}
    (hkind : L'.objectiveKind = L.objectiveKind) (hconstant : L'.constant = L.constant)
    (hlist : L'.list L'.cost = (L.list L.cost).map (Term.rename ρ)) :
    L'.objective = L.objective.rename ρ := by
  rw [objective, objective, hkind, hconstant, hlist]
  cases L.objectiveKind with
  | scalarAffine => rfl
  | singleVariable =>
    cases L.list L.cost with
    | nil => rfl
    | cons t ts =>
      cases ts with
      | cons u us => rfl
      | nil =>
        change (if t.coefficient == 1 && L.constant == 0 then _ else _) =
          (if t.coefficient == 1 && L.constant == 0 then _ else _ : Function α).rename ρ
        split_ifs <;> rfl

/-- A single variable as an answer was set as such and has coefficient one. -/
theorem of_objective_single {v : VariableIndex} (h : L.objective = .single v) :
    L.objectiveKind = .singleVariable ∧ (L.constant == 0) = true ∧
      ∃ x, L.list L.cost = [⟨x, v⟩] ∧ (x == 1) = true := by
  rw [objective] at h
  cases hkind : L.objectiveKind with
  | scalarAffine =>
    rw [hkind] at h
    cases h
  | singleVariable =>
    cases hlist : L.list L.cost with
    | nil =>
      rw [hkind, hlist] at h
      cases h
    | cons t ts =>
      cases ts with
      | cons u us =>
        rw [hkind, hlist] at h
        cases h
      | nil =>
        simp only [hkind, hlist] at h
        split_ifs at h with hone
        cases h
        rw [Bool.and_eq_true] at hone
        exact ⟨rfl, hone.2, _, rfl, hone.1⟩

theorem of_objective_affine {f : AffineFunction α} (h : L.objective = .affine f) :
    f = ⟨L.list L.cost, L.constant⟩ := by
  rw [objective] at h
  dsimp only at h
  split at h
  · split_ifs at h
    cases h
    rfl
  · cases h
    rfl

/-- The objective is over live variables. -/
theorem mem_vars_objective {v : VariableIndex} (h : v ∈ L.objective.vars) :
    v ∈ L.variableIndices := by
  cases hobjective : L.objective with
  | affine f =>
    rw [hobjective, of_objective_affine hobjective] at h
    obtain ⟨t, ht, rfl⟩ := List.mem_map.1 h
    exact (mem_list.1 ht).1
  | single w =>
    obtain ⟨-, -, x, hlist, -⟩ := of_objective_single hobjective
    have ht : (⟨x, w⟩ : Term α) ∈ L.list L.cost := by simp [hlist]
    rw [hobjective] at h
    rw [List.mem_singleton.1 h]
    exact (mem_list.1 ht).1

end Ledger

/-! ### How the objective was set -/

section Objective
variable [LawfulScalar α] {m : Model α} {L : Ledger α} (h : Represents m L)
  (as ss : List ConstraintIndex)
include h

theorem copied_setAffine {f : AffineFunction α} (hf : L.objective = .affine f) :
    ∃ cost constant kind,
      (L.copied m L.variableIndices as ss).setObjective
          (.affine (f.rename (recount L.variableIndices))) =
        .ok ((L.copied m L.variableIndices as ss).withObjective cost constant kind) ∧
      ((L.copied m L.variableIndices as ss).withObjective cost constant L.objectiveKind).objective =
        L.objective.rename (recount L.variableIndices) := by
  have hparts := Ledger.of_objective_affine hf
  have hterm := L.term?_list (c := L.cost) (fun v x hx => h.nonzero_cost hx) L.constant
  have hcheck : (L.copied m L.variableIndices as ss).checkTerms
      (f.rename (recount L.variableIndices)).terms = .ok () := by
    refine h.copied_checkTerms fun t ht => ?_
    obtain ⟨u, hu, rfl⟩ := List.mem_map.1 ht
    rw [hparts] at hu
    exact ⟨u.var, (Ledger.mem_list.1 hu).1, rfl⟩
  refine ⟨(f.rename (recount L.variableIndices)).term?, L.constant, .scalarAffine, ?_, ?_⟩
  · rw [Ledger.setObjective, Ledger.setAffineObjective, hcheck, hparts]
    rfl
  · rw [hparts, funext hterm]
    exact Ledger.objective_rename rfl rfl
      (list_recount (copied_variableIndices h as ss) L.cost)

theorem copied_setSingle {v : VariableIndex} (hv : L.objective = .single v) :
    ∃ cost constant,
      (L.copied m L.variableIndices as ss).setObjective
          (.single (recount L.variableIndices v)) =
        .ok ((L.copied m L.variableIndices as ss).withObjective cost constant L.objectiveKind) ∧
      ((L.copied m L.variableIndices as ss).withObjective cost constant L.objectiveKind).objective =
        .single (recount L.variableIndices v) := by
  obtain ⟨hkind, -, x, hlist, hone⟩ := Ledger.of_objective_single hv
  obtain ⟨hmem, hcost⟩ : v ∈ L.variableIndices ∧ L.cost v = some x := by
    have ht : (⟨x, v⟩ : Term α) ∈ L.list L.cost := by simp [hlist]
    exact Ledger.mem_list.1 ht
  have hnonzero : ((1 : α) == 0) = false := by
    by_contra hzero
    rw [Bool.not_eq_false] at hzero
    have := OrderedScalar.beq_trans hone hzero
    rw [h.nonzero_cost hcost] at this
    cases this
  -- one where there is a cost
  have hones : L.list (fun u => (L.cost u).map fun _ => 1) = [⟨1, v⟩] := by
    have hmap : L.list (fun u => (L.cost u).map fun _ => 1) =
        (L.list L.cost).map fun t => ⟨1, t.var⟩ := by
      simp only [Ledger.list, List.map_filterMap, Option.map_map, Function.comp_def]
    rw [hmap, hlist]
    rfl
  have hterm := L.term?_list (c := fun u => (L.cost u).map fun _ => 1)
    (fun u y hy => by
      obtain ⟨-, -, rfl⟩ := Option.map_eq_some_iff.1 hy
      exact hnonzero) 0
  have hcheck : (L.copied m L.variableIndices as ss).checkTerms
      [⟨1, recount L.variableIndices v⟩] = .ok () :=
    h.copied_checkTerms fun t ht => ⟨v, hmem, by rw [List.mem_singleton.1 ht]⟩
  have hlist' := list_recount (copied_variableIndices h as ss)
    fun u => (L.cost u).map fun _ => 1
  rw [hones] at hterm hlist'
  refine ⟨(⟨[⟨1, recount L.variableIndices v⟩], 0⟩ : AffineFunction α).term?, 0, ?_, ?_⟩
  · rw [Ledger.setObjective, Ledger.setAffineObjective, hcheck, hkind]
    rfl
  · have hunit : ((1 : α) == 1 && (0 : α) == 0) = true := by
      rw [Bool.and_eq_true]
      exact ⟨OrderedScalar.beq_refl LawfulScalar.isNaN_one,
        OrderedScalar.beq_refl OrderedScalar.isNaN_zero⟩
    have hcosts : (⟨[⟨1, recount L.variableIndices v⟩], 0⟩ : AffineFunction α).term? =
        fun w => (nth? L.variableIndices w.value).bind fun u => (L.cost u).map fun _ => 1 :=
      funext hterm
    have hanswer : ((L.copied m L.variableIndices as ss).withObjective
        (⟨[⟨1, recount L.variableIndices v⟩], 0⟩ : AffineFunction α).term? 0
          L.objectiveKind).list (⟨[⟨1, recount L.variableIndices v⟩], 0⟩ : AffineFunction α).term? =
        [⟨1, recount L.variableIndices v⟩] := by
      rw [hcosts]
      exact hlist'
    rw [Ledger.objective, hkind]
    rw [hkind] at hanswer
    simp only [Ledger.withObjective] at hanswer ⊢
    rw [hanswer]
    exact if_pos hunit

theorem copied_setObjective : ∃ cost constant kind,
    (L.copied m L.variableIndices as ss).setObjective
        (L.objective.rename (recount L.variableIndices)).argument =
      .ok ((L.copied m L.variableIndices as ss).withObjective cost constant kind) ∧
    (∀ v, L.objective = .single v → kind = L.objectiveKind) ∧
    ((L.copied m L.variableIndices as ss).withObjective cost constant L.objectiveKind).objective =
      L.objective.rename (recount L.variableIndices) := by
  cases hobjective : L.objective with
  | affine f =>
    obtain ⟨cost, constant, kind, hrun, hanswer⟩ := copied_setAffine h as ss hobjective
    exact ⟨cost, constant, kind, hrun, (fun v hv => by cases hv), hobjective ▸ hanswer⟩
  | single v =>
    obtain ⟨cost, constant, hrun, hanswer⟩ := copied_setSingle h as ss hobjective
    exact ⟨cost, constant, L.objectiveKind, hrun, fun _ _ => rfl, hanswer⟩

end Objective

/-! ### The whole run -/

namespace Model

/-- A direction and whether there is an objective at all. -/
def withSense (m : Model α) (sense : ObjectiveSense) : Model α :=
  { m with
    problem := { m.problem with
      direction := if sense = .maximize then .maximize else .minimize }
    feasibility := sense = .feasibility }

theorem objectiveSense_withSense (m : Model α) (sense : ObjectiveSense) :
    (m.withSense sense).objectiveSense = sense := by
  cases sense <;> rfl

end Model

/-- Setting an objective leaves the sense alone. -/
theorem Modelling.objectiveSense_of_setObjective {f : FunctionArg α} {m m' : Model α}
    (h : setObjective f m = .ok () m') : m'.objectiveSense = m.objectiveSense := by
  have hset : ∀ kind (f : AffineFunction α), setAffineObjective kind f m = .ok () m' →
      m'.objectiveSense = m.objectiveSense := by
    intro kind f h
    rw [setAffineObjective, bind_run, query_run] at h
    cases hcosts : costs m f with
    | error e =>
      rw [hcosts] at h
      cases h
    | ok costs =>
      rw [hcosts] at h
      cases h
      rfl
  cases f with
  | raw x => cases h
  | var v => exact hset _ _ h
  | single v => exact hset _ _ h
  | affine f => exact hset _ _ h

/-- What a copy comes to. -/
structure Copied (m : Model α) (L : Ledger α) (map : IndexMap) (d : Model α) : Prop where
  named : d.Named
  represents : ∃ cost constant, Represents d
    ((L.copied m L.variableIndices (L.listed .scalarAffine) (L.listed .singleVariable)).withObjective
      cost constant L.objectiveKind)
  vars : map.vars = L.variableIndices.map fun v => (v, recount L.variableIndices v)
  constraints : map.constraints =
    copies L.variableIndices (L.listed .scalarAffine) (L.listed .singleVariable)
  variableName : ∀ v ∈ L.variableIndices,
    d.nameOfVariable (.var (recount L.variableIndices v)) = m.nameOfVariable (.var v)
  constraintName : ∀ e ∈ map.constraints, d.nameOfConstraint e.2 = m.nameOfConstraint e.1
  objective : d.objective = m.objective.rename (recount L.variableIndices)
  sense : d.objectiveSense = m.objectiveSense
  name : d.problem.name = m.problem.name

section Run
variable [LawfulScalar α] {m : Model α} {L : Ledger α}

/-- A copy never fails. -/
theorem copyFrom_run (hm : m.Named) (h : Represents m L)
    (hcoherent : ∀ v r, L.vars v = some r → r.Coherent) (m' : Model α) :
    ∃ map d, Modelling.copyFrom m m' = .ok map d ∧ Copied m L map d := by
  obtain ⟨map₁, m₁, map, m₂, hvars, hconstraints, hc⟩ := copyAll_run h hm hcoherent m'
  obtain ⟨cost, constant, kind, hset, hkind, hanswer⟩ :=
    copied_setObjective h (L.listed .scalarAffine) (L.listed .singleVariable)
  -- the sense
  have hwf : (m₂.withSense m.objectiveSense).WellFormed :=
    hc.represents.wf.congr rfl rfl rfl rfl
  have hsense := hc.named.inside hwf rfl (fun _ => rfl) rfl rfl
  have hrepr : Represents (m₂.withSense m.objectiveSense) (L.copied m L.variableIndices
      (L.listed .scalarAffine) (L.listed .singleVariable)) :=
    hc.represents.congr rfl rfl rfl rfl rfl rfl rfl rfl
  -- the objective
  have hfunction : map.function m.objective =
      .ok (L.objective.rename (recount L.variableIndices)).argument := by
    rw [h.objective]
    exact IndexMap.function_eq hc.vars fun v hv => Ledger.mem_vars_objective hv
  have hagrees := hrepr.setObjective (L.objective.rename (recount L.variableIndices)).argument
  have hnames := hsense.named.setObjective
    (L.objective.rename (recount L.variableIndices)).argument
  rw [hset] at hagrees
  cases hrun : Modelling.setObjective (L.objective.rename (recount L.variableIndices)).argument
      (m₂.withSense m.objectiveSense) with
  | error e m₃ =>
    rw [hrun] at hagrees
    cases hagrees
  | ok b m₃ =>
    rw [hrun] at hagrees
    rw [after_ok hrun] at hnames
    cases hagrees with
    | ok hset =>
      let d : Model α := { m₃ with
        objectiveKind := m.objectiveKind
        problem := { m₃.problem with name := m.problem.name } }
      have hd : Represents d ((L.copied m L.variableIndices (L.listed .scalarAffine)
          (L.listed .singleVariable)).withObjective cost constant L.objectiveKind) :=
        { hset with
          wf := hset.wf.congr rfl rfl rfl rfl
          objectiveKind := h.objectiveKind }
      have hkeeps := (hsense.trans hnames).trans
        (hnames.named.inside hd.wf rfl (fun _ => rfl) rfl rfl)
      refine ⟨map, d, ?_, hkeeps.named, ⟨_, _, hd⟩, hc.vars, hc.constraints, fun v hv => ?_,
        fun e he => ?_, ?_, ?_, rfl⟩
      · have hsense : Modelling.setObjectiveSense m.objectiveSense m₂ =
            .ok () (m₂.withSense m.objectiveSense) := rfl
        simp only [Modelling.copyFrom, bind_run, modify_run, hvars, hconstraints, hsense,
          hfunction, Modelling.ofExcept_ok, pure_run, hrun]
        cases hobjective : L.objective with
        | affine f =>
          rw [h.objective, hobjective]
          rfl
        | single v =>
          have hm₃ : m₃.objectiveKind = m.objectiveKind := by
            rw [← hset.objectiveKind, ← h.objectiveKind]
            exact hkind v hobjective
          rw [h.objective, hobjective]
          simp only [pure_run, bind_run, modify_run, d, ← hm₃]
      · rw [hkeeps.ofVariable, hc.variableName v hv]
      · rw [hkeeps.ofConstraint, hc.constraintName e (hc.constraints ▸ he)]
      · rw [hd.objective, h.objective, hanswer]
      · have hsame : d.objectiveSense = m₃.objectiveSense := rfl
        rw [hsame, Modelling.objectiveSense_of_setObjective hrun, Model.objectiveSense_withSense]

end Run

end MixedInteger
