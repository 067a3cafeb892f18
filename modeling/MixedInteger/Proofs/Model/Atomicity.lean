import MixedInteger.Model.Objective
import MixedInteger.Proofs.Model.Call
import MixedInteger.Proofs.Model.Renaming

/-! What a call that fails leaves behind. A call looks everything up before it writes, and what it
writes then is not refused, so a failing call leaves the model as it was. There is one exception: a
variable takes on a bound set before its column is asked, and a column refuses bounds of which one
is no number. -/

namespace MixedInteger

variable {α β γ : Type} [Scalar α]

/-- A call that ends with a well-formed model, or fails and leaves the model as it was. -/
def Modelling.Atomic (x : Modelling α β) (m : Model α) : Prop :=
  Runs x m (fun _ m' => m'.WellFormed) (· = m)

namespace Modelling.Atomic

variable {m m' : Model α} {x : Modelling α β}

theorem of_error {e : Fault α} (h : x m = .error e m) : Atomic x m := by
  rw [Atomic, Runs, h]

theorem of_ok {b : β} (h : x m = .ok b m') (h' : m'.WellFormed) : Atomic x m := Runs.of_ok h h'

/-- An answer at the end changes nothing. -/
theorem answer (h : Atomic x m) (f : β → γ) : Atomic (do return f (← x)) m :=
  Runs.bind h fun _ _ h' => .pure h'

end Modelling.Atomic

/-- The variable that a function is, on its own. -/
def FunctionArg.variable? : FunctionArg α → Option VariableIndex
  | .var v | .single v => some v
  | _ => none

/-- `m'` is `m` with a bound set on a variable whose column refuses the bounds. One of them is no
number; the column keeps the bounds that it had. -/
inductive Model.HalfDone (m : Model α) : Edit α → Model α → Prop
  | bound {f : FunctionArg α} {i k : Nat} {info : VariableInfo} {c : Column α} {s : ScalarSet α}
      {b : BoundState} :
    f.variable? = some ⟨k⟩ → m.VariableAt i k info c → info.addBound s.kind = .ok b →
    m.problem.refusesChange c s.change = true →
    Scalar.isNaN (s.change.lower.getD c.lower) = true ∨
      Scalar.isNaN (s.change.upper.getD c.upper) = true →
    HalfDone m (.addConstraint f (.set s)) (m.withVariable k fun info => { info with bound := b })

namespace Model.WellFormed

open Modelling

variable {m : Model α} (h : m.WellFormed)
include h

/-! ### Variables -/

theorem addVariables_atomic (n : Int) : Atomic (addVariables n) m := by
  by_cases hn : 1 ≤ n
  · exact .of_ok (addVariables_run h hn) (h.grown _)
  · rw [addVariables, if_pos (by omega)]
    exact .of_ok rfl h

theorem deleteVariable_atomic (v : VariableIndex) : Atomic (deleteVariable v) m := by
  obtain ⟨e, hm⟩ | ⟨i, k, info, c, -, hat, hv⟩ := h.info_cases (.var v)
  · exact .of_error (query_bind_error hm _)
  · cases hv v rfl
    exact .of_ok (deleteVariable_run h hat) (h.withoutVariable hat)

theorem setVariableBound_atomic {i : Nat} {c : Column α} (hc : m.problem.columns[i]? = some c)
    (b : BoundChange α) : Atomic (setVariableBound (i + 1) b) m := by
  have hrun := setVariableBound_run hc b
  split_ifs at hrun
  · exact .of_error hrun
  · exact .of_ok hrun (h.modifyColumn i _)

/-! ### Constraints on single variables -/

theorem halfDone {m' : Model α} {e : Edit α} (hm : m.HalfDone e m') : m'.WellFormed := by
  cases hm
  exact h.withVariable _ (fun _ => rfl) fun _ => rfl

/-- The variable takes on the set in any case; only the bounds of the column may be refused. -/
theorem addBoundConstraint_eq {i k : Nat} {info : VariableInfo} {c : Column α}
    (hat : m.VariableAt i k info c) {s : ScalarSet α} {b : BoundState}
    (hb : info.addBound s.kind = .ok b) : addBoundConstraint ⟨k⟩ s m =
      if m.problem.refusesChange c s.change then
        .error (.problem (.columnBounds ((i + 1 : Nat) : Int) (c.rebound s.change).lower
          (c.rebound s.change).upper)) (m.withVariable k fun info => { info with bound := b })
      else .ok ⟨.singleVariable, s.kind, k⟩
        ((m.withVariable k fun info => { info with bound := b }).withColumn i
          (·.rebound s.change)) := by
  have hset := setVariableBound_run (m := m.withVariable k fun info => { info with bound := b })
    (c := c) hat.column s.change
  rw [addBoundConstraint_run h hat hb, hset]
  have hproblem : (m.withVariable k fun info => { info with bound := b }).problem = m.problem := rfl
  rw [hproblem]
  split_ifs <;> rfl

theorem addBoundConstraint_runs [OrderedScalar α] {f : FunctionArg α} {v : VariableIndex}
    (hf : f.variable? = some v) (s : ScalarSet α) :
    Runs (addBoundConstraint v s) m (fun _ m' => m'.WellFormed)
      fun m' => m' = m ∨ m.HalfDone (.addConstraint f (.set s)) m' := by
  obtain ⟨e, hm⟩ | ⟨i, k, info, c, hm, hat, hv⟩ := h.info_cases (.var v)
  · exact (Atomic.of_error (query_bind_error hm _)).weaken fun _ => .inl
  cases hv v rfl
  cases hb : info.addBound s.kind with
  | error e => exact (Atomic.of_error (addBoundConstraint_error hm hb)).weaken fun _ => .inl
  | ok b =>
    have htaken : (m.withVariable k fun info => { info with bound := b }).WellFormed :=
      h.withVariable k (fun _ => rfl) fun _ => rfl
    have hrun := h.addBoundConstraint_eq hat hb
    split_ifs at hrun with hrefused
    · rw [Runs, hrun]
      refine .inr (.bound hf hat hb hrefused ?_)
      by_contra hnumbers
      rw [not_or, Bool.not_eq_true, Bool.not_eq_true] at hnumbers
      rw [refusesChange_eq_false _ hnumbers.1 hnumbers.2] at hrefused
      cases hrefused
    · exact .of_ok hrun (htaken.modifyColumn i _)

theorem addTypeConstraint_atomic (v : VariableIndex) (t : TypeState) (kind : Kind) :
    Atomic (addTypeConstraint v t kind) m := by
  obtain ⟨e, hm⟩ | ⟨i, k, info, c, hm, hat, hv⟩ := h.info_cases (.var v)
  · exact .of_error (query_bind_error hm _)
  · cases hv v rfl
    by_cases ht : info.type = .continuous
    · have hwf := (h.modifyColumn i fun c => { c with kind := .integer }).withVariable k
        (f := fun info => { info with type := t }) (fun _ => rfl) fun _ => rfl
      exact .of_ok (addTypeConstraint_run h hat ht t kind) (hwf.congr rfl rfl rfl rfl)
    · exact .of_error (addTypeConstraint_error hm ht)

theorem deleteSingleConstraint_atomic [OrderedScalar α] (kind : Kind) (value : Int) :
    Atomic (deleteSingleConstraint ⟨.singleVariable, kind, value⟩) m := by
  obtain ⟨e, hm⟩ | ⟨i, k, info, c, rfl, hat, hcarries, -⟩ := h.single_cases kind value
  · exact .of_error (query_bind_error hm _)
  obtain ⟨slot, hslot⟩ : ∃ slot, NameSlot.ofKind? kind = some slot := by
    cases kind <;> first | exact ⟨_, rfl⟩ | simp [VariableInfo.carries] at hcarries
  cases hb : kind.isBound with
  | true =>
    obtain ⟨b, change, hremove⟩ : ∃ (b : BoundState) (change : BoundChange α),
        info.bound.remove kind = .ok (b, change) := by
      cases kind <;> first | exact ⟨_, _, rfl⟩ | cases hb
    have hwf := (h.modifyColumn i (·.rebound change)).withVariable k
      (f := fun info => slot.set "" { info with bound := b })
      (fun info => by cases slot <;> rfl) fun info => by cases slot <;> rfl
    exact .of_ok (deleteSingle_bound_run h hat hcarries hslot hremove) (hwf.congr rfl rfl rfl rfl)
  | false =>
    have htype : slot = .type := by
      cases kind <;> cases hb <;> simp_all [NameSlot.ofKind?]
    subst htype
    have hwf := (h.modifyColumn i fun c => { c with kind := .continuous }).withVariable k
      (f := fun info => NameSlot.type.set "" { info with type := .continuous })
      (fun _ => rfl) fun _ => rfl
    exact .of_ok (deleteSingle_type_run h hat hcarries hslot) (hwf.congr rfl rfl rfl rfl)

/-! ### Affine constraints -/

theorem addAffineConstraint_atomic (f : AffineFunction α) {s : ScalarSet α}
    (hs : s.isRow = true) : Atomic (addAffineConstraint f s) m := by
  obtain ⟨b, hb⟩ : ∃ b, s.rowBound? = some b := by
    cases s <;> first | exact ⟨_, rfl⟩ | cases hs
  by_cases hf : (f.constant == 0) = true
  · cases hd : m.firstDead f.canonical.terms with
    | some v =>
      have hrow : m.rowOf f = .error (.model (.invalidIndex (.var v))) := by rw [rowOf_eq, hd]
      refine .of_error (e := .model (.invalidIndex (.var v))) ?_
      simp [addAffineConstraint, hf, hrow]
    | none =>
      have hfits := h.fits_coefsOf f {}
      exact .of_ok (addAffineConstraint_run h hf hd hb)
        (h.withRow hb ⟨hfits.nodup, hfits.range, hfits.nonzero⟩)
  · exact .of_error (e := .model (.constantNotZero f.constant)) (by simp [addAffineConstraint, hf])

theorem addConstraint_runs [OrderedScalar α] (f : FunctionArg α) (s : SetArg α) :
    Runs (addConstraint f s) m (fun _ m' => m'.WellFormed)
      fun m' => m' = m ∨ m.HalfDone (.addConstraint f s) m' := by
  have hstays : ∀ {x : Modelling α ConstraintIndex}, Atomic x m →
      Runs x m (fun _ m' => m'.WellFormed)
        fun m' => m' = m ∨ m.HalfDone (.addConstraint f s) m' :=
    fun hx => hx.weaken fun _ => .inl
  cases s with
  | raw x => cases f <;> exact hstays (.of_error rfl)
  | set s =>
    have hsingle : ∀ v : VariableIndex, f.variable? = some v →
        Runs (addConstraint (.var v) (.set s)) m (fun _ m' => m'.WellFormed)
          fun m' => m' = m ∨ m.HalfDone (.addConstraint f (.set s)) m' := by
      intro v hv
      cases s
      case zeroOne => exact hstays (h.addTypeConstraint_atomic v .binary .zeroOne)
      case integer => exact hstays (h.addTypeConstraint_atomic v .integer .integer)
      all_goals exact h.addBoundConstraint_runs hv _
    cases f with
    | raw x => exact hstays (.of_error rfl)
    | var v => exact hsingle v rfl
    | single v => exact hsingle v rfl
    | affine f =>
      simp only [addConstraint]
      split_ifs with hrow
      · exact hstays (h.addAffineConstraint_atomic f hrow)
      · exact hstays (.of_error rfl)

theorem deleteAffineConstraint_atomic (c : ConstraintIndex) :
    Atomic (deleteAffineConstraint c) m := by
  obtain ⟨e, hm⟩ | ⟨i, k, info, r, rfl, hat, -⟩ := h.affine_cases c
  · exact .of_error (query_bind_error hm _)
  · exact .of_ok (deleteAffineConstraint_run h hat rfl) (h.withoutRow i info)

theorem delete_atomic [OrderedScalar α] (i : IndexArg α) : Atomic (delete i) m := by
  cases i with
  | raw x => exact .of_error rfl
  | var v => exact h.deleteVariable_atomic v
  | constraint c =>
    obtain ⟨function, kind, value⟩ := c
    cases function
    case singleVariable => exact h.deleteSingleConstraint_atomic kind value
    case scalarAffine => exact h.deleteAffineConstraint_atomic ⟨.scalarAffine, kind, value⟩
    all_goals exact .of_error rfl

/-! ### Sets, functions and the objective -/

theorem setConstraintSet_atomic (i : IndexArg α) (s : SetArg α) :
    Atomic (setConstraintSet i s) m := by
  cases i with
  | var v => exact .of_error rfl
  | raw x => exact .of_error rfl
  | constraint c =>
    obtain ⟨function, kind, value⟩ := c
    by_cases hkind : s.kind = kind
    swap
    · exact .of_error (e := .model (.setKind s.kind kind))
        (by simp [setConstraintSet, IndexArg.constraint?, hkind])
    subst hkind
    by_cases hc : function = .singleVariable
    · subst hc
      obtain ⟨e, hm⟩ | ⟨i, k, info, c, rfl, hat, hcarries, -⟩ := h.single_cases s.kind value
      · exact .of_error (e := e) (by simp [setConstraintSet, IndexArg.constraint?, hm])
      cases s with
      | raw x => cases hcarries
      | set s =>
        have hrun := setConstraintSet_single_run h hat hcarries
        split_ifs at hrun
        · rw [Atomic, Runs, SetArg.kind, hrun]
          exact h.setVariableBound_atomic hat.column s.change
        · exact .of_ok hrun h
    · obtain ⟨e, hm⟩ | ⟨i, k, info, r, heq, hat, -⟩ := h.affine_cases ⟨function, s.kind, value⟩
      · exact .of_error (e := e) (by simp [setConstraintSet, IndexArg.constraint?, hc, hm])
      injection heq with hfunction hset hvalue
      subst hfunction hvalue
      obtain ⟨s, rfl⟩ := SetArg.eq_set_of_kind hset
      obtain ⟨b, hb⟩ := hat.rowBound_of_kind hset
      exact .of_ok (setConstraintSet_affine_run h hat hset.symm hb)
        (h.modifyRow hat rfl hb ((hat.fits h).within b))

theorem setConstraintFunction_atomic (i : IndexArg α) (f : FunctionArg α) :
    Atomic (setConstraintFunction i f) m := by
  cases i with
  | var v => exact .of_error rfl
  | raw x => exact .of_error rfl
  | constraint c =>
    by_cases hc : c.function = .singleVariable
    · exact .of_error (e := .model .singleFunction)
        (by simp [setConstraintFunction, IndexArg.constraint?, hc])
    cases f with
    | affine f =>
      by_cases hf : (f.constant == 0) = true
      swap
      · exact .of_error (e := .model (.constantNotZero f.constant))
          (by simp [setConstraintFunction, IndexArg.constraint?, hc, hf])
      obtain ⟨e, hm⟩ | ⟨i, k, info, r, rfl, hat, hm⟩ := h.affine_cases c
      · exact .of_error (e := e) (by simp [setConstraintFunction, IndexArg.constraint?, hc, hf, hm])
      cases hd : m.firstDead f.canonical.terms with
      | some v =>
        have hrow : m.rowOf f = .error (.model (.invalidIndex (.var v))) := by rw [rowOf_eq, hd]
        refine .of_error (e := .model (.invalidIndex (.var v))) ?_
        simp [setConstraintFunction, IndexArg.constraint?, hf, hm, hrow]
      | none =>
        exact .of_ok (setConstraintFunction_run h hat rfl hf hd)
          (h.withRowAt hat rfl (h.fits_coefsOf f r))
    | _ =>
      exact .of_error (e := .missingPart)
        (by simp [setConstraintFunction, IndexArg.constraint?, hc])

theorem modifyCoefficient_atomic (i v : IndexArg α) (x : α) :
    Atomic (modifyCoefficient i v x) m := by
  cases i with
  | var v => exact .of_error rfl
  | raw x => exact .of_error rfl
  | constraint c =>
    obtain ⟨e, hm⟩ | ⟨i, k, info, r, rfl, hat, hm⟩ := h.affine_cases c
    · exact .of_error (e := e) (by simp [modifyCoefficient, IndexArg.constraint?, hm])
    obtain ⟨e, hm'⟩ | ⟨j, l, vinfo, col, hm', hvat, -⟩ := h.info_cases v
    · exact .of_error (e := e) (by simp [modifyCoefficient, IndexArg.constraint?, hm, hm'])
    have hplace := hvat.place_lt
    have hj : 0 < vinfo.column := by
      rw [hvat.number]
      omega
    have hjn : vinfo.column ≤ m.problem.columns.length := by
      rw [hvat.number]
      exact hplace
    obtain ⟨hfits, -⟩ := fits_nonzero_replaceCoef (hat.fits h) hj hjn x
    exact .of_ok (modifyCoefficient_run h hat rfl hm' hj hjn) (h.withRowAt hat rfl hfits)

theorem setObjective_atomic (f : FunctionArg α) : Atomic (setObjective f) m := by
  have haffine : ∀ kind f, Atomic (setAffineObjective kind f) m := by
    intro kind f
    cases hd : m.firstDead f.terms with
    | some v =>
      have hcosts : costs m f = .error (.model (.invalidIndex (.var v))) := by rw [costs_eq h, hd]
      exact .of_error (query_bind_error hcosts _)
    | none =>
      exact .of_ok (setAffineObjective_run h hd kind)
        (h.withCosts _ (by simp [Registry.keys]) _ _)
  cases f with
  | raw x => exact .of_error rfl
  | var v => exact haffine _ _
  | single v => exact haffine _ _
  | affine f => exact haffine _ _

theorem modifyObjectiveCoefficient_atomic (v : IndexArg α) (x : α) :
    Atomic (modifyObjectiveCoefficient v x) m := by
  obtain ⟨e, hm⟩ | ⟨i, k, info, c, hm, hat, -⟩ := h.info_cases v
  · exact .of_error (query_bind_error hm _)
  have hcost := Problem.setCost_of_getElem hat.column x
  rw [← hat.number] at hcost
  refine .of_ok (b := ()) ?_ (h.modifyColumn i fun c => { c with cost := x })
  simp only [modifyObjectiveCoefficient, bind_run, query_run, hm, ofExcept_ok, pure_run]
  exact change_ok hcost

theorem setObjectiveSenseByName_atomic (word : Value α) :
    Atomic (setObjectiveSenseByName word) m := by
  unfold setObjectiveSenseByName
  split
  · split
    · exact .of_ok rfl (h.congr rfl rfl rfl rfl)
    · exact .of_error rfl
  · exact .of_error rfl

/-! ### Names -/

/-- The variable of a constraint may be named by the index of the constraint. -/
theorem setVariableName_atomic (i : IndexArg α) (name : String) :
    Atomic (setVariableName i name) m := by
  obtain ⟨e, hm⟩ | ⟨j, k, info, c, hm, hat, -⟩ := h.info_cases i
  · exact .of_error (query_bind_error hm _)
  have hwf := h.withVariable k (f := fun info => { info with name := name })
    (fun _ => rfl) fun _ => rfl
  have hcolumn := Problem.setColumnName_of_getElem hat.column name
  rw [← hat.number] at hcolumn
  by_cases hname : name = ""
  · have hrun : setVariableName i name m = .ok ()
        { m.withVariable k fun info => { info with name := name } with
          variableNames := m.variableNames.update info.name name i } := by
      simp [setVariableName, hm, hname, hat.index, Model.withVariable]
    exact .of_ok hrun (hwf.congr rfl rfl rfl rfl)
  · have hrun : setVariableName i name m = .ok ()
        { (m.withVariable k fun info => { info with name := name }).withColumn j
            fun c => { c with name := name } with
          variableNames := m.variableNames.update info.name name i } := by
      simp only [setVariableName, bind_run, query_run, hm, ofExcept_ok, pure_run, modifyInfo_run,
        hat.index, hname, ne_eq, not_false_eq_true, if_true]
      rw [change_ok (m := { m with vars := m.vars.modify k fun info =>
        { info with name := name } }) hcolumn]
      rfl
    exact .of_ok hrun ((hwf.modifyColumn j fun c => { c with name := name }).congr rfl rfl rfl rfl)

theorem setConstraintName_atomic (i : IndexArg α) (name : String) :
    Atomic (setConstraintName i name) m := by
  cases i with
  | var v => exact .of_error rfl
  | raw x => exact .of_error rfl
  | constraint c =>
    obtain ⟨-, e, hm⟩ | ⟨m', hrun, hrenamed⟩ := setConstraintName_cases h c name
    · exact .of_error hm
    · exact .of_ok hrun (h.renamed hrenamed)

end Model.WellFormed

theorem Edit.run_runs [OrderedScalar α] {m : Model α} (h : m.WellFormed) (e : Edit α) :
    Runs e.run m (fun _ m' => m'.WellFormed) fun m' => m' = m ∨ m.HalfDone e m' := by
  have hstays : ∀ {e : Edit α}, Modelling.Atomic e.run m →
      Runs e.run m (fun _ m' => m'.WellFormed) fun m' => m' = m ∨ m.HalfDone e m' :=
    fun hx => hx.weaken fun _ => .inl
  cases e with
  | addVariable =>
    have hadd : Modelling.Atomic Modelling.addVariable m :=
      .of_ok (Modelling.addVariable_run h) (h.grown 1)
    exact hstays (hadd.answer Reply.newVariable)
  | addVariables n => exact hstays ((h.addVariables_atomic n).answer Reply.newVariables)
  | addConstraint f s => exact Runs.bind (h.addConstraint_runs f s) fun _ _ hm => .pure hm
  | delete i => exact hstays ((h.delete_atomic i).answer fun _ => Reply.done)
  | setConstraintSet i s =>
    exact hstays ((h.setConstraintSet_atomic i s).answer fun _ => Reply.done)
  | setConstraintFunction i f =>
    exact hstays ((h.setConstraintFunction_atomic i f).answer fun _ => Reply.done)
  | modifyCoefficient i v x =>
    exact hstays ((h.modifyCoefficient_atomic i v x).answer fun _ => Reply.done)
  | setObjective f => exact hstays ((h.setObjective_atomic f).answer fun _ => Reply.done)
  | modifyObjectiveCoefficient v x =>
    exact hstays ((h.modifyObjectiveCoefficient_atomic v x).answer fun _ => Reply.done)
  | modifyObjectiveConstant x =>
    have hconstant : Modelling.Atomic (Modelling.modifyObjectiveConstant x) m :=
      .of_ok rfl (h.congr rfl rfl rfl rfl)
    exact hstays (hconstant.answer fun _ => Reply.done)

end MixedInteger
