import MixedInteger.Proofs.Model.Instruction
import MixedInteger.Proofs.Model.Run

/-! Calls on indices that are dead, or that name no constraint of their kinds. A constraint on a
single variable has no record of its own: its index leads to the variable, and each call has to ask
whether the variable carries the constraint. All but one do. The value of such a constraint is the
value of its variable, and it is answered for as long as the variable is there. -/

namespace MixedInteger

variable {α : Type} [Scalar α]

/-! ### Calls on an index -/

/-- What is asked of a variable or done to it through its index. -/
inductive VariableCall (α : Type) where
  | delete
  | name
  | setName (text : String)
  | primal
  | modifyCost (value : α)

/-- What is asked of a constraint or done to it through its index. -/
inductive ConstraintCall (α : Type) where
  | set
  | function
  | name
  | setSet (s : SetArg α)
  | setFunction (f : FunctionArg α)
  | setName (text : String)
  | modifyCoefficient (v : IndexArg α) (value : α)
  | delete
  | primal
  | dual
  | basis

/-- The answer to a call on an index. -/
inductive Told (α : Type) where
  | set (s : ScalarSet α)
  | function (f : Function α)
  | name (name : String)
  | value (x : α)
  | basis (b : Basis)
  | done

namespace Modelling

/-- A question, which leaves the model as it is. -/
def ask {β : Type} (f : Model α → Except (Fault α) β) (g : β → Told α) : Modelling α (Told α) := do
  return g (← query f)

/-- A call that answers nothing. -/
def finish (x : Modelling α Unit) : Modelling α (Told α) := do
  x
  return .done

variable {m : Model α} {e : Fault α}

theorem ask_error {β : Type} {f : Model α → Except (Fault α) β} (h : f m = .error e)
    (g : β → Told α) : ask f g m = .error e m := query_bind_error h _

theorem finish_error {x : Modelling α Unit} (h : x m = .error e m) :
    finish x m = .error e m := by
  rw [finish, bind_run, h]

end Modelling

open Modelling

def VariableCall.run (v : VariableIndex) : VariableCall α → Modelling α (Told α)
  | delete => finish (Modelling.delete (.var v))
  | name => ask (·.variableName (.var v)) .name
  | setName text => finish (setVariableName (.var v) text)
  | primal => ask (·.variablePrimal (.var v)) .value
  | modifyCost x => finish (modifyObjectiveCoefficient (.var v) x)

def ConstraintCall.run (c : ConstraintIndex) : ConstraintCall α → Modelling α (Told α)
  | set => ask (·.constraintSet (.constraint c)) .set
  | function => ask (·.constraintFunction (.constraint c)) .function
  | name => ask (·.constraintName (.constraint c)) .name
  | setSet s => finish (setConstraintSet (.constraint c) s)
  | setFunction f => finish (setConstraintFunction (.constraint c) f)
  | setName text => finish (setConstraintName (.constraint c) text)
  | modifyCoefficient v x => finish (Modelling.modifyCoefficient (.constraint c) v x)
  | delete => finish (Modelling.delete (.constraint c))
  | primal => ask (·.constraintPrimal (.constraint c)) .value
  | dual => ask (·.constraintDual (.constraint c)) .value
  | basis => ask (·.constraintBasis (.constraint c)) .basis

/-- What is wrong with the arguments of a call, whatever the model. It is found before the index is
looked up: a set of another kind, a function given to a constraint on a single variable, and one
that is no row. -/
def ConstraintCall.objection (c : ConstraintIndex) : ConstraintCall α → Option (Fault α)
  | setSet s => if s.kind = c.set then none else some (.model (.setKind s.kind c.set))
  | setFunction f =>
    if c.function = .singleVariable then some (.model .singleFunction)
    else match f with
      | .affine f => if f.constant == 0 then none else some (.model (.constantNotZero f.constant))
      | _ => some .missingPart
  | _ => none

/-- The fault of a call on a constraint that is not there. -/
def ConstraintCall.fault (c : ConstraintIndex) (q : ConstraintCall α) : Fault α :=
  (q.objection c).getD (.model (.invalidIndex (.constraint c)))

/-! ### Lookups of a dead index -/

namespace Model

variable {m : Model α}

theorem info_error {v : VariableIndex} (h : m.isValid (.var v) = false) :
    m.info (.var v) = .error (.model (.invalidIndex (.var v))) := by
  have hslot : m.vars.slot? v.value = none := by
    rwa [isValid, Registry.contains, Option.isSome_eq_false_iff, Option.isNone_iff_eq_none] at h
  rw [info_var, Registry.get?, hslot]
  rfl

variable {c : ConstraintIndex} (h : m.isValid (.constraint c) = false)
include h

theorem liveInfo_error : m.liveInfo c = .error (.model (.invalidIndex (.constraint c))) := by
  have hcarries : m.carries c = false := h
  rw [liveInfo, hcarries]
  rfl

theorem affineInfo_error : m.affineInfo c = .error (.model (.invalidIndex (.constraint c))) := by
  have hcarries : m.carries c = false := h
  rw [affineInfo_eq]
  split_ifs with hc
  · rw [carries, hc] at hcarries
    cases hget : m.affine.get? c.value with
    | none => rfl
    | some info =>
      have hkind : info.set.kind ≠ c.set := by simpa [hget] using hcarries
      simp [Option.filter, hkind]
  · rfl

end Model

/-! ### Calls on a dead index -/

section Calls

variable {m : Model α}

theorem VariableCall.run_dead {v : VariableIndex} (h : m.isValid (.var v) = false)
    (q : VariableCall α) : q.run v m = .error (.model (.invalidIndex (.var v))) m := by
  have hinfo := Model.info_error h
  cases q with
  | delete => exact finish_error (by simp [Modelling.delete, deleteVariable, hinfo])
  | name => exact ask_error (by simp [Model.variableName, hinfo]) _
  | setName text => exact finish_error (by simp [setVariableName, hinfo])
  | primal => exact ask_error (by simp [Model.variablePrimal, hinfo]) _
  | modifyCost x => exact finish_error (by simp [modifyObjectiveCoefficient, hinfo])

/-- The value of a constraint on a single variable is that of the variable, also when the variable
carries no such constraint. -/
theorem ConstraintCall.primal_single {c : ConstraintIndex} (hc : c.function = .singleVariable) :
    (primal : ConstraintCall α).run c = VariableCall.primal.run ⟨c.value⟩ := by
  have hprimal : ∀ m : Model α,
      m.constraintPrimal (.constraint c) = m.variablePrimal (.var ⟨c.value⟩) := by
    intro m
    simp [Model.constraintPrimal, IndexArg.constraint?, hc]
  exact congrArg (fun f => ask f Told.value) (funext hprimal)

variable {c : ConstraintIndex} (h : m.isValid (.constraint c) = false)
include h

theorem setConstraintSet_dead (s : SetArg α) :
    setConstraintSet (.constraint c) s m = .error ((ConstraintCall.setSet s).fault c) m := by
  have hlive := Model.liveInfo_error h
  have haffine := Model.affineInfo_error h
  by_cases hs : s.kind = c.set
  · by_cases hc : c.function = .singleVariable <;>
      simp [setConstraintSet, IndexArg.constraint?, ConstraintCall.fault,
        ConstraintCall.objection, hs, hc, hlive, haffine]
  · simp [setConstraintSet, IndexArg.constraint?, ConstraintCall.fault,
      ConstraintCall.objection, hs]

theorem setConstraintFunction_dead (f : FunctionArg α) :
    setConstraintFunction (.constraint c) f m =
      .error ((ConstraintCall.setFunction f).fault c) m := by
  have haffine := Model.affineInfo_error h
  by_cases hc : c.function = .singleVariable
  · simp [setConstraintFunction, IndexArg.constraint?, ConstraintCall.fault,
      ConstraintCall.objection, hc]
  · cases f with
    | affine f =>
      by_cases hf : f.constant == 0 <;>
        simp [setConstraintFunction, IndexArg.constraint?, ConstraintCall.fault,
          ConstraintCall.objection, hc, hf, haffine]
    | _ =>
      simp [setConstraintFunction, IndexArg.constraint?, ConstraintCall.fault,
        ConstraintCall.objection, hc]

theorem ConstraintCall.run_dead (q : ConstraintCall α)
    (hq : q = .primal → c.function ≠ .singleVariable) : q.run c m = .error (q.fault c) m := by
  have hlive := Model.liveInfo_error h
  have haffine := Model.affineInfo_error h
  have hask : ∀ {β : Type} {f : Model α → Except (Fault α) β} {g : β → Told α},
      f m = .error (.model (.invalidIndex (.constraint c))) →
        ask f g m = .error (.model (.invalidIndex (.constraint c))) m := fun hf => ask_error hf _
  cases q with
  | set => exact hask (by simp [Model.constraintSet, IndexArg.constraint?, hlive, haffine])
  | function =>
    exact hask (by simp [Model.constraintFunction, IndexArg.constraint?, hlive, haffine])
  | name => exact hask (by simp [Model.constraintName, IndexArg.constraint?, hlive, haffine])
  | setSet s => exact finish_error (setConstraintSet_dead h s)
  | setFunction f => exact finish_error (setConstraintFunction_dead h f)
  | setName text =>
    refine finish_error ?_
    by_cases hc : c.function = .singleVariable <;>
      simp [setConstraintName, IndexArg.constraint?, hc, hlive, haffine, fault, objection]
  | modifyCoefficient v x =>
    refine finish_error ?_
    simp [Modelling.modifyCoefficient, IndexArg.constraint?, haffine, fault, objection]
  | delete =>
    refine finish_error ?_
    rw [Modelling.delete]
    cases c.function with
    | singleVariable => exact query_bind_error hlive _
    | scalarAffine => exact query_bind_error haffine _
    | _ => rfl
  | primal =>
    exact hask (by simp [Model.constraintPrimal, IndexArg.constraint?, hq rfl, haffine])
  | dual => exact hask (by simp [Model.constraintDual, IndexArg.constraint?, hlive, haffine])
  | basis => exact hask (by simp [Model.constraintBasis, IndexArg.constraint?, hlive, haffine])

end Calls

/-- A call on a dead index fails and leaves the model as it was. The fault is the index, unless the
arguments are at fault whatever it is. Only one question is answered: the value of a constraint on a
single variable is that of the variable, which may be there without the constraint. -/
theorem dead_index_refused (m : Model α) :
    (∀ v, m.isValid (.var v) = false → ∀ q : VariableCall α,
      q.run v m = .error (.model (.invalidIndex (.var v))) m) ∧
    ∀ c, m.isValid (.constraint c) = false →
      (∀ q : ConstraintCall α, (q = .primal → c.function ≠ .singleVariable) →
        q.run c m = .error (q.fault c) m) ∧
      (c.function = .singleVariable →
        ConstraintCall.primal.run c m = VariableCall.primal.run ⟨c.value⟩ m) := by
  refine ⟨fun v hv q => q.run_dead hv, fun c hc => ⟨fun q hq => q.run_dead hc hq, fun hs => ?_⟩⟩
  rw [ConstraintCall.primal_single hs]

/-! ### An upper bound that is not there -/

/-- An upper bound that the variable of `freeModel` does not have. -/
def absentBound : ConstraintIndex := ⟨.singleVariable, .lessThan, 1⟩

theorem absentBound_dead : freeModel.isValid (.constraint absentBound) = false := by
  have hget : freeModel.vars.get? absentBound.value = some { index := ⟨1⟩, column := 1 } :=
    freeModel_variable.get? freeModel_attained.wellFormed
  rw [Model.isValid, Model.carries_single _ rfl, hget]
  rfl

theorem dead_index_refused_absentBound :
    VariableCall.name.run ⟨2⟩ freeModel = .error (.model (.invalidIndex (.var ⟨2⟩))) freeModel ∧
      ConstraintCall.dual.run absentBound freeModel =
        .error (.model (.invalidIndex (.constraint absentBound))) freeModel ∧
      ConstraintCall.primal.run absentBound freeModel = VariableCall.primal.run ⟨1⟩ freeModel := by
  have hvars := freeModel_attained.wellFormed.vars
  have hdead : freeModel.isValid (.var ⟨2⟩) = false := by
    rw [Model.isValid, hvars.contains_eq, hvars.get?_eq_none_of_last_lt (by decide)]
    rfl
  obtain ⟨hvariable, hconstraint⟩ := dead_index_refused freeModel
  obtain ⟨hcall, hprimal⟩ := hconstraint absentBound absentBound_dead
  exact ⟨hvariable _ hdead .name, hcall .dual (by simp), hprimal rfl⟩

/-- An upper bound that is not there has a value, which is that of its variable. -/
theorem not_forall_dead_refused : ¬∀ m : Model Float, m.Attained →
    ∀ c, m.isValid (.constraint c) = false → ∀ q : ConstraintCall Float,
      ∃ e, q.run c m = .error e m := by
  intro hall
  obtain ⟨e, he⟩ := hall freeModel freeModel_attained absentBound absentBound_dead .primal
  have hget : freeModel.vars.get? 1 = some { index := ⟨1⟩, column := 1 } :=
    freeModel_variable.get? freeModel_attained.wellFormed
  have hvalue : freeModel.variablePrimal (.var ⟨1⟩) = .ok (freeModel.solution.colPrimal.getD 0 0) :=
    freeModel_variable.variablePrimal (by rw [Model.info_var, hget])
  rw [ConstraintCall.primal_single rfl] at he
  simp [VariableCall.run, ask, absentBound, hvalue] at he

end MixedInteger
