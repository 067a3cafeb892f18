import MixedInteger.Model.Setting
import MixedInteger.Proofs.Model.Bounds
import MixedInteger.Proofs.Model.NameLookup

/-! What holds of a model at any time: it stands for a ledger whose bounds are in range, and
its names are in order. Calls keep this, whether they succeed or fail. -/

namespace MixedInteger

variable {α : Type} [Scalar α]

structure Model.Sound (m : Model α) : Prop where
  named : m.Named
  ledger : ∃ L, Represents m L ∧ ∀ v r, L.vars v = some r → r.Coherent

def Call.edit? : Call α → Option (Edit α)
  | edit e => some e
  | _ => none

/-- A call whose bounds for variables are in range. -/
def Call.InRange (c : Call α) : Prop := ∀ e ∈ c.edit?, e.InRange

instance (c : Call α) : Decidable c.InRange :=
  inferInstanceAs (Decidable (∀ e ∈ c.edit?, e.InRange))

theorem Edit.after_run (e : Edit α) (m : Model α) : after e.run m = (Edit.runAll [e] m).2 := by
  rw [after, Edit.runAll]
  cases e.run m <;> rfl

/-- A call that names things or looks them up says nothing else of them. -/
theorem Represents.naming {m : Model α} {L : Ledger α} (hL : Represents m L) (h : m.Named)
    {c : Call α} (hc : c.edit? = none) : Represents (Call.after m c) L := by
  cases c with
  | edit e => cases hc
  | setVariableName v name =>
    obtain ⟨e, hm⟩ | ⟨i, k, info, c, -, hat, hv⟩ := h.wf.info_cases (.var v)
    · have hrun : Modelling.setVariableName (.var v) name m = .error e m :=
        Modelling.query_bind_error hm _
      rw [Call.after, after_error hrun]
      exact hL
    · cases hv v rfl
      rw [Call.after, after_ok (Modelling.setVariableName_run h.wf hat name)]
      exact hL.withVariableName hat name
  | setConstraintName i name =>
    cases i with
    | var v => exact hL
    | raw x => exact hL
    | constraint c =>
      obtain ⟨-, e, hm⟩ | ⟨m', hrun, hrenamed⟩ := Modelling.setConstraintName_cases h.wf c name
      · rw [Call.after, after_error hm]
        exact hL
      · rw [Call.after, after_ok hrun]
        exact hL.renamed hrenamed
  | variableByName name =>
    rw [Call.after, after, Model.Named.variableByName_run]
    dsimp only
    cases (m.variableNames.lookup (Modelling.scanVariableNames m) name).1 <;>
      exact hL.congr rfl rfl rfl rfl rfl rfl rfl rfl
  | constraintByName name kinds =>
    rw [Call.after, after, h.constraintByName_run]
    dsimp only
    cases (m.constraintNames.lookup m.constraintScan name).1 <;>
      exact hL.congr rfl rfl rfl rfl rfl rfl rfl rfl

namespace Model.Sound

theorem emptied [OrderedScalar α] (m : Model α) : m.emptied.Sound where
  named := .emptied m
  ledger := ⟨{}, .emptied m, fun _ _ hr => by cases hr⟩

variable {m : Model α} (h : m.Sound)
include h

/-- Settings, the sense, the name of the model and solutions do not matter. -/
theorem congr {m' : Model α} (hv : m'.vars = m.vars) (ha : m'.affine = m.affine)
    (hvn : m'.variableNames = m.variableNames) (hcn : m'.constraintNames = m.constraintNames)
    (hc : m'.problem.columns = m.problem.columns) (hr : m'.problem.rows = m.problem.rows)
    (hconst : m'.problem.constant = m.problem.constant) (hk : m'.objectiveKind = m.objectiveKind)
    (hb : m'.binaries = m.binaries) (hi : m'.integers = m.integers) : m'.Sound where
  named :=
    (h.named.inside (h.named.wf.congr hv ha (by rw [hc]) hr) hv (fun _ => by rw [ha]) hvn hcn).named
  ledger := by
    obtain ⟨L, hL, hcoherent⟩ := h.ledger
    exact ⟨L, hL.congr hv ha hc hr hconst hk hb hi, hcoherent⟩

/-- The type of a variable decides the kind of its column. -/
theorem kind_column {i k : Nat} {info : VariableInfo} {c : Column α}
    (hat : m.VariableAt i k info c) : c.kind = .integer ↔ info.type ≠ .continuous := by
  obtain ⟨L, hL, -⟩ := h.ledger
  obtain ⟨r, -, htype, hholds⟩ := hL.recordAt hat
  rw [hholds.kind, htype]
  split_ifs with hcontinuous <;> simp [hcontinuous]

variable [OrderedScalar α]

theorem edit {e : Edit α} (he : e.InRange) : (after e.run m).Sound := by
  refine ⟨h.named.edit e, ?_⟩
  obtain ⟨L, hL, hcoherent⟩ := h.ledger
  obtain ⟨-, hend⟩ := hL.runAll [e] fun e' he' => by
    rw [List.mem_singleton.1 he']
    exact he.isNaN
  refine ⟨_, e.after_run m ▸ hend, Ledger.vars_runAll .free [e] hcoherent ?_⟩
  intro e' he' v r r' hr hchange
  rw [List.mem_singleton.1 he'] at hchange
  exact hr.change he hchange

theorem call {c : Call α} (hc : c.InRange) : (Call.after m c).Sound := by
  by_cases hname : c.edit? = none
  · obtain ⟨L, hL, hcoherent⟩ := h.ledger
    exact ⟨h.named.call c, L, hL.naming h.named hname, hcoherent⟩
  · cases c with
    | edit e => exact h.edit (hc e rfl)
    | _ => exact absurd rfl hname

end Model.Sound

end MixedInteger
