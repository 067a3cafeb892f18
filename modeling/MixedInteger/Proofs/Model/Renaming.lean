import MixedInteger.Proofs.Model.NamingStep
import MixedInteger.Proofs.Model.RowEffect
import MixedInteger.Proofs.Model.Simulation

/-! What a renaming does to a well-formed model. A name stands with its identity and, unless
it is empty, on its column or row; nothing else of a model changes, so it stands for the
same ledger as before. -/

namespace MixedInteger

variable {α : Type} [Scalar α]

/-! ### Outcomes -/

namespace Model

/-- The model with another name for the variable at place `i`. -/
def withVariableName (m : Model α) (i k : Nat) (info : VariableInfo) (name : String) : Model α :=
  { (m.withColumn i fun c => if name = "" then c else { c with name := name }).withVariable k
      fun info => { info with name := name } with
    variableNames := m.variableNames.update info.name name (.var ⟨k⟩) }

/-- The model with another name for a constraint on a variable. -/
def withSlotName (m : Model α) (k : Nat) (info : VariableInfo) (slot : NameSlot) (kind : Kind)
    (name : String) : Model α :=
  { m.withVariable k (slot.set name) with
    constraintNames :=
      m.constraintNames.update (slot.get info) name ⟨.singleVariable, kind, k⟩ }

/-- The model with another name for the affine constraint at place `i`. -/
def withRowName (m : Model α) (i k : Nat) (info : ConstraintInfo α) (name : String) : Model α :=
  { (m.withRowAt i fun r => if name = "" then r else { r with name := name }).withConstraint k
      fun info => { info with name := name } with
    constraintNames :=
      m.constraintNames.update info.name name ⟨.scalarAffine, info.set.kind, k⟩ }

/-- A live constraint is given another name. -/
inductive Renamed (m : Model α) (name : String) : ConstraintIndex → Model α → Prop
  | slot {i k : Nat} {info : VariableInfo} {c : Column α} {slot : NameSlot} {kind : Kind} :
    m.VariableAt i k info c → info.slotKind slot = some kind →
    Renamed m name ⟨.singleVariable, kind, k⟩ (m.withSlotName k info slot kind name)
  | row {i k : Nat} {info : ConstraintInfo α} {r : Row α} : m.RowAt i k info r →
    Renamed m name ⟨.scalarAffine, info.set.kind, k⟩ (m.withRowName i k info name)

end Model

namespace Modelling

variable {m : Model α} (hm : m.WellFormed)
include hm

theorem setVariableName_run {i k : Nat} {info : VariableInfo} {c : Column α}
    (hat : m.VariableAt i k info c) (name : String) :
    setVariableName (.var ⟨k⟩) name m = .ok () (m.withVariableName i k info name) := by
  have hinfo : m.info (.var ⟨k⟩) = .ok info := by rw [Model.info_var, hat.get? hm]
  simp only [setVariableName, bind_run, query_run, hinfo, ofExcept_ok, pure_run, modifyInfo_run,
    hat.index, Model.withVariableName]
  by_cases hname : name = ""
  · have hsame : m.problem.columns.modify i (fun c =>
        if name = "" then c else { c with name := name }) = m.problem.columns :=
      modify_of_fixed fun c _ => if_pos hname
    simp only [hname, ne_eq, not_true_eq_false, if_false, modify_run,
      Model.withColumn, Model.withVariable] at hsame ⊢
    rw [hsame]
  · have hcolumn := Problem.setColumnName_of_getElem hat.column name
    rw [← hat.number] at hcolumn
    simp only [hname, ne_eq, not_false_eq_true, if_true, if_false, bind_run]
    rw [change_ok hcolumn]
    rfl

theorem setConstraintName_single_run {i k : Nat} {info : VariableInfo} {c : Column α}
    (hat : m.VariableAt i k info c) {kind : Kind} {slot : NameSlot}
    (hk : info.slotKind slot = some kind) (name : String) :
    setConstraintName (.constraint ⟨.singleVariable, kind, k⟩) name m =
      .ok () (m.withSlotName k info slot kind name) := by
  obtain ⟨hcarries, hslot⟩ := VariableInfo.slotKind_eq_some.1 hk
  have hlive : m.liveInfo ⟨.singleVariable, kind, k⟩ = .ok info := by
    rw [Model.liveInfo_eq m rfl, hat.get? hm]
    simp [Option.filter, hcarries]
  simp only [setConstraintName, IndexArg.constraint?, ofExcept_ok, bind_run, pure_run, if_true,
    query_run, hlive, hslot, modifyInfo_run, renameConstraint_run, Model.withSlotName]
  rfl

theorem setConstraintName_affine_run {i k : Nat} {info : ConstraintInfo α} {r : Row α}
    (hat : m.RowAt i k info r) (name : String) :
    setConstraintName (.constraint ⟨.scalarAffine, info.set.kind, k⟩) name m =
      .ok () (m.withRowName i k info name) := by
  have hinfo := affineInfo_ok (hat.get? hm) rfl
  simp only [setConstraintName, IndexArg.constraint?, bind_run, query_run, hinfo, reduceCtorEq,
    if_false, ofExcept_ok, pure_run, modify_run, Model.withRowName]
  by_cases hname : name = ""
  · have hsame : m.problem.rows.modify i (fun r =>
        if name = "" then r else { r with name := name }) = m.problem.rows :=
      modify_of_fixed fun r _ => if_pos hname
    simp only [hname, ne_eq, not_true_eq_false, if_false,
      renameConstraint_run, Model.withRowAt, Model.withConstraint] at hsame ⊢
    rw [hsame]
  · have hrow := Problem.setRowName_of_getElem hat.row name
    rw [← hat.number] at hrow
    simp only [hname, ne_eq, not_false_eq_true, if_true, if_false, bind_run]
    rw [change_ok (m := { m with affine := m.affine.modify k fun info =>
      { info with name := name } }) hrow]
    rfl

/-- A live constraint is renamed, any other one is refused. -/
theorem setConstraintName_cases (c : ConstraintIndex) (name : String) :
    (m.isValid (.constraint c) = false ∧
        ∃ e, setConstraintName (.constraint c) name m = .error e m) ∨
      ∃ m', setConstraintName (.constraint c) name m = .ok () m' ∧ m.Renamed name c m' := by
  obtain ⟨function, kind, value⟩ := c
  by_cases hc : function = .singleVariable
  · subst hc
    obtain ⟨e, hlive⟩ | ⟨i, k, info, c, rfl, hat, hcarries, hlive⟩ := hm.single_cases kind value
    · refine .inl ⟨?_, e, ?_⟩
      · rw [Model.liveInfo_eq m rfl] at hlive
        rw [Model.isValid, Model.carries_single m rfl]
        cases hv : m.vars.get? value with
        | none => rfl
        | some info =>
          cases hcarries : info.carries kind with
          | false => exact hcarries
          | true => simp [hv, Option.filter, hcarries] at hlive
      · simp only [setConstraintName, IndexArg.constraint?, ofExcept_ok, bind_run, pure_run,
          if_true, query_run, hlive, ofExcept_error, throw_run]
    · obtain ⟨slot, hslot⟩ : ∃ slot, NameSlot.ofKind? kind = some slot := by
        cases kind <;> first | exact ⟨_, rfl⟩ | simp [VariableInfo.carries] at hcarries
      have hk := VariableInfo.slotKind_eq_some.2 ⟨hcarries, hslot⟩
      exact .inr ⟨_, setConstraintName_single_run hm hat hk name, .slot hat hk⟩
  · obtain ⟨e, hinfo⟩ | ⟨i, k, info, r, heq, hat, -⟩ := hm.affine_cases ⟨function, kind, value⟩
    · refine .inl ⟨?_, e, ?_⟩
      · rw [Model.affineInfo_eq] at hinfo
        rw [Model.isValid, Model.carries]
        cases function
        case scalarAffine =>
          cases hv : m.affine.get? value with
          | none => rfl
          | some info =>
            by_cases hk : info.set.kind = kind
            · simp [hv, Option.filter, hk] at hinfo
            · simpa using hk
        case singleVariable => exact absurd rfl hc
        all_goals rfl
      · simp only [setConstraintName, IndexArg.constraint?, ofExcept_ok, bind_run, pure_run, hc,
          if_false, query_run, hinfo, ofExcept_error, throw_run]
    · rw [heq]
      exact .inr ⟨_, setConstraintName_affine_run hm hat name, .row hat⟩

end Modelling

/-! ### Names -/

namespace Model.WellFormed

variable {m : Model α} (h : m.WellFormed)
include h

theorem withVariable (k : Int) {f : VariableInfo → VariableInfo}
    (hi : ∀ info, (f info).index = info.index) (hf : ∀ info, (f info).column = info.column) :
    (m.withVariable k f).WellFormed := h.modifyVariable k hi hf

theorem withSlotName (k : Nat) (info : VariableInfo) (slot : NameSlot) (kind : Kind)
    (name : String) : (m.withSlotName k info slot kind name).WellFormed :=
  (h.withVariable k (f := slot.set name) (fun _ => by cases slot <;> rfl)
    fun _ => by cases slot <;> rfl).congr rfl rfl rfl rfl

theorem withRowName {i k : Nat} {info : ConstraintInfo α} {r : Row α} (hat : m.RowAt i k info r)
    (name : String) : (m.withRowName i k info name).WellFormed := by
  have hfits := hat.fits h
  have hwf := h.modifyRow hat (f := fun info => { info with name := name })
    (g := fun r => if name = "" then r else { r with name := name }) rfl
    (by rw [hat.bounds]; split_ifs <;> rfl)
    (by split_ifs <;> exact ⟨hfits.nodup, hfits.range, hfits.nonzero⟩)
  exact hwf.congr rfl rfl rfl rfl

theorem renamed {c : ConstraintIndex} {name : String} {m' : Model α} (hm : m.Renamed name c m') :
    m'.WellFormed := by
  cases hm with
  | slot hat hk => exact h.withSlotName _ _ _ _ name
  | row hat => exact h.withRowName hat name

end Model.WellFormed

namespace Model.Named

variable {m : Model α} (h : m.Named)
include h

theorem withVariableName {i k : Nat} {info : VariableInfo} {c : Column α}
    (hat : m.VariableAt i k info c) (name : String) :
    (m.withVariableName i k info name).Named := by
  have hwf := (h.wf.modifyColumn i fun c => if name = "" then c else { c with name := name
    }).modifyVariable k (f := fun info => { info with name := name }) (fun _ => rfl) fun _ => rfl
  have hslots : ∀ slot : NameSlot, { info with name := name }.slotKind slot =
      info.slotKind slot := by
    intro slot
    cases slot <;> rfl
  refine h.renameVariable hat (f := fun info => { info with name := name })
    (hwf.congr rfl rfl rfl rfl) rfl rfl ?_ (fun _ => rfl) rfl rfl
  exact (h.live (hat.get? h.wf)).congr (fun slot => by cases slot <;> rfl)
    fun slot _ => hslots slot

theorem withSlotName {i k : Nat} {info : VariableInfo} {c : Column α}
    (hat : m.VariableAt i k info c) {slot : NameSlot} {kind : Kind}
    (hk : info.slotKind slot = some kind) (name : String) :
    (m.withSlotName k info slot kind name).Named := by
  have hkinds : ∀ slot', (slot.set name info).slotKind slot' = info.slotKind slot' := by
    intro slot'
    cases slot <;> cases slot' <;> rfl
  refine h.changeSlot hat hk (f := slot.set name) (h.wf.withSlotName _ _ _ _ _) rfl rfl ?_
    (fun slot' hne => ?_) (fun slot' _ _ => hkinds slot') (fun _ => (hkinds slot).trans hk) rfl ?_
  · cases slot <;> rfl
  · cases slot <;> cases slot' <;> first | rfl | exact absurd rfl hne
  · cases slot <;> rfl

theorem withRowName {i k : Nat} {info : ConstraintInfo α} {r : Row α}
    (hat : m.RowAt i k info r) (name : String) : (m.withRowName i k info name).Named :=
  h.renameRow hat (h.wf.withRowName hat name) name rfl rfl rfl rfl

theorem renamed {c : ConstraintIndex} {name : String} {m' : Model α} (hm : m.Renamed name c m') :
    m'.Named := by
  cases hm with
  | slot hat hk => exact h.withSlotName hat hk name
  | row hat => exact h.withRowName hat name

end Model.Named

/-! ### What changes and what stays -/

omit [Scalar α] in
/-- Another name in one slot is the name of one constraint only. -/
theorem VariableInfo.slotName_set {info : VariableInfo} {slot : NameSlot} {kind : Kind}
    (hk : info.slotKind slot = some kind) (name : String) (kind' : Kind) :
    (slot.set name info).slotName kind' = if kind' = kind then name else info.slotName kind' := by
  have hkinds : ∀ slot', (slot.set name info).slotKind slot' = info.slotKind slot' := by
    intro slot'
    cases slot <;> cases slot' <;> rfl
  have hget : slot.get (slot.set name info) = name := by cases slot <;> rfl
  split_ifs with hne
  · rw [hne, slotName_of_new hk fun _ => (hkinds slot).trans hk, hget]
  · refine slotName_of_ne hk (fun slot' hs => ?_) (fun slot' _ _ => hkinds slot')
      (fun _ => (hkinds slot).trans hk) hne
    cases slot <;> cases slot' <;> first | rfl | exact absurd rfl hs

section
variable {m : Model α} (hm : m.WellFormed)
include hm

/-- Another name of a variable is the name of this variable only. -/
theorem Model.VariableAt.nameOfVariable {i k : Nat} {info : VariableInfo} {c : Column α}
    (hat : m.VariableAt i k info c) (name : String) (v : VariableIndex) :
    (m.withVariableName i k info name).nameOfVariable (.var v) =
      if v = ⟨k⟩ then name else m.nameOfVariable (.var v) := by
  rw [Model.nameOfVariable, Model.nameOfVariable, Model.withVariableName, Model.withVariable,
    Model.withColumn]
  simp only [hm.vars.get?_modify]
  by_cases hv : v = ⟨k⟩
  · subst hv
    rw [if_pos rfl, if_pos rfl, hat.get? hm]
    rfl
  · have hk : ¬v.value = k := fun hk => hv (congrArg VariableIndex.mk hk)
    rw [if_neg hk, if_neg hv]

theorem Model.nameOfConstraint_withVariableName (i k : Nat) (info : VariableInfo) (name : String) :
    (m.withVariableName i k info name).nameOfConstraint = m.nameOfConstraint := by
  funext d
  obtain ⟨function, set, value⟩ := d
  cases function
  case singleVariable =>
    simp only [Model.nameOfConstraint, Model.withVariableName, Model.withVariable,
      Model.withColumn, hm.vars.get?_modify]
    split_ifs
    · rw [Option.map_map]
      rfl
    · rfl
  all_goals rfl

theorem Model.Renamed.nameOfVariable {name : String} {c : ConstraintIndex} {m' : Model α}
    (h : m.Renamed name c m') : m'.nameOfVariable = m.nameOfVariable := by
  cases h with
  | row hat => rfl
  | @slot i k info c slot kind hat hk =>
    funext i
    cases i with
    | var v =>
      simp only [Model.nameOfVariable, Model.withSlotName, Model.withVariable, hm.vars.get?_modify]
      split_ifs
      · cases m.vars.get? v.value <;> cases slot <;> rfl
      · rfl
    | _ => rfl

theorem Model.Renamed.nameOfConstraint {name : String} {c : ConstraintIndex} {m' : Model α}
    (h : m.Renamed name c m') (d : ConstraintIndex) :
    m'.nameOfConstraint d = if d = c then name else m.nameOfConstraint d := by
  obtain ⟨function, set, value⟩ := d
  cases h with
  | @slot i k info c slot kind hat hk =>
    cases function
    case singleVariable =>
      simp only [Model.nameOfConstraint, Model.withSlotName, Model.withVariable,
        hm.vars.get?_modify]
      by_cases hv : value = k
      · subst hv
        simp [hat.get? hm, VariableInfo.slotName_set hk]
      · simp [hv]
    all_goals simp [Model.nameOfConstraint, Model.withSlotName, Model.withVariable]
  | @row i k info r hat =>
    cases function
    case scalarAffine =>
      simp only [Model.nameOfConstraint, Model.withRowName, Model.withConstraint,
        Model.withRowAt, hm.affine.get?_modify]
      by_cases hv : value = k
      · subst hv
        by_cases hs : info.set.kind = set
        · simp [hat.get? hm, Option.filter, hs]
        · simp [hat.get? hm, Option.filter, hs, Ne.symm hs]
      · simp [hv]
    all_goals simp [Model.nameOfConstraint, Model.withRowName, Model.withConstraint,
      Model.withRowAt]

end

/-! ### The ledger -/

namespace Represents

variable {m : Model α} {L : Ledger α} (h : Represents m L)
include h

/-- A model with the same variables, rows and bounds stands for the same ledger. -/
theorem congr {m' : Model α} (hv : m'.vars = m.vars) (ha : m'.affine = m.affine)
    (hc : m'.problem.columns = m.problem.columns) (hr : m'.problem.rows = m.problem.rows)
    (hconst : m'.problem.constant = m.problem.constant)
    (hk : m'.objectiveKind = m.objectiveKind) (hb : m'.binaries = m.binaries)
    (hi : m'.integers = m.integers) : Represents m' L := by
  have hrows := h.changeRows (h.wf.congr hv ha (by rw [hc]) hr) hv hc hconst hk hb hi
    (a := L.affine) fun n => (h.affine n).trans (Model.affineRecord?_congr ha hr
      (fun r _ => congrFun (Model.termOf_congr fun v => by rw [hv]) r) n).symm
  rwa [ha, ← h.lastAffine] at hrows

theorem withVariableName {i k : Nat} {info : VariableInfo} {c : Column α}
    (hat : m.VariableAt i k info c) (name : String) :
    Represents (m.withVariableName i k info name) L := by
  obtain ⟨-, hm⟩ | ⟨r, info', hr, hm, hs⟩ := h.vars_cases ⟨k⟩
  · rw [hat.get? h.wf] at hm
    cases hm
  · rw [hat.get? h.wf] at hm
    cases hm
    have hset : L.setVariable ⟨k⟩ r = L := by
      rw [Ledger.setVariable, ← hr, Function.update_eq_self]
    rw [← hset]
    refine h.setVariable hat (f := fun info => { info with name := name })
      (g := fun c => if name = "" then c else { c with name := name }) rfl rfl rfl rfl
      (fun _ => rfl) (fun _ => rfl) ?_ hs.symm ?_ rfl rfl
    · split_ifs <;> rfl
    · have hholds := h.holds hr (hat.column? h.wf)
      split_ifs
      · exact hholds
      · exact hholds.congr rfl rfl rfl rfl

theorem renamed {name : String} {c : ConstraintIndex} {m' : Model α} (hm : m.Renamed name c m') :
    Represents m' L := by
  cases hm with
  | @slot i k info c slot kind hat hk =>
    obtain ⟨-, hm⟩ | ⟨r, info', hr, hm, hs⟩ := h.vars_cases ⟨k⟩
    · rw [hat.get? h.wf] at hm
      cases hm
    · rw [hat.get? h.wf] at hm
      cases hm
      have hset : L.setVariable ⟨k⟩ r = L := by
        rw [Ledger.setVariable, ← hr, Function.update_eq_self]
      have htype : (slot.set name info).type = info.type := by cases slot <;> rfl
      have hproblem : (m.withSlotName k info slot kind name).problem =
          { m.problem with columns := m.problem.columns.modify i id } := by
        rw [List.modify_id]
        rfl
      rw [← hset]
      refine h.setVariable hat (f := slot.set name) (g := id) rfl rfl hproblem rfl
        (fun _ => by cases slot <;> rfl) (fun _ => by cases slot <;> rfl) rfl ?_
        (h.holds hr (hat.column? h.wf)) (by rw [htype]; rfl) (by rw [htype]; rfl)
      rw [hs]
      cases slot <;> rfl
  | @row i k info r hat =>
    have hfits := hat.fits h.wf
    have hrecord : (⟨info.set, m.termOf (if name = "" then r else { r with name := name })⟩ :
        AffineRecord α) = ⟨info.set, m.termOf r⟩ := by
      split_ifs <;> rfl
    have hset : L.setAffine k ⟨info.set, m.termOf r⟩ = L := by
      rw [Ledger.setAffine, ← hat.affineRecord? h.wf, ← h.affine, Function.update_eq_self]
    have hwf := h.wf.modifyRow hat (f := fun info => { info with name := name })
      (g := fun r => if name = "" then r else { r with name := name }) rfl
      (by rw [hat.bounds]; split_ifs <;> rfl)
      (by split_ifs <;> exact ⟨hfits.nodup, hfits.range, hfits.nonzero⟩)
    have hrow := h.changeRow hat (f := fun info => { info with name := name })
      (g := fun r => if name = "" then r else { r with name := name }) hwf rfl hrecord.symm
    rw [hset] at hrow
    exact hrow.congr rfl rfl rfl rfl rfl rfl rfl rfl

end Represents

end MixedInteger
