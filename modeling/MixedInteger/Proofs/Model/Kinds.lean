import MixedInteger.Proofs.Model.Instruction

/-! Types of variables and kinds of columns. A column is an integer one exactly when its variable
has a type. The two are written apart, one into the problem and one into the registry, and every
call writes both or neither, whatever numbers are passed to it and also when it fails half done. -/

namespace MixedInteger

variable {α β : Type} [Scalar α]

def TypeState.columnKind : TypeState → ColumnKind
  | .continuous => .continuous
  | _ => .integer

/-- The kinds of the columns are those for the types of their variables. -/
def Model.Kinded (m : Model α) : Prop :=
  m.problem.columns.map (·.kind) = m.vars.entries.map (·.2.type.columnKind)

/-! ### Changes of the problem -/

namespace Problem

variable {p q : Problem α}

/-- A change that leaves the kinds of the columns alone. -/
def KeepsKinds (f : Problem α → Except (ProblemError α) (Problem α)) : Prop :=
  ∀ p q, f p = .ok q → q.columns.map (·.kind) = p.columns.map (·.kind)

theorem map_kind_modify {f : Column α → Column α} (hf : ∀ c, (f c).kind = c.kind) (i : ℕ)
    (cs : List (Column α)) : (cs.modify i f).map (·.kind) = cs.map (·.kind) := by
  refine List.ext_getElem (by simp) fun j hj hj' => ?_
  simp only [List.getElem_map, List.getElem_modify]
  split_ifs
  · exact hf _
  · rfl

theorem keepsKinds_column {f : Column α → Column α} (hf : ∀ c, (f c).kind = c.kind) (j : Int) :
    KeepsKinds fun p : Problem α => do
      let _ ← p.column j
      return p.modifyColumn j f := by
  intro p q hq
  obtain ⟨c, -, hq⟩ := except_bind_eq_ok.1 hq
  cases hq
  exact map_kind_modify hf _ _

theorem keepsKinds_setColumnName (j : Int) (name : String) :
    KeepsKinds fun p : Problem α => p.setColumnName j name :=
  keepsKinds_column (f := fun c => { c with name := name }) (fun _ => rfl) j

theorem keepsKinds_setCost (j : Int) (cost : α) :
    KeepsKinds fun p : Problem α => p.setCost j cost := by
  intro p q hq
  unfold setCost at hq
  split_ifs at hq
  · cases hq
    rfl
  · exact keepsKinds_column (f := fun c => { c with cost := cost }) (fun _ => rfl) j p q hq

theorem keepsKinds_setColumnBounds (j : Int) (kind : BoundKind) (l u : α) :
    KeepsKinds fun p : Problem α => p.setColumnBounds j kind l u := by
  intro p q hq
  obtain ⟨c, -, hq⟩ := except_bind_eq_ok.1 hq
  dsimp only at hq
  split_ifs at hq
  cases hq
  refine map_kind_modify ?_ _ _
  exact fun _ => rfl

theorem keepsKinds_leniently {f : Problem α → Except (ProblemError α) (Problem α)}
    (hf : KeepsKinds f) : KeepsKinds fun p : Problem α => p.leniently f := by
  intro p q hq
  obtain ⟨r, hr, hq⟩ := except_bind_eq_ok.1 hq
  cases hq
  exact hf ({ p with strict := false } : Problem α) r hr

theorem keepsKinds_row {f : Row α → Row α} (i : Int) : KeepsKinds fun p : Problem α => do
    let _ ← p.row i
    return p.modifyRow i f := by
  intro p q hq
  obtain ⟨r, -, hq⟩ := except_bind_eq_ok.1 hq
  cases hq
  rfl

theorem keepsKinds_deleteRows (is : List Int) :
    KeepsKinds fun p : Problem α => p.deleteRows is := by
  intro p q hq
  obtain ⟨-, -, hq⟩ := except_bind_eq_ok.1 hq
  cases hq
  rfl

theorem keepsKinds_setRowBounds (i : Int) (kind : BoundKind) (l u : α) :
    KeepsKinds fun p : Problem α => p.setRowBounds i kind l u := by
  intro p q hq
  obtain ⟨r, -, hq⟩ := except_bind_eq_ok.1 hq
  dsimp only at hq
  split_ifs at hq
  cases hq
  rfl

theorem keepsKinds_setMatrixRow (i : Int) (columns : List Int) (values : List α) :
    KeepsKinds fun p : Problem α => p.setMatrixRow i columns values := by
  intro p q hq
  obtain ⟨r, -, hq⟩ := except_bind_eq_ok.1 hq
  split_ifs at hq
  obtain ⟨-, -, hq⟩ := except_bind_eq_ok.1 hq
  cases hq
  rfl

theorem keepsKinds_addRows (n : Int) :
    KeepsKinds fun p : Problem α => (p.addRows n).map (·.1) := by
  intro p q hq
  obtain ⟨r, hr, rfl⟩ := except_map_eq_ok.1 hq
  unfold addRows at hr
  split_ifs at hr
  cases hr
  rfl

/-- Steps that leave the kinds of the columns alone, also when they fail. -/
def EditKeepsKinds (edit : RowEdit α β) : Prop :=
  ∀ ks p, p.columns.map (·.kind) = ks →
    Runs edit p (fun _ q => q.columns.map (·.kind) = ks) fun q => q.columns.map (·.kind) = ks

theorem editKeepsKinds_change {f : Problem α → Except (ProblemError α) (Problem α)}
    (hf : KeepsKinds f) : EditKeepsKinds (RowEdit.change f) := by
  intro ks p h
  unfold Runs RowEdit.change
  cases hq : f p with
  | ok q => exact (hf p q hq).trans h
  | error e => exact h

theorem editKeepsKinds_setRowSense (i : Int) (sense : RowSense) (rhs : α) :
    EditKeepsKinds (setRowSense i sense rhs) := by
  cases sense with
  | unknown s => exact fun _ _ h => h
  | equal => exact editKeepsKinds_change (keepsKinds_setRowBounds _ _ _ _)
  | atLeast => exact editKeepsKinds_change (keepsKinds_setRowBounds _ _ _ _)
  | atMost => exact editKeepsKinds_change (keepsKinds_setRowBounds _ _ _ _)

theorem editKeepsKinds_addAffineRow (columns : List Int) (values : List α) (sense : RowSense)
    (rhs : α) : EditKeepsKinds (addAffineRow columns values sense rhs) := by
  intro ks p h
  unfold addAffineRow
  split_ifs
  · exact h
  refine (editKeepsKinds_change (keepsKinds_addRows 1) ks p h).bind fun _ q hq => ?_
  refine Runs.bind (P := fun r s => s.columns.map (·.kind) = ks) (.of_ok rfl hq) fun r q hq => ?_
  refine (editKeepsKinds_change (keepsKinds_setMatrixRow _ columns values) ks q hq).bind
    fun _ q hq => ?_
  exact (editKeepsKinds_setRowSense _ sense rhs ks q hq).bind fun _ q hq => .pure hq

end Problem

/-! ### Calls that leave types and kinds alone -/

namespace Model

variable {m m' : Model α}

theorem Kinded.congr (h : m.Kinded)
    (hc : m'.problem.columns.map (·.kind) = m.problem.columns.map (·.kind))
    (hv : m'.vars.entries.map (·.2.type) = m.vars.entries.map (·.2.type)) : m'.Kinded := by
  have htypes := congrArg (List.map TypeState.columnKind) hv
  simp only [List.map_map] at htypes
  exact (hc.trans h).trans htypes.symm

theorem map_type_modify (r : Registry VariableInfo) (k : Int) {f : VariableInfo → VariableInfo}
    (hf : ∀ info, (f info).type = info.type) :
    (r.modify k f).entries.map (·.2.type) = r.entries.map (·.2.type) := by
  unfold Registry.modify
  split
  · rfl
  · refine List.ext_getElem (by simp) fun j hj hj' => ?_
    simp only [List.getElem_map, List.getElem_modify]
    split_ifs
    · exact hf _
    · rfl

end Model

namespace Modelling

open Model Orderly Problem

theorem Orderly.throw {I : Model α → Prop} (e : Fault α) :
    Orderly I (MonadExcept.throw e : Modelling α β) := fun _ h => h

theorem Orderly.get_bind {I : Model α → Prop} {f : Model α → Modelling α β}
    (h : ∀ m : Model α, Orderly I (f m)) : Orderly I (get >>= f) := fun m hm => h m m hm

theorem Orderly.query {I : Model α → Prop} (f : Model α → Except (Fault α) β) :
    Orderly I (Modelling.query f) := .get_bind fun m => .ofExcept (f m)

theorem Orderly.guarded {I : Model α → Prop} {c : Prop} [Decidable c] {e : Fault α}
    {f : PUnit → Modelling α β} (h : Orderly I (f ⟨⟩)) :
    Orderly I (if c then (do let r ← MonadExcept.throw e; f r) else f ⟨⟩) := by
  split_ifs
  · exact fun _ h => h
  · exact h

theorem change_kinded {f : Problem α → Except (ProblemError α) (Problem α)} (hf : KeepsKinds f) :
    Orderly Kinded (change f) := by
  intro m h
  cases hp : f m.problem with
  | ok p => exact .of_ok (change_ok hp) (h.congr (hf _ _ hp) rfl)
  | error e =>
    rw [Runs, change_error hp]
    exact h

theorem editRow_kinded {edit : RowEdit α β} (hedit : EditKeepsKinds edit) :
    Orderly Kinded (editRow edit) := by
  intro m h
  have hrun := hedit _ m.problem rfl
  unfold Runs editRow at *
  simp only [bind_run, get_run]
  cases he : edit m.problem with
  | ok b p =>
    rw [he] at hrun
    exact h.congr hrun rfl
  | error e p =>
    rw [he] at hrun
    exact h.congr hrun rfl

theorem modifyInfo_kinded (v : Int) {f : VariableInfo → VariableInfo}
    (hf : ∀ info, (f info).type = info.type) : Orderly (α := α) Kinded (modifyInfo v f) :=
  .modify fun m h => h.congr rfl (map_type_modify m.vars v hf)

theorem modify_kinded {f : Model α → Model α} (hc : ∀ m, (f m).problem.columns = m.problem.columns)
    (hv : ∀ m, (f m).vars = m.vars) : Orderly Kinded (modify f : Modelling α PUnit) :=
  .modify fun m h => h.congr (by rw [hc]) (by rw [hv])

theorem renameConstraint_kinded (old new : String) (c : ConstraintIndex) :
    Orderly (α := α) Kinded (renameConstraint old new c) := modify_kinded (fun _ => rfl) fun _ => rfl

theorem setVariableBound_kinded (j : ℕ) (b : BoundChange α) :
    Orderly Kinded (setVariableBound j b) := by
  refine .get_bind fun m => ?_
  split
  · exact .throw _
  · dsimp only
    split_ifs
    · exact change_kinded (keepsKinds_leniently (keepsKinds_setColumnBounds _ _ _ _))
    · exact change_kinded (keepsKinds_setColumnBounds _ _ _ _)

theorem setConstraintSet_kinded (i : IndexArg α) (s : SetArg α) :
    Orderly Kinded (setConstraintSet i s) := by
  unfold setConstraintSet
  refine (Orderly.ofExcept _).bind fun c => .guarded ?_
  split_ifs
  · refine (Orderly.query _).bind fun info => ?_
    split
    · exact setVariableBound_kinded _ _
    · exact .pure _
  · refine (Orderly.query _).bind fun info => (Orderly.ofExcept _).bind fun e =>
      (editRow_kinded (editKeepsKinds_setRowSense _ _ _)).bind fun _ => ?_
    split
    · exact modify_kinded (fun _ => rfl) fun _ => rfl
    · exact .pure _

theorem addBoundConstraint_kinded (v : VariableIndex) (s : ScalarSet α) :
    Orderly Kinded (addBoundConstraint v s) := by
  refine (Orderly.query _).bind fun info => ?_
  split
  · exact .throw _
  · exact .bind (modifyInfo_kinded _ fun _ => rfl) fun _ =>
      (setConstraintSet_kinded _ _).bind fun _ => .pure _

theorem addAffineConstraint_kinded (f : AffineFunction α) (s : ScalarSet α) :
    Orderly Kinded (addAffineConstraint f s) := by
  unfold addAffineConstraint
  refine .guarded ((Orderly.query _).bind fun e m h => ?_)
  refine Runs.bind (P := fun m' _ => m'.Kinded) (.of_ok rfl h) fun m' m h => ?_
  refine Runs.bind (P := fun _ m => m.Kinded) (.of_ok rfl (h.congr rfl rfl)) fun _ m h => ?_
  exact ((Orderly.ofExcept _).bind fun e =>
    (editRow_kinded (editKeepsKinds_addAffineRow _ _ _ _)).bind fun _ => .pure _) m h

theorem deleteAffineConstraint_kinded (c : ConstraintIndex) :
    Orderly (α := α) Kinded (deleteAffineConstraint c) := by
  unfold deleteAffineConstraint
  refine (Orderly.query _).bind fun info => .bind (modify_kinded (fun _ => rfl) fun _ => rfl)
    fun _ => (change_kinded (keepsKinds_deleteRows _)).bind fun _ => ?_
  dsimp only
  split_ifs
  · refine .bind (modify_kinded (fun _ => rfl) fun _ => rfl) fun _ =>
      modify_kinded (fun m => ?_) fun m => ?_ <;> split <;> rfl
  · refine modify_kinded (fun m => ?_) fun m => ?_ <;> split <;> rfl

theorem setConstraintFunction_kinded (i : IndexArg α) (f : FunctionArg α) :
    Orderly Kinded (setConstraintFunction i f) := by
  unfold setConstraintFunction
  refine (Orderly.ofExcept _).bind fun c => .guarded ?_
  split
  · exact .guarded <| (Orderly.query _).bind fun _ => (Orderly.query _).bind fun _ =>
      change_kinded (keepsKinds_setMatrixRow _ _ _)
  · exact .throw _

theorem modifyCoefficient_kinded (i v : IndexArg α) (x : α) :
    Orderly Kinded (modifyCoefficient i v x) := by
  refine (Orderly.ofExcept _).bind fun c => (Orderly.query _).bind fun row =>
    (Orderly.query _).bind fun info => .get_bind fun m => ?_
  split
  · exact .throw _
  · exact change_kinded (keepsKinds_setMatrixRow _ _ _)

theorem setVariableName_kinded (i : IndexArg α) (name : String) :
    Orderly Kinded (setVariableName i name) := by
  unfold setVariableName
  refine (Orderly.query _).bind fun info => .bind (modifyInfo_kinded _ fun _ => rfl) fun _ => ?_
  dsimp only
  split_ifs
  · exact .bind (change_kinded (keepsKinds_setColumnName _ _)) fun _ =>
      modify_kinded (fun _ => rfl) fun _ => rfl
  · exact modify_kinded (fun _ => rfl) fun _ => rfl

theorem setConstraintName_kinded (i : IndexArg α) (name : String) :
    Orderly Kinded (setConstraintName i name) := by
  unfold setConstraintName
  refine (Orderly.ofExcept _).bind fun c => ?_
  by_cases hc : c.function = .singleVariable
  · rw [if_pos hc]
    refine (Orderly.query _).bind fun info => ?_
    split
    · exact .throw _
    · next slot _ =>
      exact .bind (modifyInfo_kinded _ fun _ => by cases slot <;> rfl) fun _ =>
        renameConstraint_kinded _ _ _
  · rw [if_neg hc]
    refine (Orderly.query _).bind fun info => .bind (modify_kinded (fun _ => rfl) fun _ => rfl)
      fun _ => ?_
    dsimp only
    split_ifs
    · exact .bind (change_kinded (keepsKinds_row _)) fun _ => renameConstraint_kinded _ _ _
    · exact renameConstraint_kinded _ _ _

end Modelling

/-! ### Calls that write a type -/

namespace Model

variable {m : Model α}

/-- What is written at one place of two lists. -/
theorem map_modify_comm {γ δ ε : Type} {f : γ → γ} {g : γ → ε} {f' : δ → δ} {g' : δ → ε}
    {xs : List γ} {ys : List δ} (h : xs.map g = ys.map g') (i : ℕ) {e : ε}
    (hf : ∀ x, g (f x) = e) (hf' : ∀ y, g' (f' y) = e) :
    (xs.modify i f).map g = (ys.modify i f').map g' := by
  refine List.ext_getElem? fun j => ?_
  have hj := congrArg (·[j]?) h
  simp only [List.getElem?_map, List.getElem?_modify] at hj ⊢
  split_ifs
  · cases hx : xs[j]? <;> cases hy : ys[j]? <;> simp_all
  · simpa using hj

theorem Kinded.grown (h : m.Kinded) (n : ℕ) : (m.grown n).Kinded := by
  unfold Kinded at h ⊢
  simp only [Model.grown, Problem.padSolutions, Registry.entries_enroll, List.map_append, h]
  congr 1
  refine List.ext_getElem (by simp) fun i hi hi' => ?_
  simp only [List.getElem_map, List.getElem_replicate]
  rfl

theorem Kinded.withoutVariable (h : m.Kinded) (i k : ℕ) (info : VariableInfo) :
    (m.withoutVariable i k info).Kinded := by
  unfold Kinded at h ⊢
  simp only [Model.withoutVariable, Problem.forgetSolutions, Registry.mapValues, Registry.eraseAt,
    List.map_map]
  have hmap : ((fun e : ℕ × VariableInfo => e.2.type.columnKind) ∘
      fun e : ℕ × VariableInfo => (e.1, e.2.closeGap (i + 1))) =
      fun e => e.2.type.columnKind := rfl
  rw [hmap, ← List.eraseIdx_map, ← List.eraseIdx_map, h]

/-- A type and its kind, written for one variable. -/
theorem Kinded.retyped (h : m.Kinded) (hm : m.WellFormed) {i k : ℕ} {info : VariableInfo}
    {c : Column α} (hat : m.VariableAt i k info c) {f : VariableInfo → VariableInfo} {t : TypeState}
    (hf : ∀ info, (f info).type = t) :
    ((m.withColumn i fun c => { c with kind := t.columnKind }).withVariable k f).Kinded := by
  unfold Kinded at h ⊢
  simp only [withColumn, withVariable]
  rw [hm.vars.modify_of_getElem hat.entry]
  exact map_modify_comm h i (fun _ => rfl) fun e => congrArg TypeState.columnKind (hf e.2)

end Model

namespace Model.Kinded

open Modelling

variable {m : Model α} (h : m.Kinded) (hm : m.WellFormed)
include h hm

theorem addVariables (n : Int) : Runs (Modelling.addVariables n) m (fun _ m' => m'.Kinded) Kinded := by
  by_cases hn : 1 ≤ n
  · exact .of_ok (addVariables_run hm hn) (h.grown _)
  · rw [Modelling.addVariables, if_pos (by omega)]
    exact .pure h

theorem addTypeConstraint (v : VariableIndex) {t : TypeState} (ht : t ≠ .continuous) (kind : Kind) :
    Runs (Modelling.addTypeConstraint v t kind) m (fun _ m' => m'.Kinded) Kinded := by
  obtain ⟨e, hv⟩ | ⟨i, k, info, c, hv, hat, hk⟩ := hm.info_cases (.var v)
  · rw [Runs, show Modelling.addTypeConstraint v t kind m = _ from query_bind_error hv _]
    exact h
  cases hk v rfl
  by_cases hc : info.type = .continuous
  · have hkind : t.columnKind = .integer := by cases t <;> first | rfl | exact absurd rfl ht
    refine .of_ok (addTypeConstraint_run hm hat hc t kind) ?_
    have hretyped := h.retyped hm hat (f := fun info => { info with type := t }) fun _ => rfl
    rw [hkind] at hretyped
    exact hretyped.congr rfl rfl
  · rw [Runs, addTypeConstraint_error hv hc]
    exact h

theorem addConstraint (f : FunctionArg α) (s : SetArg α) :
    Runs (Modelling.addConstraint f s) m (fun _ m' => m'.Kinded) Kinded := by
  unfold Modelling.addConstraint
  dsimp only
  split
  · split
    · exact h.addTypeConstraint hm _ (by simp) _
    · exact h.addTypeConstraint hm _ (by simp) _
    · exact addBoundConstraint_kinded _ _ m h
    · exact h
  · split
    · exact h.addTypeConstraint hm _ (by simp) _
    · exact h.addTypeConstraint hm _ (by simp) _
    · exact addBoundConstraint_kinded _ _ m h
    · exact h
  · split_ifs
    · exact addAffineConstraint_kinded _ _ m h
    · exact h
  · exact h

theorem deleteVariable (v : VariableIndex) :
    Runs (Modelling.deleteVariable v) m (fun _ m' => m'.Kinded) Kinded := by
  obtain ⟨e, hv⟩ | ⟨i, k, info, c, -, hat, hk⟩ := hm.info_cases (.var v)
  · rw [Runs, show Modelling.deleteVariable v m = _ from query_bind_error hv _]
    exact h
  · cases hk v rfl
    exact .of_ok (deleteVariable_run hm hat) (h.withoutVariable i k info)

omit hm in
theorem setObjectiveCosts {costs : List α} (hn : m.problem.columns.length ≤ costs.length)
    (constant : α) (kind : ObjectiveKind) : ({ m with
      problem := { m.problem with
        columns := List.zipWith (fun c cost => { c with cost := cost }) m.problem.columns costs
        constant := constant }
      objectiveKind := kind } : Model α).Kinded := by
  refine h.congr ?_ rfl
  refine List.ext_getElem (by simp [hn]) fun j hj hj' => ?_
  simp only [List.getElem_map, List.getElem_zipWith]

theorem deleteSingleConstraint [OrderedScalar α] (kind : Kind) (value : Int) :
    Runs (Modelling.deleteSingleConstraint ⟨.singleVariable, kind, value⟩) m
      (fun _ m' => m'.Kinded) Kinded := by
  obtain ⟨e, hv⟩ | ⟨i, k, info, c, rfl, hat, hcarries, -⟩ := hm.single_cases kind value
  · rw [Runs, show Modelling.deleteSingleConstraint ⟨.singleVariable, kind, value⟩ m = _ from
      query_bind_error hv _]
    exact h
  obtain ⟨slot, hslot⟩ : ∃ slot, NameSlot.ofKind? kind = some slot := by
    cases kind <;> first | exact ⟨_, rfl⟩ | simp [VariableInfo.carries] at hcarries
  cases hb : kind.isBound with
  | true =>
    obtain ⟨b, change, hremove⟩ : ∃ (b : BoundState) (change : BoundChange α),
        info.bound.remove kind = .ok (b, change) := by
      cases kind <;> first | exact ⟨_, _, rfl⟩ | cases hb
    refine .of_ok (deleteSingle_bound_run hm hat hcarries hslot hremove) (h.congr ?_ ?_)
    · exact Problem.map_kind_modify (f := (·.rebound change)) (fun _ => rfl) i _
    · refine map_type_modify _ _ fun info => ?_
      cases slot <;> rfl
  | false =>
    have htype : slot = .type := by
      cases kind <;> cases hb <;> simp_all [NameSlot.ofKind?]
    subst htype
    exact .of_ok (deleteSingle_type_run hm hat hcarries hslot)
      ((h.retyped hm hat (t := .continuous) fun _ => rfl).congr rfl rfl)

theorem delete [OrderedScalar α] (i : IndexArg α) :
    Runs (Modelling.delete i) m (fun _ m' => m'.Kinded) Kinded := by
  cases i with
  | raw x => exact h
  | var v => exact h.deleteVariable hm v
  | constraint c =>
    obtain ⟨function, kind, value⟩ := c
    cases function
    case singleVariable => exact h.deleteSingleConstraint hm kind value
    case scalarAffine => exact deleteAffineConstraint_kinded ⟨.scalarAffine, kind, value⟩ m h
    all_goals exact h

theorem setObjective (f : FunctionArg α) :
    Runs (Modelling.setObjective f) m (fun _ m' => m'.Kinded) Kinded := by
  have haffine : ∀ kind f, Runs (setAffineObjective kind f) m (fun _ m' => m'.Kinded) Kinded := by
    intro kind f
    cases hd : m.firstDead f.terms with
    | some v =>
      have hcosts : costs m f = .error (.model (.invalidIndex (.var v))) := by
        rw [costs_eq hm, hd]
      rw [Runs, show setAffineObjective kind f m = _ from query_bind_error hcosts _]
      exact h
    | none =>
      refine .of_ok (setAffineObjective_run hm hd kind) (h.setObjectiveCosts ?_ _ _)
      simp [Registry.keys, hm.columnCount]
  cases f with
  | raw x => exact h
  | var v => exact haffine _ _
  | single v => exact haffine _ _
  | affine f => exact haffine _ _

theorem edit [OrderedScalar α] (e : Edit α) : Runs e.run m (fun _ m' => m'.Kinded) Kinded := by
  have hanswer : ∀ {γ : Type} {x : Modelling α γ} {f : γ → Reply},
      Runs x m (fun _ m' => m'.Kinded) Kinded →
        Runs (do return f (← x)) m (fun _ m' => m'.Kinded) Kinded :=
    fun hx => hx.bind fun _ _ h' => .pure h'
  cases e with
  | addVariable => exact hanswer (.of_ok (addVariable_run hm) (h.grown 1))
  | addVariables n => exact hanswer (h.addVariables hm n)
  | addConstraint f s => exact hanswer (h.addConstraint hm f s)
  | delete i => exact hanswer (h.delete hm i)
  | setConstraintSet i s => exact hanswer (setConstraintSet_kinded i s m h)
  | setConstraintFunction i f => exact hanswer (setConstraintFunction_kinded i f m h)
  | modifyCoefficient i v x => exact hanswer (modifyCoefficient_kinded i v x m h)
  | setObjective f => exact hanswer (h.setObjective hm f)
  | modifyObjectiveCoefficient v x =>
    exact hanswer (((Orderly.query _).bind fun _ =>
      change_kinded (Problem.keepsKinds_setCost _ x)) m h)
  | modifyObjectiveConstant x => exact hanswer (change_kinded (Problem.keepsKinds_setCost 0 x) m h)

theorem call [OrderedScalar α] (c : Call α) : (Call.after m c).Kinded := by
  cases c with
  | edit e => exact (h.edit hm e).after
  | setVariableName v name => exact (setVariableName_kinded (.var v) name m h).after
  | setConstraintName i name => exact (setConstraintName_kinded i name m h).after
  | variableByName name =>
    rw [Call.after, after, Model.Named.variableByName_run]
    dsimp only
    cases (m.variableNames.lookup (Modelling.scanVariableNames m) name).1 <;>
      exact h.congr rfl rfl
  | constraintByName name kinds =>
    have hnames : ∀ names : NameIndex ConstraintIndex,
        ({ m with constraintNames := names } : Model α).Kinded := fun _ => h.congr rfl rfl
    refine Runs.after (I := Kinded) ?_
    unfold Modelling.constraintByName
    refine Runs.bind (P := fun m' s => m' = m ∧ s = m) (.of_ok rfl ⟨rfl, rfl⟩) ?_
    rintro _ _ ⟨rfl, rfl⟩
    dsimp only
    split
    · exact hnames _
    · exact h
    · exact hnames _

end Model.Kinded

/-! ### All that can become of a model -/

theorem Model.Invariant.kinded [OrderedScalar α] :
    Invariant (α := α) fun m => m.WellFormed ∧ m.Kinded where
  emptied m := ⟨.emptied m, rfl⟩
  call h c := ⟨Invariant.wellFormed.call h.1 c, h.2.call h.1 c⟩
  variableName h i name := ⟨Invariant.wellFormed.variableName h.1 i name,
    (Modelling.setVariableName_kinded i name _ h.2).after⟩
  bound h j b := ⟨Invariant.wellFormed.bound h.1 j b,
    (Modelling.setVariableBound_kinded j b _ h.2).after⟩
  congr h hv ha hc hr := ⟨Invariant.wellFormed.congr h.1 hv ha hc hr,
    h.2.congr (by rw [hc]) (by rw [hv])⟩

/-- A column is an integer one exactly when its variable has a type. -/
theorem Model.Attained.kind_iff [OrderedScalar α] {m : Model α} (h : m.Attained)
    {e : VariableInfo × Column α} (he : e ∈ m.vars.values.zip m.problem.columns) :
    e.2.kind = .integer ↔ e.1.type ≠ .continuous := by
  obtain ⟨i, hi⟩ := List.mem_iff_getElem?.1 he
  obtain ⟨hinfo, hc⟩ := List.getElem?_zip_eq_some.1 hi
  have hkinds := congrArg (·[i]?) (h.invariant .kinded).2
  rw [Registry.values, List.getElem?_map] at hinfo
  obtain ⟨entry, hentry, hinfo⟩ := Option.map_eq_some_iff.1 hinfo
  simp only [List.getElem?_map, hc, hentry, Option.map_some, Option.some.injEq] at hkinds
  rw [hkinds, hinfo]
  cases e.1.type <;> simp [TypeState.columnKind]

end MixedInteger
