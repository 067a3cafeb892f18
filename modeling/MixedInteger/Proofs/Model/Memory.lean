import MixedInteger.Proofs.Model.Call
import MixedInteger.Proofs.Model.Effect
import Mathlib.Tactic.SplitIfs

/-! What calls leave alone. A call that adds, deletes, changes or names things writes the
problem, the registries and the names; it never touches the record of the last solve, also when
it fails. So flags, bounds and certificates that were stored by a solve stay until the next one,
whatever becomes of the model meanwhile. The bounds of a column are written as a pair: whatever
bounds are asked for, a column gets the kind of the pair and the sides that count for this kind,
and a new column is free. -/

namespace MixedInteger

variable {α β γ : Type} [Scalar α]

/-! ### Bounds as they are stored -/

/-- The column is free, or it has the kind and the sides that some pair of bounds gets. -/
inductive Column.BoundsStored (c : Column α) : Prop
  | free : (c.bound, c.lower, c.upper) = (.free, -Scalar.infinity, Scalar.infinity) → c.BoundsStored
  | stored (l u : α) : (c.bound, c.lower, c.upper) = storedBounds l u → c.BoundsStored

theorem Column.BoundsStored.congr {c d : Column α} (h : c.BoundsStored) (hb : d.bound = c.bound)
    (hl : d.lower = c.lower) (hu : d.upper = c.upper) : d.BoundsStored := by
  have hsame : (d.bound, d.lower, d.upper) = (c.bound, c.lower, c.upper) := by rw [hb, hl, hu]
  cases h with
  | free hc => exact .free (hsame.trans hc)
  | stored l u hc => exact .stored l u (hsame.trans hc)

namespace Problem

variable {p q : Problem α}

def BoundsStored (p : Problem α) : Prop := ∀ c ∈ p.columns, c.BoundsStored

/-- A change that leads to columns of this kind only, from such columns. -/
def StoresBounds (f : Problem α → Except (ProblemError α) (Problem α)) : Prop :=
  ∀ p q, f p = .ok q → p.BoundsStored → q.BoundsStored

theorem BoundsStored.congr (h : p.BoundsStored) (hq : q.columns = p.columns) : q.BoundsStored := by
  intro c hc
  exact h c (hq ▸ hc)

theorem BoundsStored.modifyColumn (h : p.BoundsStored) (j : Int) {f : Column α → Column α}
    (hf : ∀ c, c.BoundsStored → (f c).BoundsStored) : (p.modifyColumn j f).BoundsStored :=
  forall_mem_modify _ h hf

theorem BoundsStored.zipWith (h : p.BoundsStored) (xs : List β) {f : Column α → β → Column α}
    (hf : ∀ c x, c.BoundsStored → (f c x).BoundsStored) :
    ({ p with columns := List.zipWith f p.columns xs } : Problem α).BoundsStored := by
  intro c hc
  obtain ⟨i, hi, rfl⟩ := List.mem_iff_getElem.1 hc
  rw [List.getElem_zipWith]
  exact hf _ _ (h _ (List.getElem_mem _))

/-- A checked change of one column. -/
theorem stores_column {f : Column α → Column α} (j : Int)
    (hf : ∀ c, c.BoundsStored → (f c).BoundsStored) : StoresBounds fun p : Problem α => do
      let _ ← p.column j
      return p.modifyColumn j f := by
  intro p q hq h
  obtain ⟨c, -, hq⟩ := except_bind_eq_ok.1 hq
  cases hq
  exact h.modifyColumn j hf

theorem stores_setColumnKind (j : Int) (kind : ColumnKind) :
    StoresBounds fun p : Problem α => p.setColumnKind j kind :=
  stores_column j fun _ h => h.congr rfl rfl rfl

theorem stores_setColumnName (j : Int) (name : String) :
    StoresBounds fun p : Problem α => p.setColumnName j name :=
  stores_column j fun _ h => h.congr rfl rfl rfl

theorem stores_setCost (j : Int) (cost : α) :
    StoresBounds fun p : Problem α => p.setCost j cost := by
  intro p q hq h
  unfold setCost at hq
  split_ifs at hq
  · cases hq
    exact h.congr rfl
  · exact stores_column (f := fun c => { c with cost := cost }) j (fun _ h => h.congr rfl rfl rfl)
      p q hq h

/-- Bounds of any kind, if a column may store them. -/
theorem stores_setColumnBounds (j : Int) (kind : BoundKind) (l u : α)
    (hkind : ∀ c : Column α,
      (c.bound, c.lower, c.upper) = (kind, kind.sides l u) → c.BoundsStored) :
    StoresBounds fun p : Problem α => p.setColumnBounds j kind l u := by
  intro p q hq h
  obtain ⟨c, -, hq⟩ := except_bind_eq_ok.1 hq
  dsimp only at hq
  split_ifs at hq
  cases hq
  exact h.modifyColumn j fun _ _ => hkind _ rfl

theorem stores_setColumnBounds_free (j : Int) :
    StoresBounds fun p : Problem α => p.setColumnBounds j .free 0 0 :=
  stores_setColumnBounds j .free 0 0 fun _ => .free

theorem stores_setColumnBounds_boundKind (j : Int) (l u : α) :
    StoresBounds fun p : Problem α => p.setColumnBounds j (boundKind l u) l u :=
  stores_setColumnBounds j (boundKind l u) l u fun _ => .stored l u

theorem stores_leniently {f : Problem α → Except (ProblemError α) (Problem α)}
    (hf : StoresBounds f) : StoresBounds fun p => p.leniently f := by
  intro p q hq h
  obtain ⟨r, hr, hq⟩ := except_bind_eq_ok.1 hq
  cases hq
  exact (hf _ r hr (h.congr rfl)).congr rfl

theorem stores_addColumns (n : Int) :
    StoresBounds fun p : Problem α => (p.addColumns n).map (·.1) := by
  intro p q hq h
  obtain ⟨r, hr, rfl⟩ := except_map_eq_ok.1 hq
  unfold addColumns at hr
  split_ifs at hr
  cases hr
  intro c hc
  obtain hold | hnew := List.mem_append.1 hc
  · exact h c hold
  · rw [(List.mem_replicate.1 hnew).2]
    exact .free rfl

theorem stores_deleteColumns (js : List Int) :
    StoresBounds fun p : Problem α => p.deleteColumns js := by
  intro p q hq h
  obtain ⟨-, -, hq⟩ := except_bind_eq_ok.1 hq
  cases hq
  exact fun c hc => h c (mem_of_mem_without hc)

/-! ### Changes of rows -/

theorem stores_deleteRows (is : List Int) : StoresBounds fun p : Problem α => p.deleteRows is := by
  intro p q hq h
  obtain ⟨-, -, hq⟩ := except_bind_eq_ok.1 hq
  cases hq
  exact h.congr rfl

theorem stores_row {f : Row α → Row α} (i : Int) : StoresBounds fun p : Problem α => do
    let _ ← p.row i
    return p.modifyRow i f := by
  intro p q hq h
  obtain ⟨r, -, hq⟩ := except_bind_eq_ok.1 hq
  cases hq
  exact h.congr rfl

theorem stores_setRowName (i : Int) (name : String) :
    StoresBounds fun p : Problem α => p.setRowName i name := stores_row i

theorem stores_setRowBounds (i : Int) (kind : BoundKind) (l u : α) :
    StoresBounds fun p : Problem α => p.setRowBounds i kind l u := by
  intro p q hq h
  obtain ⟨r, -, hq⟩ := except_bind_eq_ok.1 hq
  dsimp only at hq
  split_ifs at hq
  cases hq
  exact h.congr rfl

theorem stores_setMatrixRow (i : Int) (columns : List Int) (values : List α) :
    StoresBounds fun p : Problem α => p.setMatrixRow i columns values := by
  intro p q hq h
  obtain ⟨r, -, hq⟩ := except_bind_eq_ok.1 hq
  split_ifs at hq
  obtain ⟨-, -, hq⟩ := except_bind_eq_ok.1 hq
  cases hq
  exact h.congr rfl

theorem stores_addRows (n : Int) : StoresBounds fun p : Problem α => (p.addRows n).map (·.1) := by
  intro p q hq h
  obtain ⟨r, hr, rfl⟩ := except_map_eq_ok.1 hq
  unfold addRows at hr
  split_ifs at hr
  cases hr
  exact h.congr rfl

/-- Steps that lead to columns of this kind only, also when they fail. -/
def EditStoresBounds (edit : RowEdit α β) : Prop :=
  ∀ p, p.BoundsStored → Runs edit p (fun _ q => q.BoundsStored) BoundsStored

theorem editStores_change {f : Problem α → Except (ProblemError α) (Problem α)}
    (hf : StoresBounds f) : EditStoresBounds (RowEdit.change f) := by
  intro p h
  unfold Runs RowEdit.change
  cases hq : f p with
  | ok q => exact hf p q hq h
  | error e => exact h

theorem editStores_setRowSense (i : Int) (sense : RowSense) (rhs : α) :
    EditStoresBounds (setRowSense i sense rhs) := by
  cases sense with
  | unknown s => exact fun _ h => h
  | equal => exact editStores_change (stores_setRowBounds _ _ _ _)
  | atLeast => exact editStores_change (stores_setRowBounds _ _ _ _)
  | atMost => exact editStores_change (stores_setRowBounds _ _ _ _)

theorem editStores_addAffineRow (columns : List Int) (values : List α) (sense : RowSense)
    (rhs : α) : EditStoresBounds (addAffineRow columns values sense rhs) := by
  intro p h
  unfold addAffineRow
  split_ifs
  · exact h
  refine (editStores_change (stores_addRows 1) p h).bind fun _ q hq => ?_
  refine Runs.bind (P := fun r s => s.BoundsStored) (.of_ok rfl hq) fun r q hq => ?_
  refine (editStores_change (stores_setMatrixRow _ columns values) q hq).bind fun _ q hq => ?_
  exact (editStores_setRowSense _ sense rhs q hq).bind fun _ q hq => .pure hq

end Problem

/-! ### What is kept -/

/-- What was said about parameters and messages, as it was said and as the algorithms take it. -/
def Model.settings (m : Model α) : Bool × List (String × Value α) × Parameter.Stores α :=
  (m.silent, m.given, m.stores)

/-- What is between a model and what a call makes of it: the record of the last solve and the
settings stay, and the bounds of columns stay such as are stored. -/
structure Model.Keeps (m m' : Model α) : Prop where
  last : m'.last = m.last
  settings : m'.settings = m.settings
  bounds : m.problem.BoundsStored → m'.problem.BoundsStored

namespace Model.Keeps

variable {m m' m'' : Model α}

theorem refl (m : Model α) : m.Keeps m := ⟨rfl, rfl, id⟩

theorem trans (h : m.Keeps m') (h' : m'.Keeps m'') : m.Keeps m'' :=
  ⟨h'.last.trans h.last, h'.settings.trans h.settings, fun hm => h'.bounds (h.bounds hm)⟩

end Model.Keeps

namespace Modelling

/-- The call keeps what there is to keep. -/
def Steady (x : Modelling α β) : Prop := ∀ m : Model α, m.Keeps (after x m)

namespace Steady

theorem pure (b : β) : Steady (Pure.pure b : Modelling α β) := .refl

theorem throw (e : Fault α) : Steady (MonadExcept.throw e : Modelling α β) := .refl

theorem update {f : Model α → Model α} (h : ∀ m : Model α, m.Keeps (f m)) :
    Steady (modify f : Modelling α PUnit) := h

theorem bind {x : Modelling α β} {f : β → Modelling α γ} (hx : Steady x)
    (hf : ∀ b, Steady (f b)) : Steady (x >>= f) := by
  intro m
  have hx := hx m
  unfold after at hx ⊢
  rw [bind_run]
  cases h : x m with
  | ok b m' =>
    rw [h] at hx
    exact hx.trans (hf b m')
  | error e m' =>
    rw [h] at hx
    exact hx

/-- What is read first is the model that the rest starts from. -/
theorem get_bind {f : Model α → Modelling α β}
    (h : ∀ m : Model α, m.Keeps (after (f m) m)) : Steady (get >>= f) := h

theorem set_bind {m m' : Model α} {f : PUnit → Modelling α β} (hm : m.Keeps m')
    (hf : Steady (f ⟨⟩)) : m.Keeps (after (set m' >>= f) m) := hm.trans (hf m')

theorem ofExcept (x : Except (Fault α) β) : Steady (Modelling.ofExcept x : Modelling α β) := by
  cases x with
  | ok b => exact .pure b
  | error e => exact .throw e

theorem query (f : Model α → Except (Fault α) β) : Steady (Modelling.query f) :=
  get_bind fun m => Steady.ofExcept (f m) m

theorem change {f : Problem α → Except (ProblemError α) (Problem α)} (hf : Problem.StoresBounds f) :
    Steady (Modelling.change f) := by
  intro m
  cases h : f m.problem with
  | ok p =>
    rw [after_ok (change_ok h)]
    exact ⟨rfl, rfl, hf _ _ h⟩
  | error e =>
    rw [after_error (change_error h)]
    exact .refl m

theorem editRow {edit : RowEdit α β} (hedit : Problem.EditStoresBounds edit) :
    Steady (Modelling.editRow edit) := by
  refine get_bind fun m => ?_
  split
  · next h =>
    refine set_bind ⟨rfl, rfl, fun hm => ?_⟩ (.pure _)
    exact (hedit _ hm).ok h
  · next h =>
    refine set_bind ⟨rfl, rfl, fun hm => ?_⟩ (.throw _)
    have hrun := hedit _ hm
    rw [Runs, h] at hrun
    exact hrun

/-- A call that is refused, or goes on. -/
theorem guarded {c : Prop} [Decidable c] {e : Fault α} {f : PUnit → Modelling α β}
    (h : Steady (f ⟨⟩)) :
    Steady (if c then (do let r ← MonadExcept.throw e; f r) else f ⟨⟩) := by
  split_ifs
  · exact .refl
  · exact h

theorem mapM {f : β → Modelling α γ} (h : ∀ b, Steady (f b)) (bs : List β) :
    Steady (bs.mapM f) := by
  induction bs with
  | nil => exact .pure []
  | cons b bs ih =>
    rw [List.mapM_cons]
    exact (h b).bind fun _ => ih.bind fun _ => .pure _

end Steady

open Steady Problem

theorem modifyInfo_steady (v : Int) (f : VariableInfo → VariableInfo) :
    Steady (modifyInfo v f : Modelling α Unit) := .update fun _ => ⟨rfl, rfl, id⟩

theorem count_steady (t : TypeState) (n : Int) : Steady (count t n : Modelling α Unit) := by
  cases t with
  | continuous => exact .pure ()
  | binary => exact .update fun _ => ⟨rfl, rfl, id⟩
  | integer => exact .update fun _ => ⟨rfl, rfl, id⟩

theorem renameConstraint_steady (old new : String) (c : ConstraintIndex) :
    Steady (renameConstraint old new c : Modelling α Unit) := .update fun _ => ⟨rfl, rfl, id⟩

/-! ### Variables -/

theorem registerVariable_steady (column : Nat) :
    Steady (registerVariable column : Modelling α VariableIndex) :=
  get_bind fun _ => set_bind ⟨rfl, rfl, id⟩
    ((Steady.change (stores_setColumnBounds_free _)).bind fun _ => .pure _)

theorem addVariable_steady : Steady (addVariable : Modelling α VariableIndex) :=
  (Steady.change (stores_addColumns 1)).bind fun _ => get_bind fun m => registerVariable_steady _ m

theorem addVariables_steady (n : Int) :
    Steady (addVariables n : Modelling α (List VariableIndex)) := by
  unfold addVariables
  split_ifs
  · exact .pure []
  · exact get_bind fun m => (Steady.change (stores_addColumns n)).bind
      (fun _ => mapM (fun _ => registerVariable_steady _) _) m

theorem deleteVariable_steady (v : VariableIndex) :
    Steady (deleteVariable v : Modelling α Unit) := by
  unfold deleteVariable
  refine (Steady.query _).bind fun info => .bind (.update fun _ => ⟨rfl, rfl, id⟩) fun _ =>
    (Steady.change (stores_deleteColumns _)).bind fun _ => ?_
  have hrest : ∀ close : Model α → Model α, (∀ m : Model α, m.Keeps (close m)) → Steady (do
      modify fun m => { m with variableNames := m.variableNames.update info.name "" (.var v) }
      count info.type (-1)
      modify close : Modelling α Unit) := fun _ hclose =>
    .bind (.update fun _ => ⟨rfl, rfl, id⟩) fun _ => (count_steady _ _).bind fun _ => .update hclose
  dsimp only
  split_ifs
  · refine .bind (.update fun _ => ⟨rfl, rfl, id⟩) fun _ => hrest _ fun m => ?_
    split <;> exact ⟨rfl, rfl, id⟩
  · refine hrest _ fun m => ?_
    split <;> exact ⟨rfl, rfl, id⟩

/-! ### Constraints -/

theorem setVariableBound_steady (j : Nat) (b : BoundChange α) :
    Steady (setVariableBound j b) := by
  refine get_bind fun m => ?_
  split
  · exact .refl m
  · dsimp only
    split_ifs
    · exact Steady.change (stores_leniently (stores_setColumnBounds_boundKind _ _ _)) m
    · exact Steady.change (stores_setColumnBounds_boundKind _ _ _) m

theorem setConstraintSet_steady (i : IndexArg α) (s : SetArg α) :
    Steady (setConstraintSet i s) := by
  unfold setConstraintSet
  refine (Steady.ofExcept _).bind fun c => .guarded ?_
  split_ifs
  · refine (Steady.query _).bind fun info => ?_
    split
    · exact setVariableBound_steady _ _
    · exact .pure _
  · refine (Steady.query _).bind fun info => (Steady.ofExcept _).bind fun e =>
      (Steady.editRow (editStores_setRowSense _ _ _)).bind fun _ => ?_
    split
    · exact .update fun _ => ⟨rfl, rfl, id⟩
    · exact .pure _

theorem addConstraint_steady (f : FunctionArg α) (s : SetArg α) :
    Steady (addConstraint f s) := by
  have htype : ∀ v t kind, Steady (addTypeConstraint v t kind : Modelling α ConstraintIndex) :=
    fun v t kind => (Steady.query _).bind fun info => .guarded <|
      (Steady.change (stores_setColumnKind _ _)).bind fun _ =>
        (modifyInfo_steady _ _).bind fun _ => (count_steady _ _).bind fun _ => .pure _
  have hbound : ∀ v (s : ScalarSet α), Steady (addBoundConstraint v s) := by
    intro v s
    refine (Steady.query _).bind fun info => ?_
    split
    · exact .throw _
    · exact (modifyInfo_steady _ _).bind fun _ => (setConstraintSet_steady _ _).bind fun _ =>
        .pure _
  have haffine : ∀ f (s : ScalarSet α), Steady (addAffineConstraint f s) := by
    intro f s
    unfold addAffineConstraint
    exact .guarded <| (Steady.query _).bind fun e => get_bind fun m => set_bind ⟨rfl, rfl, id⟩ <|
      (Steady.ofExcept _).bind fun e =>
        (Steady.editRow (editStores_addAffineRow _ _ _ _)).bind fun _ => .pure _
  unfold addConstraint
  dsimp only
  split
  · split
    · exact htype _ _ _
    · exact htype _ _ _
    · exact hbound _ _
    · exact .throw _
  · split
    · exact htype _ _ _
    · exact htype _ _ _
    · exact hbound _ _
    · exact .throw _
  · split_ifs
    · exact haffine _ _
    · exact .throw _
  · exact .throw _

theorem clearName_steady (c : ConstraintIndex) (info : VariableInfo) :
    Steady (match NameSlot.ofKind? c.set with
      | none => MonadExcept.throw .missingKey
      | some slot => do
        renameConstraint (slot.get info) "" c
        modifyInfo c.value (slot.set "") : Modelling α Unit) := by
  split
  · exact .throw _
  · exact (renameConstraint_steady _ _ _).bind fun _ => modifyInfo_steady _ _

theorem deleteSingleConstraint_steady (c : ConstraintIndex) :
    Steady (deleteSingleConstraint c : Modelling α Unit) := by
  unfold deleteSingleConstraint
  refine (Steady.query _).bind fun info => ?_
  dsimp only
  split_ifs
  · split
    · exact (Steady.throw _).bind fun _ => clearName_steady c info
    · exact (modifyInfo_steady _ _).bind fun _ => (setVariableBound_steady _ _).bind
        fun _ => clearName_steady c info
  · exact (Steady.change (stores_setColumnKind _ _)).bind fun _ => (count_steady _ _).bind fun _ =>
      (modifyInfo_steady _ _).bind fun _ => clearName_steady c info

theorem deleteAffineConstraint_steady (c : ConstraintIndex) :
    Steady (deleteAffineConstraint c : Modelling α Unit) := by
  unfold deleteAffineConstraint
  refine (Steady.query _).bind fun info => .bind (.update fun _ => ⟨rfl, rfl, id⟩) fun _ =>
    (Steady.change (stores_deleteRows _)).bind fun _ => ?_
  dsimp only
  split_ifs
  · refine .bind (.update fun _ => ⟨rfl, rfl, id⟩) fun _ => .update fun m => ?_
    split <;> exact ⟨rfl, rfl, id⟩
  · refine .update fun m => ?_
    split <;> exact ⟨rfl, rfl, id⟩

theorem delete_steady (i : IndexArg α) : Steady (delete i) := by
  unfold delete
  split
  · exact deleteVariable_steady _
  · split
    · exact deleteSingleConstraint_steady _
    · exact deleteAffineConstraint_steady _
    · exact .throw _
  · exact .throw _

theorem setConstraintFunction_steady (i : IndexArg α) (f : FunctionArg α) :
    Steady (setConstraintFunction i f) := by
  unfold setConstraintFunction
  refine (Steady.ofExcept _).bind fun c => .guarded ?_
  split
  · exact .guarded <| (Steady.query _).bind fun _ => (Steady.query _).bind fun _ =>
      .change (stores_setMatrixRow _ _ _)
  · exact .throw _

theorem modifyCoefficient_steady (i v : IndexArg α) (x : α) :
    Steady (modifyCoefficient i v x) := by
  refine (Steady.ofExcept _).bind fun c => (Steady.query _).bind fun row =>
    (Steady.query _).bind fun info => get_bind fun m => ?_
  split
  · exact .refl m
  · exact Steady.change (stores_setMatrixRow _ _ _) m

/-! ### The objective -/

theorem setObjective_steady (f : FunctionArg α) : Steady (setObjective f) := by
  have haffine : ∀ kind (f : AffineFunction α), Steady (setAffineObjective kind f) :=
    fun kind f => (Steady.query _).bind fun costs => .update fun m =>
      ⟨rfl, rfl, fun h => h.zipWith costs fun _ _ hc => hc.congr rfl rfl rfl⟩
  cases f with
  | var v => exact haffine _ _
  | single v => exact haffine _ _
  | affine f => exact haffine _ _
  | raw x => exact .throw _

/-! ### Names -/

theorem setVariableName_steady (i : IndexArg α) (name : String) :
    Steady (setVariableName i name) := by
  unfold setVariableName
  refine (Steady.query _).bind fun info => (modifyInfo_steady _ _).bind fun _ => ?_
  dsimp only
  split_ifs
  · exact (Steady.change (stores_setColumnName _ _)).bind fun _ => .update fun _ => ⟨rfl, rfl, id⟩
  · exact .update fun _ => ⟨rfl, rfl, id⟩

theorem setConstraintName_steady (i : IndexArg α) (name : String) :
    Steady (setConstraintName i name) := by
  unfold setConstraintName
  refine (Steady.ofExcept _).bind fun c => ?_
  by_cases hc : c.function = .singleVariable
  · rw [if_pos hc]
    refine (Steady.query _).bind fun info => ?_
    split
    · exact .throw _
    · exact (modifyInfo_steady _ _).bind fun _ => renameConstraint_steady _ _ _
  · rw [if_neg hc]
    refine (Steady.query _).bind fun info => .bind (.update fun _ => ⟨rfl, rfl, id⟩) fun _ => ?_
    dsimp only
    split_ifs
    · exact (Steady.change (stores_setRowName _ _)).bind fun _ => renameConstraint_steady _ _ _
    · exact renameConstraint_steady _ _ _

theorem variableByName_steady (name : String) :
    Steady (variableByName name : Modelling α (Option (IndexArg α))) := by
  refine get_bind fun m => set_bind ⟨rfl, rfl, id⟩ ?_
  split
  · exact .pure _
  · exact .throw _

theorem constraintByName_steady (name : String) (kinds : Option (Kind × Kind)) :
    Steady (constraintByName name kinds : Modelling α (Option ConstraintIndex)) := by
  refine get_bind fun m => ?_
  dsimp only
  split
  · exact set_bind ⟨rfl, rfl, id⟩ (.throw _)
  · exact .refl m
  · exact set_bind ⟨rfl, rfl, id⟩ (.pure _)

end Modelling

/-! ### Histories -/

open Modelling in
theorem Edit.run_steady (e : Edit α) : Steady e.run := by
  cases e with
  | addVariable => exact addVariable_steady.bind fun _ => .pure _
  | addVariables n => exact (addVariables_steady n).bind fun _ => .pure _
  | addConstraint f s => exact (addConstraint_steady f s).bind fun _ => .pure _
  | delete i => exact (delete_steady i).bind fun _ => .pure _
  | setConstraintSet i s => exact (setConstraintSet_steady i s).bind fun _ => .pure _
  | setConstraintFunction i f => exact (setConstraintFunction_steady i f).bind fun _ => .pure _
  | modifyCoefficient i v x => exact (modifyCoefficient_steady i v x).bind fun _ => .pure _
  | setObjective f => exact (setObjective_steady f).bind fun _ => .pure _
  | modifyObjectiveCoefficient v x =>
    exact .bind ((Steady.query _).bind fun _ => .change (Problem.stores_setCost _ _))
      fun _ => .pure _
  | modifyObjectiveConstant x =>
    exact (Steady.change (Problem.stores_setCost 0 x)).bind fun _ => .pure _

theorem Call.keeps_after (m : Model α) (c : Call α) : m.Keeps (Call.after m c) := by
  cases c with
  | edit e => exact e.run_steady m
  | setVariableName v name => exact Modelling.setVariableName_steady _ _ m
  | setConstraintName i name => exact Modelling.setConstraintName_steady _ _ m
  | variableByName name => exact Modelling.variableByName_steady _ m
  | constraintByName name kinds => exact Modelling.constraintByName_steady _ _ m

theorem Call.last_after (m : Model α) (c : Call α) : (Call.after m c).last = m.last :=
  (keeps_after m c).last

end MixedInteger
