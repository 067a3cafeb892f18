import MixedInteger.Model.Copy
import MixedInteger.Proofs.Model.Atomicity
import MixedInteger.Proofs.Model.Memory
import MixedInteger.Proofs.Model.Reachable

/-! Failing calls, over all that can become of a model when its numbers may be infinite or no
numbers at all. The two numberings stay in step through every call, solve and copy, and this is
all that a call needs to look up everything before it writes. -/

namespace MixedInteger

variable {α σ β γ : Type} [Scalar α]

/-! ### Solving -/

theorem Modelling.setVariableBound_wellFormed (j : Nat) (b : BoundChange α) (m : Model α)
    (h : m.WellFormed) :
    Runs (Modelling.setVariableBound j b) m (fun _ m' => m'.WellFormed) (·.WellFormed) := by
  by_cases hj : 1 ≤ j ∧ j ≤ m.problem.columns.length
  · obtain ⟨i, rfl⟩ : ∃ i, j = i + 1 := ⟨j - 1, by omega⟩
    refine (h.setVariableBound_atomic (List.getElem?_eq_getElem (by omega)) b).weaken ?_
    rintro _ rfl
    exact h
  · have hnone : ∃ e, m.problem.column j = .error e := by
      unfold Problem.column
      split_ifs with hlt
      · exact ⟨_, rfl⟩
      · rw [List.getElem?_eq_none (by omega)]
        exact ⟨_, rfl⟩
    obtain ⟨e, he⟩ := hnone
    simp only [Runs, Modelling.setVariableBound, bind_run, get_run, he, throw_run]
    exact h

/-- What holds of every emptied model and is kept by calls, and by the bounds that a solve writes.
It is about variables, constraints, columns and rows only. -/
structure Model.Invariant (I : Model α → Prop) : Prop where
  emptied : ∀ m : Model α, I m.emptied
  call : ∀ {m}, I m → ∀ c, I (Call.after m c)
  variableName : ∀ {m}, I m → ∀ i name, I (after (Modelling.setVariableName i name) m)
  bound : ∀ {m}, I m → ∀ j b, I (after (Modelling.setVariableBound j b) m)
  congr : ∀ {m m' : Model α}, I m → m'.vars = m.vars → m'.affine = m.affine →
    m'.problem.columns = m.problem.columns → m'.problem.rows = m.problem.rows → I m'

namespace Solving

open Model

variable {I : Model α → Prop} (hI : Invariant I)
include hI

theorem invariant_unsolved {m : Model α} : I m.unsolved ↔ I m :=
  ⟨fun h => hI.congr h rfl rfl rfl rfl, fun h => hI.congr h rfl rfl rfl rfl⟩

theorem ofModelling_keeps {f : Modelling α β} (hf : ∀ m, I m → Runs f m (fun _ m' => I m') I) :
    Keeps (σ := σ) I (ofModelling f) := by
  intro w hw
  have hrun := hf w.model ((invariant_unsolved hI).1 hw)
  unfold Runs ofModelling at *
  cases hm : f w.model with
  | ok b m' =>
    rw [hm] at hrun
    exact (invariant_unsolved hI).2 hrun
  | error e m' =>
    rw [hm] at hrun
    exact (invariant_unsolved hI).2 hrun

theorem search_keeps (host : Host α σ) (callback : Option (Callback α σ)) (fuel : Nat) :
    Keeps I (search host callback fuel) := by
  intro w hw
  have hany : Finds w.model host callback fuel fun _ _ _ => True := fun b k session => .anything
  have h := (invariant_unsolved hI).1 hw
  refine ((search_runs hany).imp ?_).weaken ?_
  · rintro _ w' ⟨b, k, code, s, v, -, hw'⟩
    rw [hw']
    exact hI.congr h rfl rfl rfl rfl
  · rintro w' ⟨b, k, v, hw'⟩
    rw [hw']
    exact hI.congr h rfl rfl rfl rfl

theorem solveInteger_keeps (host : Host α σ) (callback : Option (Callback α σ)) (fuel : Nat) :
    Keeps I (solveInteger host callback fuel) := by
  have hset : ∀ (j : Nat) (b : BoundChange α) (m : Model α), I m →
      Runs (Modelling.setVariableBound j b) m (fun _ m' => I m') I :=
    fun j b m hm => .of_after (hI.bound hm j b)
  have hrestore : ∀ (bounds : List (Nat × BoundChange α)) presolve,
      Keeps (σ := σ) I (restore bounds presolve) := by
    intro bounds presolve
    refine Keeps.bind (ofModelling_keeps hI fun m hm => Runs.forM bounds ?_ hm) fun _ =>
      Keeps.modifyModel fun m hm => hI.congr hm rfl rfl rfl rfl
    exact fun b m hm => hset b.1 b.2 m hm
  have hround : Keeps (σ := σ) I (ofModelling (roundAllBounds (α := α))) :=
    ofModelling_keeps hI fun m hm => roundAllBounds_keeps_of hset (fun _ => id) hm
  unfold solveInteger
  refine hround.bind fun bounds => Keeps.model.bind fun m => Keeps.bind ?_ fun outcome => ?_
  · intro w hw
    have hsearch := search_keeps hI host callback fuel w hw
    unfold Runs at hsearch ⊢
    dsimp only
    cases hrun : search host callback fuel w with
    | ok b w' =>
      rw [hrun] at hsearch
      exact hsearch
    | error e w' =>
      rw [hrun] at hsearch
      exact hsearch
  · refine (hrestore bounds _).bind fun _ => ?_
    cases outcome with
    | ok _ => exact Keeps.pure _
    | error e => exact Keeps.throw e

theorem optimize_invariant {m : Model α} (h : I m) (host : Host α σ)
    (callback : Option (Callback α σ)) (fuel : Nat) (session : Session α σ) :
    I (after (optimize host callback fuel) ⟨session, m⟩).model := by
  have hrun := optimize_keeps_of host callback fuel (solveInteger_keeps hI host callback fuel)
    ⟨session, m⟩ ((invariant_unsolved hI).2 h)
  exact (invariant_unsolved hI).1
    (Runs.after (I := fun w' : Workbench α σ => I w'.model.unsolved) hrun)

end Solving

/-! ### Copying -/

/-- Steps that keep a property of models, also when they fail. -/
def Modelling.Orderly (I : Model α → Prop) (x : Modelling α β) : Prop :=
  ∀ m, I m → Runs x m (fun _ m' => I m') I

namespace Modelling.Orderly

variable {I : Model α → Prop}

theorem pure (b : β) : Orderly I (Pure.pure b : Modelling α β) := fun _ h => h

theorem bind {x : Modelling α β} {f : β → Modelling α γ} (hx : Orderly I x)
    (hf : ∀ b, Orderly I (f b)) : Orderly I (x >>= f) :=
  fun m h => (hx m h).bind fun b m' h' => hf b m' h'

theorem ofExcept (x : Except (Fault α) β) : Orderly I (Modelling.ofExcept x) := by
  cases x with
  | ok b => exact pure b
  | error e => exact fun _ h => h

theorem modify {f : Model α → Model α} (h : ∀ m, I m → I (f m)) :
    Orderly I (modify f : Modelling α PUnit) := fun m hm => h m hm

variable (hI : Model.Invariant I)
include hI

theorem addVariable : Orderly I (Modelling.addVariable (α := α)) := fun _ hm =>
  .of_after (after_return (Modelling.addVariable (α := α)) Reply.newVariable ▸
    hI.call hm (.edit .addVariable))

theorem addConstraint (f : FunctionArg α) (s : SetArg α) :
    Orderly I (Modelling.addConstraint f s) := fun _ hm =>
  .of_after (after_return (Modelling.addConstraint f s) Reply.newConstraint ▸
    hI.call hm (.edit (.addConstraint f s)))

theorem setObjective (f : FunctionArg α) : Orderly I (Modelling.setObjective f) := fun _ hm =>
  .of_after (after_return (Modelling.setObjective f) (fun _ => Reply.done) ▸
    hI.call hm (.edit (.setObjective f)))

end Modelling.Orderly

namespace Modelling

variable {I : Model α → Prop} (hI : Model.Invariant I) (source : Model α)
include hI

theorem copyVariable_orderly (map : IndexMap) (v : VariableIndex) :
    Orderly I (copyVariable source map v) := by
  unfold copyVariable
  refine (Orderly.addVariable hI).bind fun new => (Orderly.ofExcept _).bind fun name => ?_
  dsimp only
  split_ifs
  · exact Orderly.bind (fun m hm => .of_after (hI.variableName hm _ _)) fun _ => .pure _
  · exact .pure _

theorem copyConstraint_orderly (map : IndexMap) (c : ConstraintIndex) :
    Orderly I (copyConstraint source map c) := by
  unfold copyConstraint
  refine (Orderly.ofExcept _).bind fun f => (Orderly.ofExcept _).bind fun g =>
    (Orderly.ofExcept _).bind fun set => (Orderly.addConstraint hI g _).bind fun new =>
    (Orderly.ofExcept _).bind fun name => ?_
  dsimp only
  split_ifs
  · exact Orderly.bind (fun m hm => .of_after (hI.call hm (.setConstraintName _ _)))
      fun _ => .pure _
  · exact .pure _

/-- A copy keeps what calls keep, also when it is broken off. -/
theorem copyFrom_invariant (m : Model α) : I (after (copyFrom source) m) := by
  refine Runs.after (I := I) ?_
  unfold copyFrom
  refine Runs.bind (P := fun _ m' => I m') (.update (hI.emptied m)) fun _ m hm => ?_
  refine (Runs.foldlM _ (fun map v => copyVariable_orderly hI source map v) hm _).bind
    fun map m hm => ?_
  refine (Runs.foldlM _ (fun map c => copyConstraint_orderly hI source map c) hm _).bind
    fun map m hm => ?_
  have hsense : Orderly I (setObjectiveSense source.objectiveSense : Modelling α Unit) :=
    .modify fun m hm => hI.congr hm rfl rfl rfl rfl
  refine hsense.bind (fun _ => (Orderly.ofExcept _).bind fun f => ?_) m hm
  refine (Orderly.setObjective hI f).bind fun _ => ?_
  have hname : Orderly I (do
      modify fun m : Model α =>
        { m with problem := { m.problem with name := source.problem.name } }
      return map) :=
    Orderly.bind (.modify fun m hm => hI.congr hm rfl rfl rfl rfl) fun _ => .pure _
  cases source.objective with
  | single v => exact hname
  | affine f =>
    exact Orderly.bind (.modify fun m hm => hI.congr hm rfl rfl rfl rfl) fun _ => hname

end Modelling

/-! ### All that can become of a model -/

/-- What can become of a model. Nothing is asked of numbers, indices and names, calls, solves and
copies may fail, and a variable may be named by the index of a constraint on it. -/
inductive Model.Attained : Model α → Prop
  | emptied (m : Model α) : m.emptied.Attained
  | call {m : Model α} (h : m.Attained) (c : Call α) : (Call.after m c).Attained
  | variableName {m : Model α} (h : m.Attained) (i : IndexArg α) (name : String) :
      (after (Modelling.setVariableName i name) m).Attained
  | sense {m : Model α} (h : m.Attained) (s : ObjectiveSense) : (m.withSense s).Attained
  | named {m : Model α} (h : m.Attained) (name : String) :
      Attained { m with problem := { m.problem with name := name } }
  | settings {m : Model α} (h : m.Attained) (presolve : Bool) (method : Method)
      (stores : Parameter.Stores α) (given : List (String × Value α)) (silent : Bool) :
      Attained { m with
        presolve := presolve, method := method, stores := stores, given := given, silent := silent }
  | basis {m : Model α} (h : m.Attained) (s : Solution α) :
      Attained { m with problem := m.problem.withBasic s }
  | solved {m : Model α} (h : m.Attained) {σ : Type} (host : Host α σ)
      (callback : Option (Callback α σ)) (fuel : Nat) (session : Session α σ) :
      (after (Solving.optimize host callback fuel) ⟨session, m⟩).model.Attained
  | copied {source : Model α} (h : source.Attained) (m : Model α) :
      (after (Modelling.copyFrom source) m).Attained

/-- Invariants hold of all that can become of a model. -/
theorem Model.Attained.invariant {I : Model α → Prop} (hI : Invariant I) {m : Model α}
    (h : m.Attained) : I m := by
  induction h with
  | emptied m => exact hI.emptied m
  | call _ c ih => exact hI.call ih c
  | variableName _ i name ih => exact hI.variableName ih i name
  | sense _ s ih => exact hI.congr ih rfl rfl rfl rfl
  | named _ name ih => exact hI.congr ih rfl rfl rfl rfl
  | settings _ presolve method stores given silent ih => exact hI.congr ih rfl rfl rfl rfl
  | basis _ s ih => exact hI.congr ih rfl rfl rfl rfl
  | solved _ host callback fuel session ih =>
    exact Solving.optimize_invariant hI ih host callback fuel session
  | copied _ m ih => exact Modelling.copyFrom_invariant hI _ m

theorem Model.Invariant.bounds : Invariant (α := α) fun m => m.problem.BoundsStored where
  emptied _ _ hc := nomatch hc
  call h c := (Call.keeps_after _ c).bounds h
  variableName h i name := (Modelling.setVariableName_steady i name _).bounds h
  bound h j b := (Modelling.setVariableBound_steady j b _).bounds h
  congr h _ _ hc _ := h.congr hc

/-- A lookup of a name writes to the index of names only. -/
theorem Model.WellFormed.after_call [OrderedScalar α] {m : Model α} (h : m.WellFormed)
    (c : Call α) : (Call.after m c).WellFormed := by
  have hatomic : ∀ {β : Type} {x : Modelling α β}, Modelling.Atomic x m →
      (after x m).WellFormed := fun hx => (hx.weaken fun _ hm => hm ▸ h).after
  cases c with
  | edit e =>
    refine ((Edit.run_runs h e).weaken ?_).after
    rintro m' (rfl | hhalf)
    · exact h
    · exact h.halfDone hhalf
  | setVariableName v name => exact hatomic (h.setVariableName_atomic _ name)
  | setConstraintName i name => exact hatomic (h.setConstraintName_atomic i name)
  | variableByName name =>
    rw [Call.after, after, Model.Named.variableByName_run]
    dsimp only
    cases (m.variableNames.lookup (Modelling.scanVariableNames m) name).1 <;>
      exact h.congr rfl rfl rfl rfl
  | constraintByName name kinds =>
    have hnames : ∀ (names : NameIndex ConstraintIndex),
        ({ m with constraintNames := names } : Model α).WellFormed :=
      fun _ => h.congr rfl rfl rfl rfl
    refine Runs.after (I := Model.WellFormed) ?_
    unfold Modelling.constraintByName
    refine Runs.bind (P := fun m' s => m' = m ∧ s = m) (.of_ok rfl ⟨rfl, rfl⟩) ?_
    rintro _ _ ⟨rfl, rfl⟩
    dsimp only
    split
    · exact hnames _
    · exact h
    · exact hnames _

theorem Model.Invariant.wellFormed [OrderedScalar α] : Invariant (α := α) Model.WellFormed where
  emptied m := .emptied m
  call h c := h.after_call c
  variableName h i name := ((h.setVariableName_atomic i name).weaken fun _ hm => hm ▸ h).after
  bound h j b := (Modelling.setVariableBound_wellFormed j b _ h).after
  congr h hv ha hc hr := h.congr hv ha (congrArg List.length hc) hr

theorem Model.Attained.wellFormed [OrderedScalar α] {m : Model α} (h : m.Attained) :
    m.WellFormed := h.invariant .wellFormed

/-- The bounds of columns are always such as are stored. -/
theorem Model.Attained.bounds {m : Model α} (h : m.Attained) : m.problem.BoundsStored :=
  h.invariant .bounds

/-! ### Instructions -/

/-- A call that says something of a model, with whatever may be passed to it. -/
inductive Instruction (α : Type) where
  | edit (e : Edit α)
  | sense (word : Value α)
  | variableName (i : IndexArg α) (name : String)
  | constraintName (i : IndexArg α) (name : String)

def Instruction.run : Instruction α → Modelling α Reply
  | edit e => e.run
  | sense word => do
    Modelling.setObjectiveSenseByName word
    return .done
  | variableName i name => do
    Modelling.setVariableName i name
    return .done
  | constraintName i name => do
    Modelling.setConstraintName i name
    return .done

/-- An instruction that fails leaves the model as it was, and with it the answer to every question
and the outcome of every later call. Only a bound set can be half done: when one of the bounds that
its column would get is no number, the variable carries the set and the column keeps its bounds. -/
theorem instruction_atomic [OrderedScalar α] {m m' : Model α} (h : m.Attained)
    {c : Instruction α} {e : Fault α} (hrun : c.run m = .error e m') :
    m' = m ∨ ∃ edit, c = .edit edit ∧ m.HalfDone edit m' := by
  have hm := h.wellFormed
  have hdone : ∀ {x : Modelling α Unit}, Modelling.Atomic x m →
      Modelling.Atomic (do x; return Reply.done) m := fun hx => hx.answer fun _ => Reply.done
  have hend : ∀ {E : Model α → Prop} {P : Reply → Model α → Prop}, Runs c.run m P E → E m' := by
    intro E P hruns
    rwa [Runs, hrun] at hruns
  cases c with
  | edit edit => exact (hend (Edit.run_runs hm edit)).imp id fun hhalf => ⟨edit, rfl, hhalf⟩
  | sense word => exact .inl (hend (hdone (hm.setObjectiveSenseByName_atomic word)))
  | variableName i name => exact .inl (hend (hdone (hm.setVariableName_atomic i name)))
  | constraintName i name => exact .inl (hend (hdone (hm.setConstraintName_atomic i name)))

theorem VariableInfo.carries_before_addBound {info : VariableInfo} {k : Kind} {b : BoundState}
    (h : info.addBound k = .ok b) : info.carries k = false := by
  obtain ⟨_, _, bound, _⟩ := info
  cases k <;> cases bound <;> first | rfl | cases h

/-- A refused bound leaves a trace: the constraint is there afterwards, and was not before. -/
theorem Model.WellFormed.traces {m : Model α} (h : m.WellFormed) {i k : Nat} {info : VariableInfo}
    {c : Column α} (hat : m.VariableAt i k info c) {s : ScalarSet α} {b : BoundState}
    (hb : info.addBound s.kind = .ok b) (hrefused : m.problem.refusesChange c s.change = true) :
    ∃ e m', (Instruction.edit (.addConstraint (.single ⟨k⟩) (.set s))).run m = .error e m' ∧
      m'.isValid (.constraint ⟨.singleVariable, s.kind, k⟩) = true ∧
      m.isValid (.constraint ⟨.singleVariable, s.kind, k⟩) = false := by
  have hadd : Modelling.addConstraint (.single ⟨k⟩) (.set s) =
      Modelling.addBoundConstraint (α := α) ⟨k⟩ s := by
    have hbound := VariableInfo.isBound_of_addBound hb
    cases s <;> first | rfl | cases hbound
  have hrun := h.addBoundConstraint_eq hat hb
  rw [if_pos hrefused, ← hadd] at hrun
  obtain ⟨e, hcall⟩ : ∃ e, (Instruction.edit (.addConstraint (.single ⟨k⟩) (.set s))).run m =
      .error e (m.withVariable k fun info => { info with bound := b }) :=
    ⟨_, by simp only [Instruction.run, Edit.run, bind_run, hrun]; rfl⟩
  refine ⟨e, _, hcall, ?_, ?_⟩
  · rw [Model.isValid, Model.carries_single _ rfl, Model.withVariable, h.vars.get?_modify,
      if_pos rfl, hat.get? h]
    exact VariableInfo.carries_addBound hb
  · rw [Model.isValid, Model.carries_single _ rfl, hat.get? h]
    exact VariableInfo.carries_before_addBound hb

/-! ### A box without a lower end -/

/-- A model with one free variable. -/
def freeModel : Model Float := (Model.emptied {}).grown 1

/-- From no number up to five. -/
def halfOpen : ScalarSet Float := .interval Scalar.nan 5

def boxed : Instruction Float := .edit (.addConstraint (.single ⟨1⟩) (.set halfOpen))

theorem freeModel_attained : freeModel.Attained := by
  have hcall := (Model.Attained.emptied ({} : Model Float)).call (.edit (.addVariables 1))
  rwa [Call.after_addVariables (.emptied _) le_rfl] at hcall

theorem freeModel_variable :
    freeModel.VariableAt 0 1 { index := ⟨1⟩, column := 1 } {} := ⟨rfl, rfl, rfl, rfl⟩

theorem halfOpen_refused : freeModel.problem.refusesChange {} halfOpen.change = true := by
  decide +kernel

theorem instruction_atomic_boxed : ∃ e m', boxed.run freeModel = .error e m' ∧
    (m' = freeModel ∨ ∃ edit, boxed = .edit edit ∧ freeModel.HalfDone edit m') := by
  obtain ⟨e, m', hrun, -⟩ := freeModel_attained.wellFormed.traces freeModel_variable rfl
    halfOpen_refused
  exact ⟨e, m', hrun, instruction_atomic freeModel_attained hrun⟩

/-- Not every call that fails leaves all answers as they were. -/
theorem not_forall_atomic : ¬∀ (m m' : Model Float) (c : Instruction Float) (e : Fault Float),
    m.Attained → c.run m = .error e m' → ∀ i, m'.isValid i = m.isValid i := by
  intro hatomic
  obtain ⟨e, m', hrun, hafter, hbefore⟩ := freeModel_attained.wellFormed.traces
    freeModel_variable rfl halfOpen_refused
  have hsame := hatomic freeModel m' boxed e freeModel_attained hrun
    (.constraint ⟨.singleVariable, .interval, 1⟩)
  exact absurd (hafter.symm.trans (hsame.trans hbefore)) (by decide)

end MixedInteger
