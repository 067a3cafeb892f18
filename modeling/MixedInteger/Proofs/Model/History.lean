import MixedInteger.Proofs.Model.Consolidation
import MixedInteger.Proofs.Model.Refinement
import MixedInteger.Proofs.Number.Order

/-! Histories of edits. An edit adds variables to a ledger, changes the record of one variable,
erases a variable, or leaves all records alone. New identities are always the next ones,
so none is given out twice; a record only ever holds sets that an edit wrote. From a model
without variables, every history of edits gets the replies and faults of the ledger, and
afterwards every question has the answer of the ledger. Columns, rows and their renumbering
cannot be seen. -/

namespace MixedInteger

variable {α : Type} [Scalar α]

/-! ### Steps of a ledger -/

/-- A change of the record of a variable by an edit. A set that is written is not in the
way of another one, or is there already. -/
inductive RecordChange (e : Edit α) (v : VariableIndex) (r : VariableRecord α) :
    VariableRecord α → Prop
  | write {s : ScalarSet α} (h : e.bound? = some s)
      (hs : (∃ v, r.conflict? v s = none) ∨ r.carries s.kind = true) :
      RecordChange e v r (r.write s)
  | release {k : Kind} (h : e = .delete (.constraint ⟨.singleVariable, k, v.value⟩)) :
      RecordChange e v r (r.release k)
  | retype (t : TypeState) : RecordChange e v r { r with type := t }

namespace Ledger

/-- The `n` identities after `last`. -/
def fresh (last n : Nat) : List Int := (List.range n).map fun i => ((last + 1 + i : Nat) : Int)

theorem fresh_append (last n k : Nat) :
    fresh last n ++ fresh (last + n) k = fresh last (n + k) := by
  rw [fresh, fresh, fresh, List.range_add, List.map_append, List.map_map]
  congr 1
  refine List.map_congr_left fun i _ => ?_
  simp only [Function.comp_apply]
  omega

theorem nodup_fresh (last n : Nat) : (fresh last n).Nodup := by
  refine (List.nodup_map_iff_inj_on List.nodup_range).2 fun i _ j _ h => ?_
  omega

/-- What a ledger becomes by an edit, and the identities in the reply. -/
inductive Step (L : Ledger α) (e : Edit α) : Reply → Ledger α → Prop
  | grown {a : Reply} (n : Nat) (he : e = .addVariable ∨ ∃ n, e = .addVariables n)
      (hv : a.variables = (fresh L.lastVariable n).map VariableIndex.mk) (ha : a.affine = []) :
      Step L e a (L.addVariables n)
  | record {a : Reply} {v : VariableIndex} {r r' : VariableRecord α} (hL : L.vars v = some r)
      (hr : RecordChange e v r r') (hv : a.variables = []) (ha : a.affine = []) :
      Step L e a (L.setVariable v r')
  | erased (v : VariableIndex) : Step L e .done (L.eraseVariable v)
  | rows {a : Reply} {L' : Ledger α} (n : Nat) (hvars : L'.vars = L.vars)
      (hlast : L'.lastVariable = L.lastVariable) (hn : L'.lastAffine = L.lastAffine + n)
      (hv : a.variables = []) (ha : a.affine = fresh L.lastAffine n) : Step L e a L'

variable {L L' : Ledger α}

theorem vars_of_owner {i : IndexArg α} {v : VariableIndex} {r : VariableRecord α}
    (h : L.owner i = .ok (v, r)) : L.vars v = some r := by
  simp only [owner] at h
  split at h
  · next heq =>
    cases h
    obtain ⟨w, -, hw⟩ := Option.bind_eq_some_iff.1 heq
    obtain ⟨r', hr, heq⟩ := Option.map_eq_some_iff.1 hw
    cases heq
    exact hr
  · cases h

theorem vars_of_single {c : ConstraintIndex} {r : VariableRecord α} (h : L.single c = .ok r) :
    L.vars ⟨c.value⟩ = some r ∧ r.carries c.set = true := by
  rw [single] at h
  split at h
  · next heq =>
    cases h
    exact Option.filter_eq_some_iff.1 heq
  · cases h

theorem addSingle_step {e : Edit α} {v : VariableIndex} {s : ScalarSet α} {c : ConstraintIndex}
    (he : e.bound? = some s) (h : L.addSingle v s = .ok (c, L')) :
    L.Step e (.newConstraint c) L' := by
  obtain ⟨⟨w, r⟩, hw, h⟩ := except_bind_eq_ok.1 h
  have hL := vars_of_owner hw
  simp only at h
  cases ht : s.type? with
  | some t =>
    simp only [ht] at h
    split_ifs at h
    cases h
    exact .record hL (.retype t) rfl rfl
  | none =>
    simp only [ht] at h
    split at h
    · cases h
    · next hc =>
      cases h
      exact .record hL (.write he (.inl ⟨w, hc⟩)) rfl rfl

theorem addAffine_step {e : Edit α} {f : AffineFunction α} {s : ScalarSet α} {c : ConstraintIndex}
    (h : L.addAffine f s = .ok (c, L')) : L.Step e (.newConstraint c) L' := by
  rw [addAffine] at h
  split_ifs at h
  obtain ⟨-, -, h⟩ := except_bind_eq_ok.1 h
  cases h
  exact .rows 1 rfl rfl rfl rfl rfl

theorem addConstraint_step {f : FunctionArg α} {s : SetArg α} {c : ConstraintIndex}
    (h : L.addConstraint f s = .ok (c, L')) :
    L.Step (.addConstraint f s) (.newConstraint c) L' := by
  cases s with
  | raw x => cases f <;> cases h
  | set s =>
    cases f with
    | raw x => cases h
    | var v => exact addSingle_step rfl h
    | single v => exact addSingle_step rfl h
    | affine f =>
      simp only [addConstraint] at h
      split_ifs at h
      exact addAffine_step h

theorem delete_step {i : IndexArg α} (h : L.delete i = .ok L') :
    L.Step (.delete i) .done L' := by
  cases i with
  | raw x => cases h
  | var v =>
    obtain ⟨-, -, h⟩ := except_bind_eq_ok.1 h
    cases h
    exact .erased v
  | constraint c =>
    obtain ⟨function, kind, value⟩ := c
    cases function
    case singleVariable =>
      obtain ⟨r, hr, h⟩ := except_bind_eq_ok.1 h
      cases h
      exact .record (vars_of_single hr).1 (.release rfl) rfl rfl
    case scalarAffine =>
      obtain ⟨-, -, h⟩ := except_bind_eq_ok.1 h
      cases h
      exact .rows 0 rfl rfl rfl rfl rfl
    all_goals cases h

theorem setConstraintSet_step {i : IndexArg α} {s : SetArg α}
    (h : L.setConstraintSet i s = .ok L') : L.Step (.setConstraintSet i s) .done L' := by
  obtain ⟨c, hc, h⟩ := except_bind_eq_ok.1 h
  obtain ⟨function, kind, value⟩ := c
  split_ifs at h with hkind hsingle
  · obtain ⟨r, hr, h⟩ := except_bind_eq_ok.1 h
    cases s with
    | raw x =>
      cases h
      exact .rows 0 rfl rfl rfl rfl rfl
    | set s =>
      cases h
      obtain ⟨hL, hcarries⟩ := vars_of_single hr
      have hk : s.kind = kind := not_ne_iff.1 hkind
      refine .record hL (.write ?_ (.inr (hk ▸ hcarries))) rfl rfl
      cases i with
      | constraint c =>
        cases hc
        cases hsingle
        rfl
      | _ => cases hc
  · obtain ⟨r, -, h⟩ := except_bind_eq_ok.1 h
    cases s <;> cases h <;> exact .rows 0 rfl rfl rfl rfl rfl

theorem setConstraintFunction_step {e : Edit α} {i : IndexArg α} {f : FunctionArg α}
    (h : L.setConstraintFunction i f = .ok L') : L.Step e .done L' := by
  obtain ⟨c, -, h⟩ := except_bind_eq_ok.1 h
  split_ifs at h
  cases f with
  | affine f =>
    simp only at h
    split_ifs at h
    obtain ⟨r, -, h⟩ := except_bind_eq_ok.1 h
    obtain ⟨-, -, h⟩ := except_bind_eq_ok.1 h
    cases h
    exact .rows 0 rfl rfl rfl rfl rfl
  | _ => cases h

theorem modifyCoefficient_step {e : Edit α} {i v : IndexArg α} {x : α}
    (h : L.modifyCoefficient i v x = .ok L') : L.Step e .done L' := by
  obtain ⟨c, -, h⟩ := except_bind_eq_ok.1 h
  obtain ⟨r, -, h⟩ := except_bind_eq_ok.1 h
  obtain ⟨p, -, h⟩ := except_bind_eq_ok.1 h
  cases h
  exact .rows 0 rfl rfl rfl rfl rfl

theorem setObjective_step {e : Edit α} {f : FunctionArg α} (h : L.setObjective f = .ok L') :
    L.Step e .done L' := by
  have haffine : ∀ {kind : ObjectiveKind} {g : AffineFunction α},
      L.setAffineObjective kind g = .ok L' → L.Step e .done L' := by
    intro kind g hg
    obtain ⟨-, -, hg⟩ := except_bind_eq_ok.1 hg
    cases hg
    exact .rows 0 rfl rfl rfl rfl rfl
  cases f with
  | raw x => cases h
  | var v => exact haffine h
  | single v => exact haffine h
  | affine g => exact haffine h

theorem modifyObjectiveCoefficient_step {e : Edit α} {v : IndexArg α} {x : α}
    (h : L.modifyObjectiveCoefficient v x = .ok L') : L.Step e .done L' := by
  obtain ⟨p, -, h⟩ := except_bind_eq_ok.1 h
  cases h
  exact .rows 0 rfl rfl rfl rfl rfl

theorem run_step {e : Edit α} {a : Reply} (h : L.run e = .ok (a, L')) : L.Step e a L' := by
  cases e with
  | addVariable =>
    cases h
    exact .grown 1 (.inl rfl) rfl rfl
  | addVariables n =>
    cases h
    exact .grown n.toNat (.inr ⟨n, rfl⟩) (by simp [Reply.variables, fresh]) rfl
  | addConstraint f s =>
    obtain ⟨p, hp, h⟩ := except_map_eq_ok.1 h
    cases h
    exact addConstraint_step hp
  | delete i =>
    obtain ⟨p, hp, h⟩ := except_map_eq_ok.1 h
    cases h
    exact delete_step hp
  | setConstraintSet i s =>
    obtain ⟨p, hp, h⟩ := except_map_eq_ok.1 h
    cases h
    exact setConstraintSet_step hp
  | setConstraintFunction i f =>
    obtain ⟨p, hp, h⟩ := except_map_eq_ok.1 h
    cases h
    exact setConstraintFunction_step hp
  | modifyCoefficient i v x =>
    obtain ⟨p, hp, h⟩ := except_map_eq_ok.1 h
    cases h
    exact modifyCoefficient_step hp
  | setObjective f =>
    obtain ⟨p, hp, h⟩ := except_map_eq_ok.1 h
    cases h
    exact setObjective_step hp
  | modifyObjectiveCoefficient v x =>
    obtain ⟨p, hp, h⟩ := except_map_eq_ok.1 h
    cases h
    exact modifyObjectiveCoefficient_step hp
  | modifyObjectiveConstant x =>
    cases h
    exact .rows 0 rfl rfl rfl rfl rfl

/-! ### New identities -/

/-- A reply gives out the next identities, and the ledger counts them. -/
theorem Step.fresh {e : Edit α} {a : Reply} (h : L.Step e a L') :
    (∃ n, L'.lastVariable = L.lastVariable + n ∧
      a.variables = (fresh L.lastVariable n).map VariableIndex.mk) ∧
      ∃ n, L'.lastAffine = L.lastAffine + n ∧ a.affine = Ledger.fresh L.lastAffine n := by
  cases h with
  | grown n _ hv ha => exact ⟨⟨n, rfl, hv⟩, ⟨0, rfl, ha⟩⟩
  | record hL hr hv ha => exact ⟨⟨0, rfl, hv⟩, ⟨0, rfl, ha⟩⟩
  | erased v => exact ⟨⟨0, rfl, rfl⟩, ⟨0, rfl, rfl⟩⟩
  | rows n hvars hlast hn hv ha => exact ⟨⟨0, hlast, hv⟩, ⟨n, hn, ha⟩⟩

/-- A history gives out the identities one after the other. -/
theorem newIdentities_runAll : ∀ (es : List (Edit α)) (L : Ledger α),
    (∃ n, newVariables (runAll es L).1 = (fresh L.lastVariable n).map VariableIndex.mk) ∧
      ∃ n, newAffine (runAll es L).1 = fresh L.lastAffine n
  | [], L => ⟨⟨0, rfl⟩, ⟨0, rfl⟩⟩
  | e :: es, L => by
    rw [runAll]
    cases he : L.run e with
    | error f => exact newIdentities_runAll es L
    | ok p =>
      obtain ⟨a, L'⟩ := p
      obtain ⟨⟨n, hn, hv⟩, ⟨k, hk, ha⟩⟩ := (run_step he).fresh
      obtain ⟨⟨n', hv'⟩, ⟨k', ha'⟩⟩ := newIdentities_runAll es L'
      constructor
      · refine ⟨n + n', ?_⟩
        rw [← fresh_append, List.map_append, ← hv, ← hn, ← hv']
        rfl
      · refine ⟨k + k', ?_⟩
        rw [← fresh_append, ← ha, ← hk, ← ha']
        rfl

/-! ### Records -/

/-- Where a record comes from. -/
theorem Step.vars {e : Edit α} {a : Reply} (h : L.Step e a L') {v : VariableIndex}
    {r' : VariableRecord α} (hr' : L'.vars v = some r') :
    (r' = {} ∧ (e = .addVariable ∨ ∃ n, e = .addVariables n)) ∨ L.vars v = some r' ∨
      ∃ r, L.vars v = some r ∧ RecordChange e v r r' := by
  cases h with
  | grown n he _ _ =>
    simp only [addVariables] at hr'
    split_ifs at hr'
    · cases hr'
      exact .inl ⟨rfl, he⟩
    · exact .inr (.inl hr')
  | @record _ w r _ hL hr _ _ =>
    rw [setVariable] at hr'
    by_cases hv : v = w
    · subst hv
      simp only [Function.update_self, Option.some.injEq] at hr'
      subst hr'
      exact .inr (.inr ⟨r, hL, hr⟩)
    · simp only [Function.update_of_ne hv] at hr'
      exact .inr (.inl hr')
  | erased w =>
    rw [eraseVariable] at hr'
    by_cases hv : v = w
    · simp [hv] at hr'
    · simp only [Function.update_of_ne hv] at hr'
      exact .inr (.inl hr')
  | rows n hvars _ _ _ _ => exact .inr (.inl (hvars ▸ hr'))

/-- What holds of free records and outlasts every change holds of all records. -/
theorem vars_runAll {P : VariableRecord α → Prop} (hfree : P {}) :
    ∀ (es : List (Edit α)) {L : Ledger α}, (∀ v r, L.vars v = some r → P r) →
    (∀ e ∈ es, ∀ v r r', P r → RecordChange e v r r' → P r') →
    ∀ v r, (runAll es L).2.vars v = some r → P r
  | [], _, hL, _ => hL
  | e :: es, L, hL, hes => by
    have hrest := fun e' he' => hes e' (List.mem_cons_of_mem e he')
    rw [runAll]
    cases he : L.run e with
    | error f => exact vars_runAll hfree es hL hrest
    | ok p =>
      obtain ⟨a, L'⟩ := p
      refine vars_runAll hfree es (fun v r hr => ?_) hrest
      rcases (run_step he).vars hr with ⟨rfl, -⟩ | hsame | ⟨r₀, h₀, hchange⟩
      · exact hfree
      · exact hL v r hsame
      · exact hes e List.mem_cons_self v r₀ r (hL v r₀ h₀) hchange

end Ledger

/-! ### One edit -/

/-- An edit that agrees still agrees when its result is wrapped. -/
theorem Agrees.map {m : Model α} {β γ : Type} {x : Modelling α β}
    {y : Except (Fault α) (β × Ledger α)} (h : Agrees m (x m) y) (f : β → γ) :
    Agrees m ((do return f (← x)) m) (y.map fun e => (f e.1, e.2)) := by
  rw [bind_run]
  generalize x m = r at h ⊢
  cases h with
  | ok h => exact .ok h
  | error e => exact .error e

theorem Represents.emptied (m : Model α) : Represents m.emptied {} where
  wf := Model.WellFormed.emptied m
  lastVariable := rfl
  vars v := by
    have hget : m.emptied.vars.get? v.value = none := Registry.get?_empty v.value
    rw [hget]
    rfl
  lastAffine := rfl
  affine k := by
    have hget : m.emptied.affine.get? k = none := Registry.get?_empty k
    rw [Model.affineRecord?_eq_none hget]
  cost v := by
    have hget : m.emptied.vars.get? v.value = none := Registry.get?_empty v.value
    rw [Model.cost?, Model.column?, hget]
    rfl
  constant := rfl
  objectiveKind := rfl
  holds hr := by cases hr
  binaries := rfl
  integers := rfl

/-- One edit of a model and of its ledger. -/
theorem Represents.run [OrderedScalar α] {m : Model α} {L : Ledger α} (h : Represents m L)
    (e : Edit α) (he : ∀ x ∈ e.values, Scalar.isNaN x = false) :
    Agrees m (e.run m) (L.run e) := by
  have hdone : ∀ {x : Modelling α Unit} {y : Except (Fault α) (Ledger α)},
      Agrees m (x m) (y.map ((), ·)) → Agrees m ((do x; return Reply.done) m)
        (y.map (Reply.done, ·)) := by
    intro x y hxy
    have := hxy.map fun _ => Reply.done
    cases y <;> exact this
  cases e with
  | addVariable =>
    have hadd : Agrees m (Modelling.addVariable m)
        (.ok (⟨(L.lastVariable + 1 : Nat)⟩, L.addVariables 1)) := by
      rw [Modelling.addVariable_run h.wf, h.lastVariable]
      exact .ok (h.grown 1)
    exact hadd.map Reply.newVariable
  | addVariables n => exact (h.addVariables n).map Reply.newVariables
  | addConstraint f s => exact (h.addConstraint f he).map Reply.newConstraint
  | delete i => exact hdone (h.delete i)
  | setConstraintSet i s => exact hdone (h.setConstraintSet i he)
  | setConstraintFunction i f => exact hdone (h.setConstraintFunction i f)
  | modifyCoefficient i v x => exact hdone (h.modifyCoefficient i v x)
  | setObjective f => exact hdone (h.setObjective f)
  | modifyObjectiveCoefficient v x => exact hdone (h.modifyObjectiveCoefficient v x)
  | modifyObjectiveConstant x =>
    have hconstant : Represents { m with problem := { m.problem with constant := x } }
        { L with constant := x } :=
      { h with
        wf := h.wf.congr rfl rfl rfl rfl
        constant := rfl }
    exact .ok hconstant

/-! ### Histories -/

/-- The replies to a history are those of the ledger, and the model stands for the ledger
again. -/
theorem Represents.runAll [OrderedScalar α] : ∀ (es : List (Edit α)) {m : Model α}
    {L : Ledger α}, Represents m L →
    (∀ e ∈ es, ∀ x ∈ e.values, Scalar.isNaN x = false) →
    (Edit.runAll es m).1 = (Ledger.runAll es L).1 ∧
      Represents (Edit.runAll es m).2 (Ledger.runAll es L).2
  | [], _, _, h, _ => ⟨rfl, h⟩
  | e :: es, m, L, h, hes => by
    have hrest : ∀ e ∈ es, ∀ x ∈ e.values, Scalar.isNaN x = false :=
      fun e he => hes e (List.mem_cons_of_mem _ he)
    have hstep := h.run e (hes e List.mem_cons_self)
    rw [Edit.runAll, Ledger.runAll]
    cases hx : e.run m with
    | ok a m' =>
      rw [hx] at hstep
      cases hy : L.run e with
      | ok p =>
        rw [hy] at hstep
        cases hstep with
        | ok h' =>
          obtain ⟨hreplies, hend⟩ := Represents.runAll es h' hrest
          exact ⟨congrArg _ hreplies, hend⟩
      | error f =>
        rw [hy] at hstep
        cases hstep
    | error f m' =>
      rw [hx] at hstep
      cases hy : L.run e with
      | ok p =>
        rw [hy] at hstep
        cases hstep
      | error g =>
        rw [hy] at hstep
        cases hstep
        obtain ⟨hreplies, hend⟩ := Represents.runAll es h hrest
        exact ⟨congrArg _ hreplies, hend⟩

/-- A model and a ledger that answer every question alike. The sets of constraints on
single variables are not among the questions. -/
structure SameAnswers (m : Model α) (L : Ledger α) : Prop where
  isValid : ∀ i, m.isValid i = L.isValid i
  variableIndices : m.variableIndices = L.variableIndices
  variableCount : m.vars.size = L.variableIndices.length
  constraintIndices : ∀ f s, m.constraintIndices f s = L.constraintIndices f s
  constraintTypes : m.constraintTypes = L.constraintTypes
  constraintFunction : ∀ i, m.constraintFunction i = L.constraintFunction i
  constraintSet : ∀ c : ConstraintIndex, c.function = .scalarAffine →
    m.constraintSet (.constraint c) = L.constraintSet (.constraint c)
  objective : m.objective = L.objective

theorem Represents.sameAnswers {m : Model α} {L : Ledger α} (h : Represents m L) :
    SameAnswers m L where
  isValid := h.isValid
  variableIndices := h.variableIndices
  variableCount := h.size_vars
  constraintIndices := h.constraintIndices
  constraintTypes := h.constraintTypes
  constraintFunction := h.constraintFunction
  constraintSet := h.constraintSet_affine
  objective := h.objective

/-- A model cannot be told from its ledger: after every history of edits whose sets hold
numbers, failures included, the replies were the same, the answers are the same, and no
identity was given out twice. -/
theorem runAll_refines_ledger [OrderedScalar α] (m : Model α) (es : List (Edit α))
    (hes : ∀ e ∈ es, ∀ x ∈ e.values, Scalar.isNaN x = false) :
    (Edit.runAll es m.emptied).1 = (Ledger.runAll es {}).1 ∧
      SameAnswers (Edit.runAll es m.emptied).2 (Ledger.runAll es {}).2 ∧
      (newVariables (Edit.runAll es m.emptied).1).Nodup ∧
      (newAffine (Edit.runAll es m.emptied).1).Nodup := by
  obtain ⟨hreplies, hend⟩ := Represents.runAll es (.emptied m) hes
  obtain ⟨⟨n, hv⟩, ⟨k, ha⟩⟩ := Ledger.newIdentities_runAll es {}
  refine ⟨hreplies, hend.sameAnswers, ?_, ?_⟩
  · rw [hreplies, hv]
    refine (Ledger.nodup_fresh _ n).map fun i j h => ?_
    cases h
    rfl
  · rw [hreplies, ha]
    exact Ledger.nodup_fresh _ k

/-- Three variables, a row over two of them, a crossed pair of bounds and a binary; then
the first variable goes, and a set of it is written too late. -/
def renumberingHistory : List (Edit Float) :=
  [.addVariables 3,
    .addConstraint (.affine ⟨[⟨2, ⟨1⟩⟩, ⟨3, ⟨3⟩⟩], 0⟩) (.set (.lessThan 12)),
    .addConstraint (.var ⟨1⟩) (.set (.greaterThan 5)),
    .addConstraint (.single ⟨2⟩) (.set (.interval 4 1)),
    .addConstraint (.single ⟨3⟩) (.set .zeroOne),
    .setObjective (.affine ⟨[⟨1, ⟨2⟩⟩, ⟨7, ⟨3⟩⟩], 0.5⟩),
    .delete (.var ⟨1⟩),
    .setConstraintSet (.constraint ⟨.singleVariable, .greaterThan, 1⟩) (.set (.greaterThan 6)),
    .addVariable]

theorem runAll_refines_ledger_renumbering :
    (∀ e ∈ renumberingHistory, ∀ x ∈ e.values, Scalar.isNaN x = false) ∧
      SameAnswers (Edit.runAll renumberingHistory (Model.emptied {})).2
        (Ledger.runAll renumberingHistory {}).2 := by
  have hnumbers : ∀ e ∈ renumberingHistory, ∀ x ∈ e.values, Scalar.isNaN x = false := by
    decide +kernel
  exact ⟨hnumbers, (runAll_refines_ledger {} renumberingHistory hnumbers).2.1⟩

end MixedInteger
