import MixedInteger.Model.Optimize
import MixedInteger.Proofs.Continuous.Relaxation
import MixedInteger.Proofs.Continuous.Stored
import MixedInteger.Proofs.Search.Whole

/-! What a solve upholds and what it asks. A property of the model and one of the session last
through a solve when the algorithms, the bounds that are rounded, what is written down and what is
told keep them. A property of problems that is about their costs and rows only does, since nothing
but bounds of columns and stored solutions is written. If such problems have programs of some sort,
in all the forms in which a program is asked about, then a solve asks about programs of that sort
only, whatever the solver answers; and if the solver bears them, no fault of the solve is one that
the solver has only for others. -/

namespace MixedInteger

variable {α σ β γ : Type} [Scalar α] {W : σ → Prop} {V : Session α σ → Prop} {F : Fault α → Prop}
  {S : Problem α → Prop} {Q : LinearProgram α → Prop} {M : Model α → Prop}

/-! ### The algorithms -/

section
variable {host : Host α σ} {p : Problem α}

section
variable {params : Parameter.Simplex α} (h : host.Upholds Q V F params.messageLevel)
include h

theorem noOptimum_lasts (name : String) (unbounded : Bool) :
    Lasts V F (noOptimum (σ := σ) params name p unbounded) := by
  unfold noOptimum
  split_ifs
  · exact (h.say _).bind fun _ => Lasts.pure _
  · exact (h.say _).bind fun _ => Lasts.pure _
  · exact Lasts.pure _
  · exact (h.say _).bind fun _ => Lasts.pure _
  · exact (h.say _).bind fun _ => Lasts.pure _

theorem refuse_lasts (name : String) (why : Obstacle α) :
    Lasts V F (refuse (σ := σ) params name p why) :=
  (h.complain _).bind fun _ => Lasts.pure _

theorem limited_lasts (options : SolverOptions α) :
    Lasts V F (params.limited (σ := σ) options) := by
  unfold Parameter.Simplex.limited
  dsimp only
  split
  · exact (Task.number_lasts h.innocent _).bind fun _ => Lasts.pure _
  · exact Lasts.pure _

variable (hp : Q p.linearProgram) (hfree : Q p.linearProgram.costless)
include hp hfree

theorem solveBasic_lasts (options : SolverOptions α) (name : String) :
    Lasts V F (solveBasic host params options name p) := by
  unfold solveBasic
  refine (Task.now_lasts host).bind fun start => (h.say _).bind fun _ => ?_
  split_ifs
  · exact Lasts.pure _
  refine (limited_lasts h _).bind fun options => (h.ask hp).bind fun a => ?_
  split_ifs
  · exact (h.say _).bind fun _ => Lasts.pure _
  · exact (h.say _).bind fun _ => Lasts.pure _
  · exact (h.complain _).bind fun _ => Lasts.pure _
  · refine Lasts.bind ?_ fun _ => noOptimum_lasts h _ _
    exact (h.ask hfree).bind fun _ => Lasts.pure _
  · exact noOptimum_lasts h _ _
  · exact (Task.now_lasts host).bind fun _ => (h.say _).bind fun _ => Lasts.pure _

theorem simplex_lasts : Lasts V F (simplex host params p) := by
  unfold simplex
  split
  · exact refuse_lasts h _ _
  · exact solveBasic_lasts h hp hfree _ _

theorem exact_lasts : Lasts V F (exact host params p) := by
  rw [exact_eq]
  split_ifs
  · exact (h.complain _).bind fun _ => Lasts.pure _
  split
  · exact refuse_lasts h _ _
  · have hplain : host.Upholds Q V F { params with presolve := 0 }.messageLevel := h
    exact solveBasic_lasts hplain hp hfree _ _

end

theorem interior_lasts {params : Parameter.Interior} (h : host.Upholds Q V F params.messageLevel)
    (hp : Q p.linearProgram) : Lasts V F (interior host params p) := by
  unfold interior
  split_ifs
  · exact (h.complain _).bind fun _ => Lasts.pure _
  refine (h.say _).bind fun _ => (h.ask hp).bind fun a => ?_
  split_ifs
  · exact Lasts.pure _
  · exact (h.complain _).bind fun _ => Lasts.pure _
  · exact (h.complain _).bind fun _ => Lasts.pure _
  · exact (h.say _).bind fun _ => Lasts.pure _
  · exact (h.say _).bind fun _ => Lasts.pure _

/-! ### Rays and certificates -/

section
variable {level : Int} (h : host.Upholds Q V F level)
include h

theorem unboundedRay_lasts (hp : Q p.recessionProgram) (hnone : ∀ s, V s → V (s.told .noRay)) :
    Lasts V F (unboundedRay host p) := by
  unfold unboundedRay
  refine (h.ask hp).bind fun a => ?_
  split_ifs
  · exact (Task.tell_lasts hnone).bind fun _ => Lasts.pure _
  · exact Lasts.pure _

theorem infeasibilityRay_lasts (hp : Q p.violationProblem.linearProgram)
    (hnone : ∀ s, V s → V (s.told .noCertificate)) : Lasts V F (infeasibilityRay host p) := by
  unfold infeasibilityRay
  split_ifs
  · exact Lasts.pure _
  refine (h.ask hp).bind fun a => ?_
  split_ifs
  · exact (Task.tell_lasts hnone).bind fun _ => Lasts.pure _
  · exact Lasts.pure _

end

end

/-- Bound and gap are noted beside tree and world. -/
theorem Model.watch_lasts (m : Model α) {I : Tree α → Prop} {callback : Option (Callback α σ)}
    (h : ∀ call, callback = some call → ∀ d,
      Lasts (fun s => I s.tree ∧ V s.session) F (call d)) :
    Lasts (fun s => I s.tree ∧ V s.session.unwatched) F (m.watch callback) := by
  have hhear : ∀ call : Callback α σ, (∀ d, Lasts (fun s => I s.tree ∧ V s.session) F (call d)) →
      Lasts (fun s => I s.tree ∧ V s.session.unwatched) F (m.hear call) := by
    intro call hcall s hs
    have hrun := hcall { model := m.withWatched s.session.world } ⟨s.session.unwatched, s.tree⟩ hs
    unfold Ends Model.hear at *
    dsimp only
    cases hresult : call { model := m.withWatched s.session.world }
        ⟨s.session.unwatched, s.tree⟩ with
    | ok u r =>
      rw [hresult] at hrun
      exact hrun
    | error e r =>
      rw [hresult] at hrun
      exact hrun
  unfold Model.watch
  refine SearchTask.tree_lasts fun t => ?_
  obtain _ | n := t.best
  on_goal 2 => refine Lasts.bind (Lasts.modify fun _ hs => hs) fun _ => ?_
  all_goals
    cases callback with
    | none => exact Lasts.pure _
    | some call => exact hhear call (h call rfl)

/-! ### Solves -/

/-- The rounding of bounds does what setting one of them does. -/
theorem Modelling.roundAllBounds_lasts (hF : Innocent F)
    (hbound : ∀ j b, Lasts M F (setVariableBound j b)) :
    Lasts M F (Solving.roundAllBounds : Modelling α _) := by
  have hround : ∀ info : VariableInfo, Lasts M F (Solving.roundBounds info : Modelling α _) := by
    intro info m hm
    unfold Solving.roundBounds
    split_ifs
    · exact Lasts.pure _ m hm
    refine Ends.bind (P := fun m' s => m' = m ∧ s = m) ⟨rfl, rfl⟩ ?_
    rintro _ _ ⟨rfl, rfl⟩
    split
    · exact ⟨hF _ (fun _ h => nomatch h), hm⟩
    · dsimp only
      split_ifs
      · exact hm
      · exact (hbound _ _).map _ _ hm
  intro m hm
  unfold Solving.roundAllBounds
  refine Ends.bind (P := fun m' s => m' = m ∧ s = m) ⟨rfl, rfl⟩ ?_
  rintro _ _ ⟨rfl, rfl⟩
  exact (Lasts.mapM _ hround).map _ _ hm

namespace Solving

/-- The step keeps a property of the model and one of the session, and its faults have `F`. -/
def Upholds (M : Model α → Prop) (V : Session α σ → Prop) (F : Fault α → Prop)
    (x : Solving α σ β) : Prop := Lasts (fun w => M w.model ∧ V w.session) F x

theorem ofTask_ends {x : Task α σ β} {w : Workbench α σ} {P : β → Session α σ → Prop}
    {E : Fault α → Session α σ → Prop} (hx : Ends x w.session P E) :
    Ends (ofTask x) w (fun b w' => P b w'.session ∧ w'.model = w.model)
      fun e w' => E e w'.session ∧ w'.model = w.model := by
  unfold Ends ofTask at *
  cases h : x w.session with
  | ok b session =>
    rw [h] at hx
    exact ⟨hx, rfl⟩
  | error e session =>
    rw [h] at hx
    exact ⟨hx, rfl⟩

namespace Upholds

theorem pure (b : β) : Upholds M V F (Pure.pure b : Solving α σ β) := Lasts.pure b

theorem bind {x : Solving α σ β} {f : β → Solving α σ γ} (hx : Upholds M V F x)
    (hf : ∀ b, Upholds M V F (f b)) : Upholds M V F (x >>= f) := Lasts.bind hx hf

/-- The model is read. -/
theorem model {f : Model α → Solving α σ γ} (hf : ∀ m, M m → Upholds M V F (f m)) :
    Upholds M V F (Solving.model >>= f) := fun w h => hf w.model h.1 w h

theorem modifyModel {f : Model α → Model α} (hf : ∀ m, M m → M (f m)) :
    Upholds M V F (Solving.modifyModel f : Solving α σ Unit) :=
  Lasts.modify fun w h => ⟨hf w.model h.1, h.2⟩

theorem ofTask {x : Task α σ β} (hx : Lasts V F x) : Upholds M V F (Solving.ofTask x) := by
  intro w h
  refine (ofTask_ends (hx w.session h.2)).imp ?_ ?_
  · rintro b w' ⟨hw, hmodel⟩
    exact ⟨hmodel ▸ h.1, hw⟩
  · rintro e w' ⟨⟨he, hw⟩, hmodel⟩
    exact ⟨he, hmodel ▸ h.1, hw⟩

theorem ofModelling {f : Modelling α β} (hf : Lasts M F f) :
    Upholds M V F (Solving.ofModelling f : Solving α σ β) := by
  intro w h
  have hrun := hf w.model h.1
  unfold Ends Solving.ofModelling at *
  cases hresult : f w.model with
  | ok b m =>
    rw [hresult] at hrun
    exact ⟨hrun, h.2⟩
  | error e m =>
    rw [hresult] at hrun
    exact ⟨hrun.1, hrun.2, h.2⟩

/-- An algorithm whose answer is put into the model. -/
theorem engage {run : Problem α → Task α σ (Problem α × ReturnCode)}
    (hrun : ∀ m, M m → ∀ s, V s → Ends (run m.problem) s
      (fun r s' => M { m with problem := r.1 } ∧ V s') fun e s' => F e ∧ V s') :
    Upholds M V F (Solving.engage run) := by
  intro w h
  refine Ends.bind (P := fun m w' => m = w.model ∧ w' = w) ⟨rfl, rfl⟩ ?_
  rintro _ _ ⟨rfl, rfl⟩
  refine ((ofTask_ends (hrun _ h.1 _ h.2)).imp (fun _ _ => id) ?_).bind ?_
  · rintro e w' ⟨⟨he, hw⟩, hmodel⟩
    exact ⟨he, hmodel ▸ h.1, hw⟩
  · rintro ⟨p, code⟩ ⟨session, m⟩ ⟨⟨hp, hw⟩, hmodel⟩
    cases hmodel
    exact ⟨hp, hw⟩

theorem ofExcept (hF : Innocent F) {x : Except (Fault α) β}
    (hx : ∀ e, x = .error e → ∀ refusal, e ≠ .solver refusal) :
    Upholds M V F (Solving.ofExcept x : Solving α σ β) := by
  cases x with
  | ok b => exact pure b
  | error e => exact Lasts.throw (hF e (hx e rfl))

section
variable {x : Solving α σ β} (hx : Upholds M V F x) {v : Session α σ} {m : Model α}
  (hm : M m) (hv : V v)
include hx hm hv

theorem after_model : M (after x ⟨v, m⟩).model := (Lasts.after hx (s := ⟨v, m⟩) ⟨hm, hv⟩).1

theorem after_session : V (after x ⟨v, m⟩).session := (Lasts.after hx (s := ⟨v, m⟩) ⟨hm, hv⟩).2

theorem fault {e : Fault α} {w : Workbench α σ} (h : x ⟨v, m⟩ = .error e w) : F e :=
  Lasts.fault hx (s := ⟨v, m⟩) ⟨hm, hv⟩ h

end

end Upholds

/-- Reading statuses is no matter of the solver. -/
theorem statuses_innocent (m : Model α) {e : Fault α} (h : m.terminationStatus = .error e ∨
    m.primalStatus = .error e ∨ m.dualStatus = .error e) (refusal : SolverError) :
    e ≠ .solver refusal := by
  have herror : ∀ {τ : Type} {f : Verdict → Except (Fault α) τ}, (∀ v, ∃ t, f v = .ok t) →
      (m.solutionVerdict >>= f) = .error e → e ≠ .solver refusal := by
    intro τ f hf hbind
    cases hv : m.solutionVerdict with
    | ok v =>
      obtain ⟨t, ht⟩ := hf v
      rw [hv, bind_ok, ht] at hbind
      cases hbind
    | error e' =>
      rw [hv, bind_error] at hbind
      cases hbind
      unfold Model.solutionVerdict at hv
      split at hv <;> cases hv
      exact fun h => nomatch h
  rcases h with h | h | h
  · unfold Model.terminationStatus Model.verdict at h
    split_ifs at h
    · cases h
    · cases h
    · exact herror (f := fun v => .ok v.1) (fun v => ⟨_, rfl⟩) h
  · exact herror (fun v => ⟨_, rfl⟩) h
  · unfold Model.dualStatus at h
    by_cases hsearch : m.last.bySearch = true
    · rw [if_pos hsearch] at h
      cases h
    · rw [if_neg hsearch] at h
      exact herror (fun v => ⟨_, rfl⟩) h

/-- What holds of model and session from one step of a solve to the next: it is enough to know what
the writing of records and bounds does to the model, the algorithms to both, and the rays and the
reports of the solve to the session. -/
structure Sustains (host : Host α σ) (callback : Option (Callback α σ)) (M : Model α → Prop)
    (V : Session α σ → Prop) (F : Fault α → Prop) : Prop where
  innocent : Innocent F
  last : ∀ {m : Model α} (f : SolveRecord α → SolveRecord α), M m → M { m with last := f m.last }
  presolve : ∀ {m : Model α} k, M m →
    M { m with stores := { m.stores with search := { m.stores.search with presolve := k } } }
  bound : ∀ j b, Lasts M F (Modelling.setVariableBound j b)
  continuous : ∀ {m m' : Model α}, M m → M m' → ∀ run, run = simplex host m.stores.simplex ∨
      run = exact host m.stores.simplex ∨ run = interior host m.stores.interior →
    ∀ s, V s → Ends (run m'.problem) s (fun r s' => M { m' with problem := r.1 } ∧ V s')
      fun e s' => F e ∧ V s'
  search : ∀ {m m' : Model α}, M m → M m' → ∀ fuel s bound gap, V s →
    Ends (intopt ⟨host.watched, some (m.watch callback)⟩ m.stores.search fuel m.problem)
      (s.watched bound gap) (fun r s' => M { m' with problem := r.1 } ∧ V s'.unwatched)
      fun e s' => F e ∧ V s'.unwatched
  ray : ∀ {m}, M m → Lasts V F (unboundedRay host m.problem)
  certificate : ∀ {m}, M m → Lasts V F (infeasibilityRay host m.problem)
  told : ∀ n : Notice α, n.source = .optimizer → ∀ s, V s → V (s.told n)

namespace Sustains

variable {host : Host α σ} {callback : Option (Callback α σ)}
  (h : Sustains host callback M V F)
include h

theorem modifyLast (f : SolveRecord α → SolveRecord α) :
    Upholds M V F (Solving.modifyLast f : Solving α σ Unit) :=
  Upholds.modifyModel fun _ => h.last f

/-- Bound and gap are written down. -/
theorem watched {m : Model α} (hm : M m) (w : Watched α σ) : M (m.withWatched w) :=
  h.last (fun r => { r with objectiveBound := w.bound, relativeGap := w.gap }) hm

theorem tell {n : Notice α} (hn : n.source = .optimizer) :
    Upholds M V F (ofTask (Task.tell n) : Solving α σ Unit) :=
  .ofTask (Task.tell_lasts (h.told n hn))

theorem restore (bounds : List (Nat × BoundChange α)) (presolve : Int) :
    Upholds M V F (restore bounds presolve : Solving α σ Unit) :=
  (Upholds.ofModelling (Lasts.forM _ fun _ => h.bound _ _)).bind fun _ =>
    .modifyModel fun _ => h.presolve presolve

theorem solveContinuous : Upholds M V F (solveContinuous host) := by
  rw [Solving.solveContinuous_eq]
  refine (h.modifyLast _).bind fun _ => .model fun m hm => Upholds.bind ?_ fun code =>
    h.modifyLast _
  refine .engage fun m' hm' => ?_
  cases m.method with
  | simplex => exact h.continuous hm hm' _ (.inl rfl)
  | exact => exact h.continuous hm hm' _ (.inr (.inl rfl))
  | interior => exact h.continuous hm hm' _ (.inr (.inr rfl))

theorem certify : Upholds M V F (certify host) := by
  have hdual : Upholds M V F (do
      if (← ofExcept (← Solving.model (σ := σ)).dualStatus) = .certificate then
        let ray ← ofTask (infeasibilityRay host (← Solving.model).problem)
        Solving.modifyLast fun r => { r with certificate := some ray } : Solving α σ Unit) := by
    refine .model fun m _ => (Upholds.ofExcept h.innocent fun e he =>
      statuses_innocent m (.inr (.inr he))).bind fun dual => ?_
    split_ifs
    · exact .model fun m hm => (Upholds.ofTask (h.certificate hm)).bind fun _ => h.modifyLast _
    · exact .pure _
  unfold Solving.certify
  refine .model fun m _ => (Upholds.ofExcept h.innocent fun e he =>
    statuses_innocent m (.inr (.inl he))).bind fun primal => Lasts.detour (fun hrest => ?_) hdual
  exact Upholds.model fun m hm => (Upholds.ofTask (h.ray hm)).bind fun _ =>
    (h.modifyLast _).bind fun _ => hrest

theorem searches (fuel : Nat) : Upholds M V F (Solving.search host callback fuel) := by
  have hsimplex : ∀ m, M m → Upholds M V F (engage (simplex host m.stores.simplex)) :=
    fun m hm => .engage fun m' hm' => h.continuous hm hm' _ (.inl rfl)
  unfold Solving.search
  refine .model fun m _ => ?_
  split_ifs
  on_goal 1 => refine .model fun m hm => (hsimplex m hm).bind fun _ => .model fun m _ => ?_
  on_goal 1 => split_ifs
  on_goal 1 => refine Upholds.bind (.modifyModel fun _ => h.presolve 1) fun _ => ?_
  all_goals
    refine .model fun m hm => Upholds.bind (fun w hw => ?_) fun _ => h.modifyLast _
    have hends := h.search hm hw.1 fuel w.session m.last.objectiveBound m.last.relativeGap hw.2
    unfold Ends at hends ⊢
    dsimp only
    cases hrun : intopt ⟨host.watched, some (m.watch callback)⟩ m.stores.search fuel m.problem
        (w.session.watched m.last.objectiveBound m.last.relativeGap) with
    | ok r session =>
      rw [hrun] at hends
      exact ⟨h.watched hends.1 _, hends.2⟩
    | error e session =>
      rw [hrun] at hends
      exact ⟨hends.1, h.watched hw.1 _, hends.2⟩

theorem solveInteger (fuel : Nat) : Upholds M V F (solveInteger host callback fuel) := by
  have hsearch := h.searches fuel
  unfold Solving.solveInteger
  refine (Upholds.ofModelling (Modelling.roundAllBounds_lasts h.innocent h.bound)).bind
    fun bounds => .model fun m _ => ?_
  intro w hw
  refine Ends.bind (P := fun r w' => (M w'.model ∧ V w'.session) ∧ ∀ e, r = .error e → F e) ?_ ?_
  · have hrun := hsearch w hw
    unfold Ends at hrun ⊢
    dsimp only
    cases hresult : Solving.search host callback fuel w with
    | ok u w' =>
      rw [hresult] at hrun
      exact ⟨hrun, fun e he => nomatch he⟩
    | error e w' =>
      rw [hresult] at hrun
      refine ⟨hrun.2, ?_⟩
      rintro _ ⟨⟩
      exact hrun.1
  · rintro r w' ⟨hw', hr⟩
    refine Lasts.bind (h.restore _ _) (fun _ => ?_) w' hw'
    cases r with
    | ok _ => exact Lasts.pure _
    | error e => exact Lasts.throw (hr e rfl)

/-- A solve upholds what its steps do. -/
theorem optimize (fuel : Nat) : Upholds M V F (optimize host callback fuel) := by
  have hrest : ∀ start, Upholds M V F (do
      Solving.certify host
      let seconds := (← ofTask (Task.now host)) - start
      Solving.modifyLast fun r => { r with seconds := seconds }
      let status ← ofExcept (← Solving.model).terminationStatus
      ofTask (Task.tell (.finished status (← Solving.model).last.code seconds)) :
        Solving α σ Unit) := fun start =>
    h.certify.bind fun _ => (Upholds.ofTask (Task.now_lasts _)).bind fun _ =>
      (h.modifyLast _).bind fun _ => .model fun m _ =>
        (Upholds.ofExcept h.innocent fun e he => statuses_innocent m (.inl he)).bind fun _ =>
          .model fun _ _ => h.tell rfl
  unfold Solving.optimize
  refine (Upholds.ofTask (Task.now_lasts _)).bind fun start => (h.modifyLast _).bind fun _ =>
    .model fun m _ => ?_
  split_ifs
  · exact (h.tell rfl).bind fun _ => (h.solveInteger fuel).bind fun _ => hrest start
  · exact (h.tell rfl).bind fun _ => h.solveContinuous.bind fun _ => hrest start

end Sustains

end Solving

/-! ### Regimes -/

/-- Problems with a property of costs and rows, and the programs that are asked about them. -/
structure Problem.Regime (S : Problem α → Prop) (Q : LinearProgram α → Prop) : Prop where
  congr : ∀ {p q : Problem α}, S p → q.rows = p.rows →
    q.columns.map (·.cost) = p.columns.map (·.cost) → S q
  program : ∀ {p : Problem α}, S p → Q p.linearProgram
  costless : ∀ {p : Problem α}, S p → Q p.linearProgram.costless
  recession : ∀ {p : Problem α}, S p → Q p.recessionProgram
  violation : ∀ {p : Problem α}, S p → Q p.violationProblem.linearProgram

namespace Problem.Regime

variable (h : Problem.Regime S Q) {p q : Problem α}
include h

theorem unsolved (hp : S p) (hq : q.unsolved = p.unsolved) : S q :=
  have hrows : q.unsolved.rows = p.unsolved.rows := congrArg Problem.rows hq
  have hcolumns : q.unsolved.columns = p.unsolved.columns := congrArg Problem.columns hq
  h.congr hp hrows (congrArg (List.map (·.cost)) hcolumns)

theorem rebounds (hp : S p) (hq : p.Rebounds q) : S q := by
  obtain ⟨columns, -, hcosts, rfl⟩ := hq
  exact h.congr hp rfl hcosts

end Problem.Regime

omit [Scalar α] in
/-- Nothing of a watched world but the world is asked for. -/
theorem Host.Bears.watched {host : Host α σ} (h : host.Bears Q W F) :
    host.watched.Bears Q (fun v => W v.world) F := fun r v hr hv => h r v.world hr hv

namespace Problem.Regime

variable (h : Problem.Regime S Q) {host : Host α σ} (hhost : host.Bears Q W F) (hF : Innocent F)
include h hF

theorem setVariableBound (j : Nat) (b : BoundChange α) :
    Lasts (fun m : Model α => S m.problem) F (Modelling.setVariableBound j b) := by
  have hchange : ∀ f : Problem α → Except (ProblemError α) (Problem α),
      (∀ p q, f p = .ok q → p.Rebounds q) →
      Lasts (fun m : Model α => S m.problem) F (Modelling.change f) := by
    intro f hf m hm
    unfold Ends
    simp only [Modelling.change, bind_run, get_run]
    cases hq : f m.problem with
    | ok q => exact h.rebounds hm (hf _ _ hq)
    | error e => exact ⟨hF _ (fun _ h => nomatch h), hm⟩
  intro m hm
  unfold Modelling.setVariableBound
  refine Ends.bind (P := fun m' s => m' = m ∧ s = m) ⟨rfl, rfl⟩ ?_
  rintro _ _ ⟨rfl, rfl⟩
  split
  · exact ⟨hF _ (fun _ h => nomatch h), hm⟩
  · dsimp only
    split_ifs
    · exact hchange _ (fun _ _ => Problem.rebounds_of_leniently) _ hm
    · exact hchange _ (fun _ _ => Problem.rebounds_of_setColumnBounds) _ hm

include hhost

/-- A relaxation leaves a problem in the regime. -/
theorem simplex_ends {p : Problem α} (hp : S p) (params : Parameter.Simplex α) {s : Session α σ}
    (hs : W s.world) : Ends (simplex host params p) s (fun r s' => S r.1 ∧ W s'.world)
      fun e s' => F e ∧ W s'.world := by
  have hlasts := simplex_lasts (hhost.upholds hF params.messageLevel) (h.program hp)
    (h.costless hp) s hs
  refine (hlasts.and_runs (simplex_spares host p params s trivial)).imp ?_ fun _ _ he => he
  rintro r s' ⟨hw, hr, -⟩
  exact ⟨h.unsolved hp hr, hw⟩

theorem search_upholds {listener : Option (Listener α σ)}
    (hlistener : ∀ hear, listener = some hear →
      SearchTask.Upholds (fun t => S t.problem) W F hear) :
    Search.Upholds ⟨host, listener⟩ (Scene.Has (fun t => S t.problem) W) F where
  innocent := hF
  alike {s t} hs h' := ⟨h.congr hs.1 (by rw [h'.problem]) (by rw [h'.problem]), hs.2⟩
  activate hs ht := ⟨h.rebounds hs.1 (Tree.activate_eq ht).1, hs.2⟩
  relaxed {s} settings hs _ := (h.simplex_ends hhost hF hs.1 settings hs.2).imp
    (fun _ _ => id) fun _ _ he => ⟨he.1, hs.1, he.2⟩
  recorded hs _ := hs
  told _ hs _ := hs
  hear := hlistener

/-- What a solve writes leaves a problem in its regime. -/
theorem sustains {callback : Option (Callback α σ)} (hcall : ∀ call, callback = some call → ∀ d,
    SearchTask.Upholds (fun t => S t.problem) W F (call d)) :
    Solving.Sustains host callback (fun m => S m.problem) (fun s => W s.world) F where
  innocent := hF
  last _ hm := hm
  presolve _ hm := hm
  bound := h.setVariableBound hF
  continuous {m m'} _ hm' run hrun s hs := by
    have hends : ∀ {x : Task α σ (Problem α × ReturnCode)}, Lasts (fun s => W s.world) F x →
        x.Spares m'.problem → Ends x s (fun r s' => S r.1 ∧ W s'.world)
          fun e s' => F e ∧ W s'.world := by
      intro x hx hspares
      refine ((hx s hs).and_runs (hspares s trivial)).imp ?_ fun _ _ he => he
      rintro r s' ⟨hw, hr, -⟩
      exact ⟨h.unsolved hm' hr, hw⟩
    have hupholds := hhost.upholds hF
    have hprogram := h.program hm'
    have hcostless := h.costless hm'
    rcases hrun with rfl | rfl | rfl
    · exact hends (simplex_lasts (hupholds _) hprogram hcostless) (simplex_spares _ _ _)
    · exact hends (exact_lasts (hupholds _) hprogram hcostless) (exact_spares _ _ _)
    · exact hends (interior_lasts (hupholds _) hprogram) (interior_spares _ _ _)
  search {m m'} hm _ fuel s bound gap hs := by
    have hwatch : ∀ hear, some (m.watch callback) = some hear →
        SearchTask.Upholds (fun t => S t.problem) (fun v => W v.world) F hear := by
      rintro _ ⟨⟩
      exact m.watch_lasts (V := fun s => W s.world) (I := fun t => S t.problem) hcall
    have hends := (h.search_upholds hhost.watched hF hwatch).intopt
      (V := fun s => W s.world.world) m.stores.search m.problem
      (fun _ _ hv => ⟨h.congr hm rfl rfl, hv⟩) (fun _ hv => hv.2) fuel (s.watched bound gap) hs
    refine (hends.and_runs (intopt_spares m.problem _ _ _ _ trivial)).imp ?_ fun _ _ he => he
    rintro r s' ⟨hw, hr, -⟩
    exact ⟨h.unsolved hm hr, hw⟩
  ray hm := unboundedRay_lasts (hhost.upholds hF 0) (h.recession hm) fun _ hs => hs
  certificate hm := infeasibilityRay_lasts (hhost.upholds hF 0) (h.violation hm) fun _ hs => hs
  told _ _ _ hs := hs

end Problem.Regime

end MixedInteger
