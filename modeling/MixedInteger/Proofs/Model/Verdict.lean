import MixedInteger.Proofs.Model.Call
import MixedInteger.Proofs.Model.Restoration
import MixedInteger.Proofs.Model.RowEffect
import MixedInteger.Proofs.Solver.SingleColumn

/-! What a solve that returns says of itself. The termination status is read from the return code,
or from the stored solution when the code is zero; the statuses of values and duals are read from
the stored solution alone. Codes and solutions fit, so the three never contradict each other. A
certificate is held exactly when a status promises one. -/

namespace MixedInteger

variable {α σ β γ : Type} [Scalar α]

/-! ### Statuses of a model -/

namespace Model

/-- The statuses and the certificates of a solve, with or without a search, taken together. -/
structure Consistent (searched : Bool) (m : Model α) : Prop where
  bySearch : m.last.bySearch = searched
  told : ∃ t p d, m.terminationStatus = .ok t ∧ m.primalStatus = .ok p ∧ m.dualStatus = .ok d
  optimal : m.terminationStatus = .ok .optimal → m.primalStatus = .ok .feasiblePoint
  infeasible : m.terminationStatus = .ok .infeasible → m.primalStatus = .ok .noSolution
  dual : m.dualStatus = .ok .feasiblePoint →
    searched = false ∧ m.primalStatus = .ok .feasiblePoint
  ray : m.last.ray.isSome = true ↔ m.primalStatus = .ok .certificate
  ray_length : ∀ r, m.last.ray = some r → r.length = m.problem.columnCount
  certificate : m.last.certificate.isSome = true ↔ m.dualStatus = .ok .certificate
  certificate_length : ∀ y, m.last.certificate = some y → y.length = m.problem.rowCount
  apart : m.last.ray = none ∨ m.last.certificate = none

/-- The time that a solve took has no part in what it says. -/
theorem Consistent.timed {searched : Bool} {m : Model α} (h : m.Consistent searched)
    (seconds : α) :
    ({ m with last := { m.last with seconds := seconds } } : Model α).Consistent searched :=
  ⟨h.bySearch, h.told, h.optimal, h.infeasible, h.dual, h.ray, h.ray_length, h.certificate,
    h.certificate_length, h.apart⟩

/-- The model with these certificates. -/
def certified (m : Model α) (ray certificate : Option (List α)) : Model α :=
  { m with last := { m.last with ray := ray, certificate := certificate } }

section
variable {m : Model α} {t : TerminationStatus}

/-- The statuses of values and duals, from a stored solution whose status is known. -/
theorem exists_statuses (h : m.solution.status.verdict?.isSome = true) :
    ∃ p d, m.primalStatus = .ok p ∧ m.dualStatus = .ok d ∧
      (m.solution.status = .optimal ∨ m.solution.status = .feasible → p = .feasiblePoint) ∧
      (m.solution.status = .undefined ∨ m.solution.status = .noFeasible → p = .noSolution) ∧
      (d = .feasiblePoint → m.last.bySearch = false ∧ p = .feasiblePoint) ∧
      ¬(p = .certificate ∧ d = .certificate) := by
  unfold primalStatus dualStatus solutionVerdict
  cases hs : m.solution.status <;> rw [hs] at h <;> cases h <;>
    cases m.last.bySearch <;> cases m.mayHaveRays <;>
      exact ⟨_, _, rfl, rfl, by decide, by decide, by decide, by decide⟩

/-- The termination status of a solve whose code is zero is the one of its solution. -/
theorem terminationStatus_cases (h : m.terminationStatus = .ok t) : t = .notCalled ∨
    (m.algorithm.verdict m.last.code).1 = t ∨
      ∃ v, m.solution.status.verdict? = some v ∧ v.1 = t := by
  unfold terminationStatus verdict at h
  split_ifs at h
  · cases h
    exact .inl rfl
  · cases h
    exact .inr (.inl rfl)
  · unfold solutionVerdict at h
    cases hv : m.solution.status.verdict? with
    | none =>
      rw [hv] at h
      cases h
    | some v =>
      rw [hv] at h
      cases h
      exact .inr (.inr ⟨v, rfl, rfl⟩)

variable (h : m.last.code.Agrees m.solution.status)
include h

theorem status_of_optimal (ht : m.terminationStatus = .ok .optimal) :
    m.solution.status = .optimal ∨ m.solution.status = .feasible := by
  obtain hnone | hcode | ⟨v, hv, hoptimal⟩ := terminationStatus_cases ht
  · cases hnone
  · exact .inr (h.gap (Algorithm.eq_gapReached_of_verdict hcode))
  · exact .inl (SolutionStatus.eq_optimal_of_verdict hv hoptimal)

theorem status_of_infeasible (ht : m.terminationStatus = .ok .infeasible) :
    m.solution.status = .undefined ∨ m.solution.status = .noFeasible := by
  obtain hnone | hcode | ⟨v, hv, hinfeasible⟩ := terminationStatus_cases ht
  · cases hnone
  · exact h.noPrimal (Algorithm.eq_noPrimal_of_verdict hcode)
  · exact .inr (SolutionStatus.eq_noFeasible_of_verdict hv hinfeasible)

end

end Model

/-! ### Certificates -/

/-- The point of an optimum has a value for every column. -/
def Host.FillsPoints (host : Host α σ) : Prop :=
  ∀ r w a, (host.solve r w).1 = .ok a → a.status = 0 → a.point.length = r.program.cost.length

theorem LinearProgram.length_rowMarginals (lp : LinearProgram α) (a : Answer α) (n : Nat) :
    (lp.rowMarginals a n).length = n := by
  have hfold : ∀ (es : List ((Nat × α) × α)) (duals : List α),
      (es.foldl (fun duals e => duals.modify e.1.1 fun d => d + e.1.2 * e.2) duals).length =
        duals.length := by
    intro es
    induction es with
    | nil => exact fun _ => rfl
    | cons e es ih => exact fun duals => (ih _).trans (List.length_modify ..)
  unfold rowMarginals
  rw [hfold, hfold, List.length_replicate]

theorem unboundedRay_keeps {host : Host α σ} (hhost : host.FillsPoints) (p : Problem α) :
    Task.Keeps (fun _ => True) (unboundedRay host p) fun r => r.length = p.columnCount := by
  unfold unboundedRay
  refine (Task.Keeps.ask host.keeps_true fun w a ha => hhost _ w a ha).bind fun a ha => ?_
  split_ifs with hnone
  · exact (Task.Keeps.any _).bind fun _ _ => .pure List.length_replicate
  · exact .pure ((ha (not_not.1 (not_or.1 hnone).1)).trans (List.length_map _))

theorem infeasibilityRay_keeps (host : Host α σ) (p : Problem α) :
    Task.Keeps (fun _ => True) (infeasibilityRay host p) fun y => y.length = p.rowCount := by
  unfold infeasibilityRay
  dsimp only
  split_ifs
  · exact .pure List.length_replicate
  refine (Task.Keeps.any _).bind fun a _ => ?_
  split_ifs
  · exact (Task.Keeps.any _).bind fun _ _ => .pure List.length_replicate
  · exact .pure (LinearProgram.length_rowMarginals _ a _)

/-! ### Steps of a solve -/

namespace Solving

/-! ### The certificates of a solve -/

/-- No certificate is held. -/
structure Bare (m : Model α) : Prop where
  ray : m.last.ray = none
  certificate : m.last.certificate = none

theorem Bare.certified {m : Model α} (h : Bare m) : m.certified none none = m := by
  calc m.certified none none = m.certified m.last.ray m.last.certificate := by
        rw [h.ray, h.certificate]
    _ = m := rfl

/-- The solve is over, and its certificates have not been fetched. -/
structure Concluded (searched : Bool) (m : Model α) : Prop extends Bare m where
  bySearch : m.last.bySearch = searched
  agrees : m.last.code.Agrees m.solution.status

/-- A certificate is there when it is promised, and is as it should be. -/
structure Fetched (promised : Prop) (P : List α → Prop) (xs : Option (List α)) : Prop where
  isSome : xs.isSome = true ↔ promised
  holds : ∀ x, xs = some x → P x

namespace Fetched

variable {promised : Prop} {P : List α → Prop}

omit [Scalar α] in
theorem some {x : List α} (h : promised) (hx : P x) : Fetched promised P (some x) where
  isSome := iff_of_true rfl h
  holds := by
    rintro _ ⟨⟩
    exact hx

omit [Scalar α] in
theorem none (h : ¬promised) : Fetched promised P (none : Option (List α)) where
  isSome := iff_of_false Bool.false_ne_true h
  holds _ hx := nomatch hx

end Fetched

/-- The certificates that the statuses promise are fetched, and no others. -/
theorem certify_fetches {host : Host α σ} {w : Workbench α σ} (hbare : Bare w.model)
    (hknown : w.model.solution.status.verdict?.isSome = true) {R C : List α → Prop} {e : Prop}
    (hray : w.model.primalStatus = .ok .certificate → ∀ s,
      Runs (unboundedRay host w.model.problem) s (fun r _ => R r) fun _ => e)
    (hcertificate : w.model.dualStatus = .ok .certificate → ∀ s,
      Runs (infeasibilityRay host w.model.problem) s (fun y _ => C y) fun _ => e) :
    Runs (certify host) w (fun _ w' => ∃ ray certificate,
      Fetched (w.model.primalStatus = .ok .certificate) R ray ∧
        Fetched (w.model.dualStatus = .ok .certificate) C certificate ∧
        w'.model = w.model.certified ray certificate) fun _ => e := by
  obtain ⟨p, d, hp, hd, -⟩ := Model.exists_statuses hknown
  have hpromised : ∀ {s : Except (Fault α) ResultStatus} {a : ResultStatus}, s = .ok a →
      (a = .certificate ↔ s = .ok .certificate) := by
    rintro _ a rfl
    exact ⟨congrArg _, Except.ok.inj⟩
  have hdual : ∀ (ray : Option (List α)) (w' : Workbench α σ),
      Fetched (w.model.primalStatus = .ok .certificate) R ray →
      w'.model = w.model.certified ray none →
      Runs (do
        if (← ofExcept (← Solving.model (σ := σ)).dualStatus) = .certificate then
          let ray ← Solving.ofTask (infeasibilityRay host (← Solving.model).problem)
          Solving.modifyLast fun r => { r with certificate := some ray } : Solving α σ Unit) w'
        (fun _ w' => ∃ ray certificate,
          Fetched (w.model.primalStatus = .ok .certificate) R ray ∧
            Fetched (w.model.dualStatus = .ok .certificate) C certificate ∧
            w'.model = w.model.certified ray certificate) fun _ => e := by
    intro ray w' hfetched hw'
    refine model_bind (ofExcept_bind (b := d) (by rw [hw']; exact hd) ?_)
    split_ifs with hpromise
    · have hpromise := (hpromised hd).1 hpromise
      refine model_bind (task_bind (by rw [hw']; exact hcertificate hpromise) (fun he _ _ => he)
        fun y w'' hy hw'' => ?_)
      refine Runs.update ⟨ray, some y, hfetched, .some hpromise hy, ?_⟩
      rw [hw'', hw']
      rfl
    · exact .pure ⟨ray, none, hfetched, .none fun hc => hpromise ((hpromised hd).2 hc), hw'⟩
  unfold certify
  refine model_bind (ofExcept_bind hp ?_)
  split_ifs with hpromise
  · have hpromise := (hpromised hp).1 hpromise
    refine model_bind (task_bind (hray hpromise) (fun he _ _ => he) fun r w' hr hw' => ?_)
    refine modifyLast_bind (hdual (some r) _ (.some hpromise hr) ?_)
    rw [hw']
    exact congrArg (w.model.certified (some r)) hbare.certificate
  · exact hdual none w (.none fun hc => hpromise ((hpromised hp).2 hc)) hbare.certified.symm

variable {searched : Bool}

theorem Concluded.consistent {m : Model α} (h : Concluded searched m)
    {ray certificate : Option (List α)}
    (hray : Fetched (m.primalStatus = .ok .certificate)
      (fun r => r.length = m.problem.columnCount) ray)
    (hcertificate : Fetched (m.dualStatus = .ok .certificate)
      (fun y => y.length = m.problem.rowCount) certificate) :
    (m.certified ray certificate).Consistent searched := by
  obtain ⟨p, d, hp, hd, hpoint, hnone, hdual, hapart⟩ := Model.exists_statuses h.agrees.known
  obtain ⟨t, ht⟩ : ∃ t, m.terminationStatus = .ok t := by
    obtain ⟨v, hv⟩ := Option.isSome_iff_exists.1 h.agrees.known
    unfold Model.terminationStatus Model.verdict Model.solutionVerdict
    rw [hv]
    split_ifs <;> exact ⟨_, rfl⟩
  have hinj : ∀ {a b : ResultStatus}, (Except.ok a : Except (Fault α) ResultStatus) = .ok b →
      a = b := Except.ok.inj
  refine
    { bySearch := h.bySearch
      told := ⟨t, p, d, ht, hp, hd⟩
      optimal := fun hoptimal => hp.trans (congrArg _ (hpoint (Model.status_of_optimal h.agrees
        hoptimal)))
      infeasible := fun hinfeasible => hp.trans (congrArg _ (hnone (Model.status_of_infeasible
        h.agrees hinfeasible)))
      dual := fun hfeasible => ?_
      ray := hray.isSome
      ray_length := hray.holds
      certificate := hcertificate.isSome
      certificate_length := hcertificate.holds
      apart := ?_ }
  · obtain ⟨hsearch, hp'⟩ := hdual (hinj (hd.symm.trans hfeasible))
    exact ⟨h.bySearch.symm.trans hsearch, hp.trans (congrArg _ hp')⟩
  · by_contra hboth
    dsimp only [Model.certified] at hboth
    rw [not_or, ← ne_eq, ← ne_eq, Option.ne_none_iff_isSome, Option.ne_none_iff_isSome,
      hray.isSome, hcertificate.isSome, hp, hd] at hboth
    exact hapart ⟨hinj hboth.1, hinj hboth.2⟩

theorem certify_runs {host : Host α σ} (hhost : host.FillsPoints) {w : Workbench α σ}
    (h : Concluded searched w.model) :
    Runs (certify host) w (fun _ w' => w'.model.Consistent searched) fun _ => True := by
  refine (certify_fetches h.toBare h.agrees.known (fun _ => (unboundedRay_keeps hhost _).runs)
    fun _ => (infeasibilityRay_keeps host _).runs).imp ?_
  rintro _ w' ⟨ray, certificate, hray, hcertificate, hw'⟩
  rw [hw']
  exact h.consistent hray hcertificate

/-! ### Bounds that are rounded and put back -/

section
variable {m : Model α}

theorem setVariableBound_columns (j : Nat) (b : BoundChange α) :
    Runs (Modelling.setVariableBound j b) m (fun _ m' => ∃ cs, m' = m.withColumns cs)
      fun _ => True := by
  have hset : ∀ {p q : Problem α} {kind : BoundKind} {l u : α},
      p.setColumnBounds j kind l u = .ok q → ∃ cs, q = { p with columns := cs } := by
    intro p q kind l u h
    obtain ⟨c, -, h⟩ := except_bind_eq_ok.1 h
    dsimp only at h
    split_ifs at h
    cases h
    exact ⟨_, rfl⟩
  have hchange : ∀ {f : Problem α → Except (ProblemError α) (Problem α)},
      (∀ q, f m.problem = .ok q → ∃ cs, q = { m.problem with columns := cs }) →
      Runs (Modelling.change f) m (fun _ m' => ∃ cs, m' = m.withColumns cs) fun _ => True := by
    intro f hf
    unfold Runs
    cases hq : f m.problem with
    | error e => rw [Modelling.change_error hq]; trivial
    | ok q =>
      obtain ⟨cs, rfl⟩ := hf q hq
      rw [Modelling.change_ok hq]
      exact ⟨cs, rfl⟩
  unfold Modelling.setVariableBound
  refine Runs.bind (P := fun m' s => m' = m ∧ s = m) (.of_ok rfl ⟨rfl, rfl⟩) ?_
  rintro _ _ ⟨rfl, rfl⟩
  split
  · exact .throw _ trivial
  · dsimp only
    split_ifs
    · refine hchange fun q hq => ?_
      obtain ⟨q', hq', h⟩ := except_bind_eq_ok.1 hq
      obtain ⟨cs, rfl⟩ := hset hq'
      cases h
      exact ⟨cs, rfl⟩
    · exact hchange fun q hq => hset hq

/-- What columns have no part in is kept when bounds are rounded. -/
theorem roundAllBounds_keeps {I : Model α → Prop} (hI : ∀ m cs, I m → I (m.withColumns cs))
    (h : I m) : Runs roundAllBounds m (fun _ m' => I m') fun _ => True := by
  refine roundAllBounds_keeps_of (fun j b m hm => ?_) (fun _ _ => trivial) h
  refine (setVariableBound_columns j b).imp ?_
  rintro _ _ ⟨cs, rfl⟩
  exact hI m cs hm

end

theorem ofModelling_runs {f : Modelling α β} {w : Workbench α σ} {I : Model α → Prop}
    (h : Runs f w.model (fun _ m' => I m') fun _ => True) :
    Runs (ofModelling f) w (fun _ w' => I w'.model) fun _ => True := by
  unfold Runs ofModelling at *
  cases hf : f w.model with
  | ok b m' =>
    rw [hf] at h
    exact h
  | error e m' => trivial

/-! ### The parts of a solve -/

section
variable {w : Workbench α σ}

theorem engage_runs {run : Problem α → Task α σ (Problem α × ReturnCode)}
    {place : Problem α → Solution α} (hrun : ∀ p, (run p).Fits place) :
    Runs (engage run) w (fun code w' => ∃ p, code.Agrees (place p).status ∧
      w'.model = { w.model with problem := p }) fun _ => True := by
  unfold engage
  refine model_bind (ofTask_bind (fun _ _ => trivial) (hrun _) fun r w' hfits hw' => ?_)
  exact modifyModel_bind (.pure ⟨r.1, hfits, by rw [hw']⟩)

/-- A code and a solution that fit make the end of a solve. -/
theorem conclude_runs (place : Problem α → Solution α) {x : Solving α σ ReturnCode}
    {f : SolveRecord α → ReturnCode → SolveRecord α}
    (hx : Runs x w (fun code w' => Bare w'.model ∧ code.Agrees (place w'.model.problem).status ∧
      Model.solution { w'.model with last := f w'.model.last code } = place w'.model.problem ∧
      (f w'.model.last code).bySearch = searched) fun _ => True)
    (hf : ∀ r code, (f r code).code = code ∧ (f r code).ray = r.ray ∧
      (f r code).certificate = r.certificate) :
    Runs (do let code ← x; modifyLast fun r => f r code) w
      (fun _ w' => Concluded searched w'.model) fun _ => True := by
  refine hx.bind fun code w' ⟨hbare, hfits, hplace, hsearch⟩ => Runs.update ?_
  obtain ⟨hcode, hray, hcertificate⟩ := hf w'.model.last code
  refine ⟨⟨hray.trans hbare.ray, hcertificate.trans hbare.certificate⟩, hsearch, ?_⟩
  dsimp only
  rw [hplace, hcode]
  exact hfits

theorem solveContinuous_concludes (host : Host α σ) (h : Bare w.model) :
    Runs (solveContinuous host) w (fun _ w' => Concluded false w'.model) fun _ => True := by
  rw [solveContinuous_eq]
  refine modifyLast_bind (model_bind ?_)
  have hengage : ∀ {run : Problem α → Task α σ (Problem α × ReturnCode)}
      {place : Problem α → Solution α}, (∀ p, (run p).Fits place) →
      (∀ (p : Problem α) (r : SolveRecord α), r.bySearch = false →
        Model.solution { w.model with problem := p, last := r } = place p) →
      Runs (do let code ← engage run; modifyLast fun r => { r with code := code })
        { w with model := { w.model with last := { w.model.last with bySearch := false } } }
        (fun _ w' => Concluded false w'.model) fun _ => True := by
    intro run place hrun hplace
    refine conclude_runs place (f := fun r code => { r with code := code })
      ((engage_runs hrun).imp ?_) fun r code => ⟨rfl, rfl, rfl⟩
    rintro code w' ⟨p, hfits, hw'⟩
    rw [hw']
    exact ⟨⟨h.ray, h.certificate⟩, hfits, hplace p _ rfl, rfl⟩
  cases hmethod : w.model.method with
  | simplex =>
    refine hengage (fun p => simplex_fits host p _) fun p r hr => ?_
    simp only [Model.solution, Model.algorithm, hr, hmethod, Bool.false_eq_true, if_false]
  | exact =>
    refine hengage (fun p => exact_fits host p _) fun p r hr => ?_
    simp only [Model.solution, Model.algorithm, hr, hmethod, Bool.false_eq_true, if_false]
  | interior =>
    refine hengage (fun p => interior_fits host p _) fun p r hr => ?_
    simp only [Model.solution, Model.algorithm, hr, hmethod, Bool.false_eq_true, if_false]

theorem search_concludes (host : Host α σ) (callback : Option (Callback α σ)) (fuel : Nat)
    (h : Bare w.model) :
    Runs (search host callback fuel) w (fun _ w' => Concluded true w'.model) fun _ => True := by
  have hfinds : Finds w.model host callback fuel fun code s _ => code.Agrees s.status := by
    intro b k session
    refine ((intopt_fits _ _ fuel _ _ trivial).imp ?_).weaken fun _ _ => trivial
    exact fun _ _ hfits => hfits.1
  refine ((search_runs hfinds).imp ?_).weaken fun _ _ => trivial
  rintro _ w' ⟨b, k, code, s, v, hagrees, hw'⟩
  rw [hw']
  exact ⟨⟨h.ray, h.certificate⟩, rfl, hagrees⟩

/-- What a search comes to outlasts its bounds being put back. -/
theorem solveInteger_keeps_of {I : Model α → Prop} {host : Host α σ}
    {callback : Option (Callback α σ)} {fuel : Nat}
    (hcolumns : ∀ m cs, I m → I (m.withColumns cs))
    (hpresolve : ∀ m k, I m → I (m.withPresolve k))
    (hsearch : ∀ cs session, Runs (search host callback fuel) ⟨session, w.model.withColumns cs⟩
      (fun _ w' => I w'.model) fun _ => True) :
    Runs (solveInteger host callback fuel) w (fun _ w' => I w'.model) fun _ => True := by
  unfold solveInteger
  refine (ofModelling_runs (roundAllBounds_keeps (I := fun m => ∃ cs, m = w.model.withColumns cs)
    ?_ ⟨_, rfl⟩)).bind ?_
  · rintro _ cs ⟨_, rfl⟩
    exact ⟨cs, rfl⟩
  rintro bounds ⟨session, _⟩ ⟨cs, rfl⟩
  refine model_bind ?_
  refine Runs.bind (P := fun outcome w₂ => outcome = .ok () → I w₂.model) ?_ ?_
  · have hsearch := hsearch cs session
    unfold Runs at hsearch ⊢
    dsimp only
    cases hrun : search host callback fuel ⟨session, w.model.withColumns cs⟩ with
    | ok b w₂ =>
      rw [hrun] at hsearch
      exact fun _ => hsearch
    | error e w₂ => exact fun h => nomatch h
  · intro outcome w₂ h₂
    cases outcome with
    | error e => exact .onward fun _ _ => trivial
    | ok _ =>
      have hback : ∀ (b : Nat × BoundChange α) (m : Model α), I m →
          Runs (Modelling.setVariableBound b.1 b.2) m (fun _ m' => I m') fun _ => True := by
        intro b m hm
        refine (setVariableBound_columns _ _).imp ?_
        rintro _ _ ⟨cs, rfl⟩
        exact hcolumns m cs hm
      have hforM := Runs.forM bounds hback (h₂ rfl)
      refine Runs.bind ((ofModelling_runs hforM).bind fun _ w₃ h₃ => ?_) fun _ w₄ h₄ => .pure h₄
      exact Runs.update (hpresolve _ _ h₃)

theorem solveInteger_concludes (host : Host α σ) (callback : Option (Callback α σ)) (fuel : Nat)
    (h : Bare w.model) :
    Runs (solveInteger host callback fuel) w (fun _ w' => Concluded true w'.model)
      fun _ => True :=
  solveInteger_keeps_of (fun _ _ h => ⟨⟨h.ray, h.certificate⟩, h.bySearch, h.agrees⟩)
    (fun _ _ h => ⟨⟨h.ray, h.certificate⟩, h.bySearch, h.agrees⟩)
    fun _ _ => search_concludes host callback fuel ⟨h.ray, h.certificate⟩

end

/-! ### The whole solve -/

theorem optimize_consists {host : Host α σ} (hhost : host.FillsPoints)
    (callback : Option (Callback α σ)) (fuel : Nat) (w : Workbench α σ) :
    Runs (optimize host callback fuel) w (fun _ w' => w'.model.Consistent
      (decide (0 < w.model.binaries ∨ 0 < w.model.integers))) fun _ => True := by
  have hrest : ∀ (start : α) (searched : Bool) (w : Workbench α σ),
      Concluded searched w.model → Runs (do
      certify host
      let seconds := (← ofTask (Task.now host)) - start
      modifyLast fun r => { r with seconds := seconds }
      let status ← ofExcept (← Solving.model).terminationStatus
      ofTask (Task.tell (.finished status (← Solving.model).last.code seconds)) :
        Solving α σ Unit) w (fun _ w' => w'.model.Consistent searched) fun _ => True := by
    intro start searched w h
    refine (certify_runs hhost h).bind fun _ w hw => ?_
    refine ofTask_bind (fun _ _ => trivial) (Task.Keeps.any _) fun now w' _ hw' => ?_
    refine modifyLast_bind (model_bind ?_)
    have hw : w'.model.Consistent searched := by rwa [hw']
    have hseconds := hw.timed (now - start)
    obtain ⟨t, -, -, ht, -⟩ := hseconds.told
    refine ofExcept_bind ht (model_bind ?_)
    unfold Runs ofTask
    cases Task.tell (.finished t w'.model.last.code (now - start)) w'.session with
    | ok b session => exact hseconds
    | error e session => trivial
  unfold optimize
  refine ofTask_bind (fun _ _ => trivial) (Task.Keeps.any _) fun start w₁ _ hw₁ => ?_
  refine modifyLast_bind (model_bind ?_)
  rw [← hw₁]
  split_ifs with hmixed
  · have hsearch := decide_eq_true hmixed
    rw [hsearch]
    refine ofTask_bind (fun _ _ => trivial) (Task.Keeps.any _) fun _ w₂ _ hw₂ => ?_
    exact (solveInteger_concludes host callback fuel (hw₂ ▸ ⟨rfl, rfl⟩)).bind
      fun _ w₃ h₃ => hrest start _ w₃ h₃
  · have hcontinuous := decide_eq_false hmixed
    rw [hcontinuous]
    refine ofTask_bind (fun _ _ => trivial) (Task.Keeps.any _) fun _ w₂ _ hw₂ => ?_
    exact (solveContinuous_concludes host (hw₂ ▸ ⟨rfl, rfl⟩)).bind
      fun _ w₃ h₃ => hrest start _ w₃ h₃

end Solving

/-- Whatever the model and its settings, whatever the solver answers and whatever a callback does:
a solve that returns says of itself nothing that contradicts anything else it says, and holds
exactly the certificates that it promises. -/
theorem optimize_consistent {host : Host α σ} (hhost : host.FillsPoints)
    {callback : Option (Callback α σ)} {fuel : Nat} {w w' : Workbench α σ}
    (hrun : Solving.optimize host callback fuel w = .ok () w') :
    w'.model.Consistent (decide (0 < w.model.binaries ∨ 0 < w.model.integers)) :=
  (Solving.optimize_consists hhost callback fuel w).ok hrun

/-! ### A direction without end -/

theorem Host.single_fillsPoints : (Host.single (σ := σ)).FillsPoints := by
  intro r w a ha hstatus
  change r.program.solveSingle = .ok a at ha
  unfold LinearProgram.solveSingle at ha
  split at ha
  · rename_i cost hcost
    split_ifs at ha
    · split at ha
      · cases ha
        rw [hcost]
        rfl
      · cases ha
        cases hstatus
    · cases ha
      cases hstatus
  · cases ha

/-- A variable without bounds. -/
def lone : Model Extended := (Model.emptied {}).grown 1

theorem lone_wellFormed : lone.WellFormed := (Model.WellFormed.emptied {}).grown 1

/-- It is minimised. -/
def fallingCalls : List (Call Extended) :=
  [.edit (.addVariables 1), .edit (.setObjective (.single ⟨1⟩))]

/-- What they come to. -/
def falling : Model Extended := { lone with
    problem := { lone.problem with
      columns := List.zipWith (fun c cost => { c with cost := cost }) lone.problem.columns
        (lone.vars.keys.map fun (k : Nat) =>
          (⟨[⟨1, ⟨1⟩⟩], 0⟩ : AffineFunction Extended).coefficient ⟨k⟩)
      constant := 0 }
    objectiveKind := .singleVariable }

theorem afterAll_fallingCalls : Call.afterAll (Model.emptied {}) fallingCalls = falling := by
  have hadd : Call.after (Model.emptied {}) (.edit (.addVariables 1)) = lone :=
    Call.after_addVariables (.emptied _) le_rfl
  have hinfo : lone.vars.get? 1 = some { index := ⟨1⟩, column := 1 } :=
    lone_wellFormed.vars.get?_of_getElem (i := 0) rfl
  have hlive : lone.firstDead [⟨1, ⟨1⟩⟩] = none := by
    simp [Model.firstDead, hinfo]
  calc Call.afterAll (Model.emptied {}) fallingCalls
      = Call.after lone (.edit (.setObjective (.single ⟨1⟩))) := by
        rw [Call.afterAll, fallingCalls, List.foldl_cons, hadd, List.foldl_cons, List.foldl_nil]
    _ = after (Modelling.setAffineObjective .singleVariable ⟨[⟨1, ⟨1⟩⟩], 0⟩) lone :=
        after_return (Modelling.setAffineObjective .singleVariable ⟨[⟨1, ⟨1⟩⟩], 0⟩)
          fun _ => Reply.done
    _ = falling := after_ok (Modelling.setAffineObjective_run lone_wellFormed hlive .singleVariable)

/-- The direction without end is stored, and the statuses promise it. -/
theorem optimize_consistent_falling : ∃ w',
    Solving.optimize Host.single none 20 ⟨⟨(), #[]⟩, falling⟩ = .ok () w' ∧
      w'.model.last.ray.map (·.map (·.value)) = some [-1] ∧ w'.model.Consistent false := by
  have hmixed : decide (0 < falling.binaries ∨ 0 < falling.integers) = false := by decide +kernel
  obtain ⟨_, w', hrun, -⟩ := exists_of_passes (x := Solving.optimize Host.single none 20)
    (s := ⟨⟨(), #[]⟩, falling⟩) (fun _ => true) (by decide +kernel)
  have hray : (after (Solving.optimize Host.single none 20) ⟨⟨(), #[]⟩, falling⟩).model.last.ray.map
      (·.map (·.value)) = some [-1] := by decide +kernel
  have hconsistent := optimize_consistent Host.single_fillsPoints hrun
  rw [after_ok hrun] at hray
  rw [hmixed] at hconsistent
  exact ⟨w', hrun, hray, hconsistent⟩
end MixedInteger
