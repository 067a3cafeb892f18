import MixedInteger.Proofs.Model.Verdict

/-! What a solve leaves behind. With integer variables it fails only when its search is broken off.
Then the model keeps the solution of the search before, if there was one, and still says that the
algorithm before was the last one. Otherwise the model holds what the search came to, and no
certificates. Without integer variables the model holds what its method stored, and the
certificates that the statuses promise. -/

namespace MixedInteger

variable {α σ : Type} [Scalar α]

namespace Model

variable (m : Model α)

/-- The model when a solve of it has begun. -/
def begun : Model α :=
  { m with last := { m.last with called := true, ray := none, certificate := none } }

def timed (seconds : α) : Model α := { m with last := { m.last with seconds := seconds } }

/-- The model after a search that came to its end. -/
def searched (b : Solution α) (v : Watched α σ) (code : ReturnCode) (s : Solution α)
    (seconds : α) : Model α :=
  (((m.begun.withBasis b).withWatched v).concluded code s).timed seconds

/-- Are there integer variables? -/
def IsMixed : Prop := 0 < m.binaries ∨ 0 < m.integers

variable {m}

theorem unsolved_begun (m : Model α) : m.begun.unsolved = m.unsolved := rfl

theorem unsolved_withBasis (m : Model α) (b : Solution α) :
    (m.withBasis b).unsolved = m.unsolved := rfl

theorem unsolved_withWatched (m : Model α) (v : Watched α σ) :
    (m.withWatched v).unsolved = m.unsolved := rfl

theorem unsolved_concluded (m : Model α) (code : ReturnCode) (s : Solution α) :
    (m.concluded code s).unsolved = m.unsolved := rfl

/-- A search that is broken off leaves no more than this behind. -/
theorem unsolved_brokenOff (m : Model α) (b : Solution α) (v : Watched α σ) :
    ((m.begun.withBasis b).withWatched v).unsolved = m.unsolved :=
  calc ((m.begun.withBasis b).withWatched v).unsolved
    _ = (m.begun.withBasis b).unsolved := unsolved_withWatched _ v
    _ = m.begun.unsolved := unsolved_withBasis _ b
    _ = m.unsolved := unsolved_begun m

theorem unsolved_searched (m : Model α) (b s : Solution α) (v : Watched α σ) (code : ReturnCode)
    (seconds : α) : (m.searched b v code s seconds).unsolved = m.unsolved :=
  calc (m.searched b v code s seconds).unsolved
    _ = (((m.begun.withBasis b).withWatched v).concluded code s).unsolved := rfl
    _ = ((m.begun.withBasis b).withWatched v).unsolved := unsolved_concluded _ code s
    _ = m.unsolved := unsolved_brokenOff m b v

theorem algorithm_of_search (h : m.last.bySearch = true) : m.algorithm = .search := by
  unfold algorithm
  rw [h]
  rfl

theorem solution_of_search (h : m.last.bySearch = true) : m.solution = m.problem.integer := by
  unfold solution
  rw [algorithm_of_search h]

/-- The statuses of a search promise no certificates. -/
theorem statuses_of_search (h : m.last.bySearch = true)
    (hknown : m.problem.integer.status.verdict?.isSome = true) :
    (∃ t, m.terminationStatus = .ok t) ∧ (∃ p, m.primalStatus = .ok p ∧ p ≠ .certificate) ∧
      m.dualStatus = .ok .noSolution := by
  obtain ⟨v, hv⟩ := Option.isSome_iff_exists.1 hknown
  have hverdict : m.solutionVerdict = .ok v := by
    unfold solutionVerdict
    rw [solution_of_search h, hv]
  refine ⟨?_, ?_, ?_⟩
  · unfold terminationStatus verdict
    rw [hverdict]
    split_ifs <;> exact ⟨_, rfl⟩
  · unfold primalStatus mayHaveRays
    rw [hverdict, algorithm_of_search h]
    cases hs : m.problem.integer.status <;> rw [hs] at hv <;> cases hv <;>
      exact ⟨_, rfl, by decide⟩
  · unfold dualStatus
    rw [h]
    rfl

/-- What is reported of the point tells what the solution is. -/
theorem status_of_primalStatus {p : ResultStatus} (h : m.primalStatus = .ok p) :
    (p = .feasiblePoint → m.solution.status = .optimal ∨ m.solution.status = .feasible) ∧
      (p = .certificate → m.solution.status = .unbounded) := by
  unfold primalStatus solutionVerdict at h
  cases hs : m.solution.status <;> cases hrays : m.mayHaveRays <;> rw [hs] at h <;> cases h <;>
    simp [hrays]

/-- Certified duals are promised where no point was found, except by the interior method. -/
theorem status_of_dualStatus (h : m.dualStatus = .ok .certificate) :
    m.last.bySearch = false ∧ m.method ≠ .interior ∧
      (m.solution.status = .noFeasible ∨ m.solution.status = .infeasible) := by
  unfold dualStatus at h
  cases hsearch : m.last.bySearch with
  | true =>
    rw [hsearch] at h
    cases h
  | false =>
    rw [hsearch] at h
    unfold solutionVerdict mayHaveRays algorithm at h
    rw [hsearch] at h
    cases hmethod : m.method <;> cases hs : m.solution.status <;> rw [hs, hmethod] at h <;>
      simp_all [SolutionStatus.verdict?]

/-- What is said of the point of a search that came to its end. -/
theorem primalStatus_searched {b s : Solution α} {v : Watched α σ} {code : ReturnCode}
    {seconds : α} :
    (s.status = .optimal → (m.searched b v code s seconds).primalStatus = .ok .feasiblePoint) ∧
      (s.status = .noFeasible ∨ s.status = .undefined →
        (m.searched b v code s seconds).primalStatus = .ok .noSolution) := by
  have hstatus : (m.searched b v code s seconds).solution.status = s.status :=
    congrArg (·.status) (solution_of_search (m := m.searched b v code s seconds) rfl)
  unfold primalStatus solutionVerdict
  rw [hstatus]
  constructor
  · intro hs
    rw [hs]
    rfl
  · rintro (hs | hs)
    all_goals
      rw [hs]
      rfl

end Model

namespace Solving

variable {w : Workbench α σ} {host : Host α σ} {callback : Option (Callback α σ)} {fuel : Nat}
  {Q : ReturnCode → Solution α → Watched α σ → Prop}

section
variable {γ : Type} {P : γ → Workbench α σ → Prop} {E : Workbench α σ → Prop}

/-- The clock and the journal have no part in the model, and never fail. -/
theorem now_bind {f : α → Solving α σ γ} (h : ∀ now, Runs (f now) w P E) :
    Runs (ofTask (Task.now host) >>= f) w P E := h _

theorem tell_bind {n : Notice α} {f : Unit → Solving α σ γ}
    (h : ∀ w' : Workbench α σ, w'.model = w.model → Runs (f ()) w' P E) :
    Runs (ofTask (Task.tell n) >>= f) w P E := h _ rfl

end

/-- After a search there are no certificates to fetch. -/
theorem certify_run (h : w.model.last.bySearch = true)
    (hknown : w.model.problem.integer.status.verdict?.isSome = true) :
    certify host w = .ok () w := by
  obtain ⟨-, ⟨p, hp, hne⟩, hd⟩ := Model.statuses_of_search h hknown
  have hmodel : (Solving.model : Solving α σ (Model α)) w = .ok w.model w := rfl
  unfold certify
  simp only [bind_run, hmodel, hp, hd, ofExcept, pure_run, hne, if_false, reduceCtorEq]

/-- A solve with a search, from what the search comes to; it fails when that is broken off. -/
theorem optimize_searches_of [LawfulScalar α] (h : Roundable w.model) (hmixed : w.model.IsMixed)
    {e : Prop} (hagrees : ∀ code s v, Q code s v → code.Agrees s.status)
    (hsearch : ∀ session, Runs (search host callback fuel)
      ⟨session, w.model.begun.withColumns w.model.innerColumns⟩
      (fun _ w' => Ended (w.model.begun.withColumns w.model.innerColumns) Q w'.model)
      fun w' => e ∧ BrokenOff σ (w.model.begun.withColumns w.model.innerColumns) w'.model) :
    Runs (optimize host callback fuel) w
      (fun _ w' => ∃ b v code s seconds, Q code s v ∧
        w'.model = w.model.searched b v code s seconds)
      fun w' => e ∧ ∃ (b : Solution α) (v : Watched α σ),
        w'.model = (w.model.begun.withBasis b).withWatched v := by
  have hbegun : Roundable w.model.begun := ⟨h.numbered, h.settled⟩
  unfold optimize
  refine now_bind fun start => modifyLast_bind (model_bind ?_)
  rw [if_pos (by exact hmixed)]
  refine tell_bind ?_
  rintro ⟨session, _⟩ rfl
  refine (solveInteger_runs (w := ⟨session, w.model.begun⟩) hbegun (hsearch session)).bind ?_
  rintro _ ⟨session', _⟩ ⟨b, code, s, v, hQ, rfl⟩
  have hknown := (hagrees code s v hQ).known
  let w₁ : Workbench α σ :=
    ⟨session', ((w.model.begun.withBasis b).withWatched v).concluded code s⟩
  have hcertify : certify host w₁ = .ok () w₁ := certify_run rfl hknown
  refine Runs.bind (P := fun _ w' => w' = w₁) (.of_ok hcertify rfl) ?_
  rintro _ _ rfl
  refine now_bind fun now => modifyLast_bind (model_bind ?_)
  obtain ⟨⟨t, ht⟩, -⟩ := Model.statuses_of_search
    (m := w.model.searched b v code s (now - start)) rfl hknown
  refine ofExcept_bind ht (model_bind ?_)
  exact ⟨b, v, code, s, now - start, hQ, rfl⟩

/-- A solve with a search, from what the algorithm finds. -/
theorem optimize_searches [LawfulScalar α] (h : Roundable w.model) (hmixed : w.model.IsMixed)
    (hfinds : Finds (w.model.begun.withColumns w.model.innerColumns) host callback fuel Q) :
    Runs (optimize host callback fuel) w
      (fun _ w' => ∃ b v code s seconds, Q code s v ∧ code.Agrees s.status ∧
        w'.model = w.model.searched b v code s seconds)
      fun w' => ∃ (b : Solution α) (v : Watched α σ),
        w'.model = (w.model.begun.withBasis b).withWatched v := by
  have hfinds' : Finds (w.model.begun.withColumns w.model.innerColumns) host callback fuel
      fun code s v => Q code s v ∧ code.Agrees s.status := by
    intro b k session
    refine (((hfinds b k session).and (intopt_fits _ _ fuel _ _ trivial)).imp ?_).weaken ?_
    · exact fun _ _ ⟨hQ, hfits, _⟩ => ⟨hQ, hfits⟩
    · exact fun _ _ => trivial
  have hsearch := fun session : Session α σ =>
    (search_runs (w := ⟨session, _⟩) hfinds').weaken fun _ hbroken => And.intro trivial hbroken
  refine ((optimize_searches_of h hmixed (fun _ _ _ hQ => hQ.2) hsearch).imp ?_).weaken ?_
  · rintro _ w' ⟨b, v, code, s, seconds, ⟨hQ, hagrees⟩, hw'⟩
    exact ⟨b, v, code, s, seconds, hQ, hagrees, hw'⟩
  · exact fun _ hfails => hfails.2

end Solving

/-! ### Solves without a search -/

namespace Model

variable (m : Model α)

/-- The problem with a solution where the method of the model keeps it. -/
def place (s : Solution α) : Problem α :=
  match m.method with
  | .interior => m.problem.withInterior s
  | _ => m.problem.withBasic s

/-- The method of the model on its problem. -/
def attempt (host : Host α σ) : Task α σ (Problem α × ReturnCode) :=
  match m.method with
  | .simplex => simplex host m.stores.simplex m.problem
  | .exact => exact host m.stores.simplex m.problem
  | .interior => interior host m.stores.interior m.problem

/-- The model after a solve without a search that came to its end. -/
def settled (code : ReturnCode) (s : Solution α) (ray certificate : Option (List α))
    (seconds : α) : Model α :=
  { m with
    problem := m.place s
    last := { m.last with
      called := true, ray := ray, certificate := certificate, bySearch := false, code := code
      seconds := seconds } }

variable {m}

theorem solution_place (s : Solution α) {r : SolveRecord α} (h : r.bySearch = false) :
    Model.solution { m with problem := m.place s, last := r } = s := by
  unfold solution algorithm place
  cases m.method <;> rw [h] <;> rfl

theorem exists_terminationStatus (h : m.solution.status.verdict?.isSome = true) :
    ∃ t, m.terminationStatus = .ok t := by
  obtain ⟨v, hv⟩ := Option.isSome_iff_exists.1 h
  unfold terminationStatus verdict solutionVerdict
  rw [hv]
  split_ifs <;> exact ⟨_, rfl⟩

theorem attempt_stores {A : Answer α → Prop} {host : Host α σ} (m : Model α)
    (hhost : host.Offers m.problem.linearProgram A) : Task.Keeps (fun _ => True) (m.attempt host)
      fun r => ∃ b, r.1 = m.place b ∧ b.Stored m.problem A := by
  unfold attempt place
  cases m.method with
  | simplex => exact simplex_stores hhost _
  | exact => exact exact_stores hhost _
  | interior => exact interior_stores hhost _

/-- A method stores a solution that its code agrees with. -/
theorem attempt_agrees (host : Host α σ) (m : Model α) (s : Session α σ) :
    Runs (m.attempt host) s (fun r _ => ∀ b, r.1 = m.place b → r.2.Agrees b.status)
      fun _ => True := by
  unfold attempt place
  cases m.method with
  | simplex =>
    refine (simplex_fits host m.problem _).runs s |>.imp ?_
    rintro ⟨_, code⟩ _ hfits b rfl
    exact hfits
  | exact =>
    refine (exact_fits host m.problem _).runs s |>.imp ?_
    rintro ⟨_, code⟩ _ hfits b rfl
    exact hfits
  | interior =>
    refine (interior_fits host m.problem _).runs s |>.imp ?_
    rintro ⟨_, code⟩ _ hfits b rfl
    exact hfits

end Model

namespace Solving

variable {w : Workbench α σ} {host : Host α σ} {S : ReturnCode → Solution α → Prop} {e : Prop}

theorem solveContinuous_settles (hrun : Runs (w.model.attempt host) w.session
      (fun r _ => ∃ b, r.1 = w.model.place b ∧ S r.2 b) fun _ => e) :
    Runs (solveContinuous host) w (fun _ w' => ∃ code b, S code b ∧ code.Agrees b.status ∧
      w'.model = { w.model with
        problem := w.model.place b, last := { w.model.last with bySearch := false, code := code } })
      fun _ => e := by
  have hagrees : ∀ x, x = w.model.attempt host → Runs x w.session
      (fun r _ => ∃ b, r.1 = w.model.place b ∧ S r.2 b ∧ r.2.Agrees b.status) fun _ => e := by
    rintro _ rfl
    refine ((hrun.and (w.model.attempt_agrees host w.session)).imp ?_).weaken fun _ h => h.1
    rintro r _ ⟨⟨b, hb, hS⟩, hfits⟩
    exact ⟨b, hb, hS, hfits b hb⟩
  have hattempt : ∀ m : Model α, (match m.method with
      | .simplex => simplex host m.stores.simplex
      | .exact => exact host m.stores.simplex
      | .interior => interior host m.stores.interior) m.problem = m.attempt host := by
    intro m
    unfold Model.attempt
    cases m.method <;> rfl
  rw [solveContinuous_eq]
  refine modifyLast_bind (model_bind (Runs.bind (P := fun code w' => ∃ b, S code b ∧
    code.Agrees b.status ∧ w'.model = { w.model with
      problem := w.model.place b, last := { w.model.last with bySearch := false } }) ?_ ?_))
  · unfold engage
    have hrun := ofTask_runs (w := ⟨w.session, { w.model with
      last := { w.model.last with bySearch := false } }⟩)
      (Q := fun r : Problem α × ReturnCode => ∃ b, r.1 = w.model.place b ∧ S r.2 b ∧
        r.2.Agrees b.status)
      (hagrees _ (hattempt w.model))
    refine model_bind ((hrun.weaken fun _ h => h.1).bind ?_)
    rintro ⟨_, code⟩ w' ⟨⟨b, rfl, hS, hfits⟩, hw'⟩
    refine modifyModel_bind (.pure ⟨b, hS, hfits, ?_⟩)
    rw [hw']
  · rintro code w' ⟨b, hS, hfits, hw'⟩
    refine Runs.update ⟨code, b, hS, hfits, ?_⟩
    rw [hw']

/-- A solve without a search, from what the method stores when it starts in this world and from the
certificates that are fetched for it. -/
theorem optimize_settles_from {callback : Option (Callback α σ)} {fuel : Nat}
    (hmixed : ¬w.model.IsMixed) {R C : List α → Prop}
    (hrun : ∀ s, s.world = w.session.world → Runs (w.model.attempt host) s
      (fun r _ => ∃ b, r.1 = w.model.place b ∧ S r.2 b) fun _ => e)
    (hray : ∀ code b, S code b → b.status = .unbounded → ∀ s,
      Runs (unboundedRay host (w.model.place b)) s (fun r _ => R r) fun _ => e)
    (hcertificate : ∀ code b, S code b → b.status = .noFeasible ∨ b.status = .infeasible → ∀ s,
      Runs (infeasibilityRay host (w.model.place b)) s (fun y _ => C y) fun _ => e) :
    Runs (optimize host callback fuel) w (fun _ w' => ∃ code b ray certificate seconds,
      S code b ∧ Fetched (w'.model.primalStatus = .ok .certificate) R ray ∧
        Fetched (w'.model.dualStatus = .ok .certificate) C certificate ∧
        w'.model = w.model.settled code b ray certificate seconds) fun _ => e := by
  unfold optimize
  refine now_bind fun start => modifyLast_bind (model_bind ?_)
  rw [if_neg (by exact hmixed)]
  let told : Session α σ :=
    { w.session with journal := w.session.journal.push (.continuousPath w.model.method) }
  refine (show Runs (ofTask (Task.tell (.continuousPath w.model.method)))
    (⟨w.session, w.model.begun⟩ : Workbench α σ) (fun _ w' => w' = ⟨told, w.model.begun⟩)
    fun _ => e from rfl).bind ?_
  rintro _ _ rfl
  refine (solveContinuous_settles (w := ⟨told, w.model.begun⟩) (hrun told rfl)).bind ?_
  rintro _ ⟨session, _⟩ ⟨code, b, hS, hagrees, rfl⟩
  let m₁ : Model α := { w.model with
    problem := w.model.place b
    last := { w.model.begun.last with bySearch := false, code := code } }
  have hsolution : m₁.solution = b := Model.solution_place (m := w.model) b rfl
  have hknown := hagrees.known
  rw [← hsolution] at hknown
  refine (certify_fetches (w := ⟨session, m₁⟩) ⟨rfl, rfl⟩ hknown
    (fun hpromise => hray code b hS (hsolution ▸ (Model.status_of_primalStatus hpromise).2 rfl))
    fun hpromise => hcertificate code b hS
      (hsolution ▸ (Model.status_of_dualStatus hpromise).2.2)).bind ?_
  rintro _ ⟨session, _⟩ ⟨ray, certificate, hr, hc, rfl⟩
  refine now_bind fun now => modifyLast_bind (model_bind ?_)
  obtain ⟨t, ht⟩ := Model.exists_terminationStatus (m := w.model.settled code b ray certificate
    (now - start)) hknown
  exact ofExcept_bind ht (model_bind ⟨code, b, ray, certificate, now - start, hS, hr, hc, rfl⟩)

theorem optimize_settles {callback : Option (Callback α σ)} {fuel : Nat}
    (hmixed : ¬w.model.IsMixed) {R C : List α → Prop}
    (hrun : ∀ s, Runs (w.model.attempt host) s
      (fun r _ => ∃ b, r.1 = w.model.place b ∧ S r.2 b) fun _ => e)
    (hray : ∀ code b, S code b → b.status = .unbounded → ∀ s,
      Runs (unboundedRay host (w.model.place b)) s (fun r _ => R r) fun _ => e)
    (hcertificate : ∀ code b, S code b → b.status = .noFeasible ∨ b.status = .infeasible → ∀ s,
      Runs (infeasibilityRay host (w.model.place b)) s (fun y _ => C y) fun _ => e) :
    Runs (optimize host callback fuel) w (fun _ w' => ∃ code b ray certificate seconds,
      S code b ∧ Fetched (w'.model.primalStatus = .ok .certificate) R ray ∧
        Fetched (w'.model.dualStatus = .ok .certificate) C certificate ∧
        w'.model = w.model.settled code b ray certificate seconds) fun _ => e :=
  optimize_settles_from hmixed (fun s _ => hrun s) hray hcertificate

end Solving

end MixedInteger
