import MixedInteger.Proofs.Model.CrossedBounds
import MixedInteger.Proofs.Model.InnerProblem
import MixedInteger.Proofs.Model.LazyConstraints
import MixedInteger.Proofs.Search.Settled

/-! What a solve concludes. The solver is exact and answers every question. A model that is unfit
is refused. Else, without integer variables, the method ends in a way that depends on what there is
to find, and the dual simplex method may stop at a limit of the objective. With integer variables
the presolver finds out that the objective is unbounded over the relaxation, and a search, with a
callback that only looks on, has a point when it ends or there is none. -/

namespace MixedInteger

open Extended SearchTask

variable {σ : Type}

namespace Model

/-- Nothing is solved when bounds are crossed, which the interior method does not ask, nor by the
exact and interior methods when there are no rows or no columns. -/
inductive Unfit (m : Model Extended) : Prop
  | mixed (hmixed : m.IsMixed) (hbounds : m.inner.problem.badBounds ≠ none) : m.Unfit
  | crossed (hmixed : ¬m.IsMixed) (hmethod : m.method ≠ .interior)
      (hbounds : m.problem.badBounds ≠ none) : m.Unfit
  | empty (hmixed : ¬m.IsMixed) (hmethod : m.method ≠ .simplex)
      (hempty : m.problem.rows = [] ∨ m.problem.columns = []) : m.Unfit

end Model

/-- Fit for a search, a model has no crossed bounds. -/
theorem Model.uncrossed_of_fit {m : Model Extended} (hmixed : m.IsMixed) (hfit : ¬m.Unfit) :
    m.inner.problem.badBounds = none := by
  by_contra hcrossed
  exact hfit (.mixed hmixed hcrossed)

/-! ### Solves without a search -/

/-- The termination status by code and status of the solution. -/
def Algorithm.termination (a : Algorithm) (r : ReturnCode × SolutionStatus) : TerminationStatus :=
  if r.1 = .done then r.2.verdict?.elim .otherError (·.1) else (a.verdict r.1).1

namespace Model

variable {m : Model Extended}

theorem terminationStatus_eq (hcalled : m.last.called = true)
    (hknown : m.solution.status.verdict?.isSome = true) :
    m.terminationStatus = .ok (m.algorithm.termination (m.last.code, m.solution.status)) := by
  obtain ⟨v, hv⟩ := Option.isSome_iff_exists.1 hknown
  unfold terminationStatus verdict solutionVerdict Algorithm.termination
  rw [hcalled, hv]
  by_cases hcode : m.last.code = .done
  · rw [if_neg (by simp), if_neg (by simp [hcode]), if_pos hcode]
    rfl
  · rw [if_neg (by simp), if_pos hcode, if_neg hcode]
    rfl

/-- How the method ends, by what there is to find. -/
def ending (m : Model Extended) (f : Finding) : ReturnCode × SolutionStatus :=
  match m.method with
  | .simplex => m.stores.simplex.ending m.problem f
  | .exact => { m.stores.simplex with presolve := 0 }.ending m.problem f
  | .interior => (.done, f.blurred.status)

/-- No optimum is past a limit of the objective, where the dual simplex method stops when there are
columns. -/
def Unlimited (m : Model Extended) : Prop :=
  m.problem.columns ≠ [] → ∀ v, m.problem.Admits (.optimal v) →
    objectiveLimit m.stores.simplex m.problem (rat v) = .done

/-- There is but one optimum. -/
theorem unlimited_iff (hcolumns : m.problem.columns ≠ []) {v : ℚ}
    (hv : m.problem.Admits (.optimal v)) :
    m.Unlimited ↔ objectiveLimit m.stores.simplex m.problem (rat v) = .done := by
  refine ⟨fun h => h hcolumns v hv, fun h _ v' hv' => ?_⟩
  cases hv'.unique hv
  exact h

theorem known_ending (m : Model Extended) (f : Finding) :
    (m.ending f).2.verdict?.isSome = true := by
  have hending : ∀ params : Parameter.Simplex Extended,
      (params.ending m.problem f).2.verdict?.isSome = true := by
    intro params
    unfold Parameter.Simplex.ending
    cases f with
    | optimal v => rfl
    | infeasible =>
      dsimp only
      split_ifs <;> rfl
    | unbounded =>
      dsimp only
      split_ifs <;> rfl
  unfold ending
  cases m.method with
  | simplex => exact hending _
  | exact => exact hending _
  | interior => cases f <;> rfl

end Model

namespace Solving

theorem attempt_ends {host : Host Extended σ} (hexact : host.IsExact) (hdecides : host.Decides)
    {m : Model Extended} (hp : m.problem.Rational) (hmixed : ¬m.IsMixed) (hfit : ¬m.Unfit) :
    Task.Returns (m.attempt host) fun r =>
      ∃ b f, r.1 = m.place b ∧ m.problem.Admits f ∧ (r.2, b.status) = m.ending f := by
  have hbounds : m.method ≠ .interior → m.problem.badBounds = none := by
    intro hmethod
    by_contra hcrossed
    exact hfit (.crossed hmixed hmethod hcrossed)
  have hfull : m.method ≠ .simplex → m.problem.rows ≠ [] ∧ m.problem.columns ≠ [] := by
    intro hmethod
    by_contra hempty
    exact hfit (.empty hmixed hmethod (by tauto))
  unfold Model.attempt Model.place Model.ending
  cases hmethod : m.method with
  | simplex =>
    refine (simplex_concludes hexact hdecides hp (hbounds (by simp [hmethod])) _).imp ?_
    rintro _ ⟨s, f, hstores, rfl, hstatus⟩
    exact ⟨s, f, rfl, hstores.admits, Prod.ext rfl hstatus⟩
  | exact =>
    obtain ⟨hrows, hcolumns⟩ := hfull (by simp [hmethod])
    refine (exact_concludes hexact hdecides hp hcolumns hrows
      (hbounds (by simp [hmethod])) _).imp ?_
    rintro _ ⟨s, f, hstores, rfl, hstatus⟩
    exact ⟨s, f, rfl, hstores.admits, Prod.ext rfl hstatus⟩
  | interior =>
    obtain ⟨hrows, hcolumns⟩ := hfull (by simp [hmethod])
    refine (interior_returns hexact hdecides hp hcolumns hrows _).imp ?_
    rintro _ ⟨s, f, rfl, hadmits, htells⟩
    exact ⟨s, f, rfl, hadmits, Prod.ext rfl htells.status⟩

end Solving

/-! ### Callbacks that look on -/

/-- The tree is left alone, also when the callback fails. -/
def Callback.Looks (call : Callback Extended σ) : Prop :=
  ∀ d s, Runs (call d) s (fun _ s' => s'.tree = s.tree) fun s' => s'.tree = s.tree

namespace Callback.Looks

variable {call : Callback Extended σ} (h : call.Looks)
include h

theorem complies (m : Model Extended) : call.Complies m [] fun _ => True := by
  intro d s s' _ hrun
  have htree : s'.tree = s.tree := (h d s).ok hrun
  rw [htree]
  exact ⟨⟨s.tree.problem, s.tree.stopped, s.tree.reason, rfl, .refl _⟩, fun _ _ _ _ => trivial⟩

theorem keeps {I : Tree Extended → Prop} (d : CallbackData Extended) :
    SearchTask.Keeps I (call d) := by
  intro s hs
  refine ((h d s).imp fun _ s' htree => ?_).weaken fun s' htree => ?_
  · rw [htree]
    exact hs
  · rw [htree]
    exact hs

end Callback.Looks

/-! ### Searches that come to their end -/

theorem Host.watched_decides {host : Host Extended σ} (h : host.Decides) : host.watched.Decides :=
  fun r w hr => h r w.world hr

namespace Model

/-- The nodes of a search of the model can be gone through, and nobody is told of them. -/
structure Exhaustible (m : Model Extended) (callback : Option (Callback Extended σ)) (fuel : ℕ) :
    Prop where
  silent : callback = none
  tolerance : 0 ≤ m.stores.search.integerTolerance
  technique : m.stores.search.backtracking ∈ [1, 2, 3, 4]
  bounded : m.inner.problem.Bounded
  fuel : 4 * m.inner.problem.lattice.card ≤ fuel + 1

variable {m : Model Extended}

/-- Noting the bound disturbs no search. -/
theorem watch_quiet (m : Model Extended) (host : Host Extended (Watched Extended σ)) :
    (⟨host, some (m.watch none)⟩ : Search.Company Extended (Watched Extended σ)).Quiet := by
  intro r s
  refine SearchTask.announce_runs ?_
  rw [m.watch_eq]
  refine tree_bind ?_
  split
  · exact ⟨none, rfl⟩
  · exact ⟨none, rfl⟩

theorem Exhaustible.unhindered {callback : Option (Callback Extended σ)} {fuel : ℕ}
    (h : m.Exhaustible callback fuel)
    (htime : ¬m.stores.search.timeLimit < Parameter.unlimited) (host : Host Extended σ)
    (b : Solution Extended) (k : ℤ) :
    Search.Unhindered ⟨host.watched, some ((m.posed b k).watch callback)⟩
      (m.posed b k).stores.search (m.posed b k).problem where
  quiet := by
    rw [h.silent]
    exact watch_quiet _ _
  clock hlt := absurd hlt htime
  tolerance := h.tolerance
  technique := h.technique
  bounded := ⟨h.bounded.lower, h.bounded.upper, h.bounded.ordered⟩

end Model

namespace LazySearch

variable {m : Model Extended} {host : Host Extended σ} {callback : Option (Callback Extended σ)}
  {Accepted : (ℕ → ℚ) → Prop} {aim : Aim} (h : LazySearch m host callback [] Accepted aim)
include h

/-- A search to which no rows are added is left in peace. -/
theorem peaceful (hdecides : host.Decides) (hmixed : m.IsMixed)
    (hbounds : m.inner.problem.badBounds = none) (hbounded : ¬m.inner.problem.Admits .unbounded)
    (b : Solution Extended) (k : ℤ) (bound : Extended) : (h.setting b k bound).Peaceful where
  decides := Host.watched_decides hdecides
  closed := by
    rintro _ ⟨e, he, -⟩
    cases he
  columns := by
    have hcount : m.inner.problem.columns.length = m.problem.columns.length :=
      h.sound.named.wf.innerCount
    change m.inner.problem.columns ≠ []
    rw [← List.length_pos_iff, hcount, List.length_pos_iff]
    exact h.sound.columns_of_mixed hmixed
  uncrossed := hbounds
  ordered j hj := h.sound.ordered_inner h.rational hbounds hj
  bounded := by
    intro hunbounded
    exact hbounded (hunbounded.withSolutions _ _ _)

/-- What such a search comes to: it has a point of the model, or there is none. -/
def Settled (m : Model Extended) (aim : Aim) (code : ReturnCode) (s : Solution Extended)
    (_ : Watched Extended σ) : Prop :=
  Search.Settles code s.status ∧ Search.Outcome m.inner.problem (m.guarded []) aim code s

variable (hint : m.stores.search.integerTolerance = rat aim.integer)
  (hobj : aim.Ranks → m.stores.search.objectiveTolerance = rat aim.objective)
  (hgap : m.stores.search.gap = aim.gap)
  (htime : ¬m.stores.search.timeLimit < Parameter.unlimited) (hexact : host.IsExact)
  (hdecides : host.Decides) (hcallback : ∀ call, callback = some call → call.Looks)
  (hmixed : m.IsMixed) (hbounds : m.inner.problem.badBounds = none)
  (hbounded : ¬m.inner.problem.Admits .unbounded)
include hint hobj hgap htime hdecides hcallback hmixed hbounds hbounded hexact

theorem search_settles (fuel : ℕ) (session : Session Extended σ) :
    Runs (Solving.search host callback fuel) ⟨session, m.begun.withColumns m.innerColumns⟩
      (fun _ w' =>
        Solving.Ended (m.begun.withColumns m.innerColumns) (Settled (σ := σ) m aim) w'.model)
      fun w' => ¬m.Exhaustible callback fuel ∧
        Solving.BrokenOff σ (m.begun.withColumns m.innerColumns) w'.model := by
  have hp := h.sound.rational_inner h.rational
  refine Solving.search_runs_of (B := fun _ => True) (fun s => ?_) fun b k session hbasis => ?_
  · exact ((simplex_concludes hexact hdecides hp hbounds _ s).imp fun _ _ _ => trivial).weaken
      fun _ => False.elim
  · have hint' : (m.posed b k).stores.search.integerTolerance = rat aim.integer := hint
    have htime' : ¬(m.posed b k).stores.search.timeLimit < Parameter.unlimited := htime
    have hI : Search.Invariant ⟨host.watched, some ((m.posed b k).watch callback)⟩
        (Search.LeftAlone (m.posed b k).stores.search) := by
      refine Search.invariant_leftAlone ?_
      rintro _ ⟨⟩
      exact Model.watch_keeps _ fun call hcall d => (hcallback call hcall).keeps d
    have hobstacle : Search.obstacle (m.posed b k).problem = .ok none :=
      (h.sound.obstacle_inner h.rational).trans (congrArg Except.ok hbounds)
    have hsettles := (h.peaceful hdecides hmixed hbounds hbounded b k
      m.last.objectiveBound).intopt_settles htime' hI hint' hobj hgap hobstacle
        (fun hk => (hbasis hk).1) fuel
        (s := session.watched m.last.objectiveBound m.last.relativeGap) rfl
    have hfinds := h.finds hint hobj hgap fuel b k session
    refine ((hsettles.and hfinds).imp ?_).weaken ?_
    · rintro r s' ⟨hsettled, houtcome, -⟩
      exact ⟨hsettled, houtcome⟩
    · rintro _ ⟨hfails, -⟩ hexhaustible
      exact hfails ⟨hexhaustible.unhindered htime host b k, hexhaustible.fuel⟩

end LazySearch

/-! ### Searches without a bound -/

section
variable {m : Model Extended} {host : Host Extended σ} {callback : Option (Callback Extended σ)}

/-- What the presolver says of an objective that is unbounded over the relaxation. -/
def FoundNoDual (code : ReturnCode) (s : Solution Extended) (_ : Watched Extended σ) : Prop :=
  code = .noDual ∧ s.status = .undefined

/-- No optimal basis is found, so that it is for the presolver to begin. -/
theorem search_unbounded (hm : m.Sound) (hr : m.Rational) (hexact : host.IsExact)
    (hdecides : host.Decides) (htime : ¬m.stores.search.timeLimit < Parameter.unlimited)
    (hbounds : m.inner.problem.badBounds = none) (hunbounded : m.inner.problem.Admits .unbounded)
    (fuel : ℕ) (session : Session Extended σ) :
    Runs (Solving.search host callback fuel) ⟨session, m.begun.withColumns m.innerColumns⟩
      (fun _ w' =>
        Solving.Ended (m.begun.withColumns m.innerColumns) (FoundNoDual (σ := σ)) w'.model)
      fun _ => False := by
  have hp := hm.rational_inner hr
  refine (Solving.search_runs_of (e := False) (B := fun b => b.status ≠ .optimal) (fun s => ?_)
    fun b k session hbasis => ?_).weaken fun _ hfails => hfails.1
  · refine (simplex_concludes hexact hdecides hp hbounds _ s).imp ?_
    rintro _ _ ⟨s, f, hstores, rfl, hstatus⟩ hoptimal
    obtain rfl := hstores.admits.unique hunbounded
    change s.status = .optimal at hoptimal
    rw [hstatus] at hoptimal
    unfold Parameter.Simplex.ending at hoptimal
    split_ifs at hoptimal
  · have hpresolve : (m.posed b k).stores.search.presolve ≠ 0 :=
      fun hk => (hbasis hk).2 (hbasis hk).1
    have hobstacle : Search.obstacle (m.posed b k).problem = .ok none :=
      (hm.obstacle_inner hr).trans (congrArg Except.ok hbounds)
    have htime' : ¬(m.posed b k).stores.search.timeLimit < Parameter.unlimited := htime
    exact Search.intopt_unbounded
      (c := ⟨host.watched, some ((m.posed b k).watch callback)⟩) htime'
      (Host.watched_isExact hexact) (Host.watched_decides hdecides) (hp.withBasic b) hbounds
      (hunbounded.withSolutions b _ _) hpresolve hobstacle fuel _

end

/-! ### Whole solves -/

theorem Search.Settles.agrees {code : ReturnCode} {status : SolutionStatus}
    (h : Search.Settles code status) : code.Agrees status := by
  cases h <;> exact ⟨rfl, by simp, by simp⟩

namespace Model

/-- A solve of the model goes through the nodes of a search. -/
structure Explored (m : Model Extended) : Prop where
  mixed : m.IsMixed
  fit : ¬m.Unfit
  bounded : ¬m.inner.problem.Admits .unbounded

/-- The termination status of a solve by what there is to find. -/
inductive Concludes (m : Model Extended) : TerminationStatus → Prop
  | unfit (h : m.Unfit) : m.Concludes .invalidModel
  | ended (h : ¬m.Unfit) (hmixed : ¬m.IsMixed) (f : Finding) (hf : m.problem.Admits f) :
      m.Concludes (m.method.algorithm.termination (m.ending f))
  | unbounded (h : ¬m.Unfit) (hmixed : m.IsMixed) (hf : m.inner.problem.Admits .unbounded) :
      m.Concludes .dualInfeasible
  | found (h : m.Explored) (x : ℕ → ℚ) (hx : m.inner.problem.Feasible x) : m.Concludes .optimal
  | exhausted (h : m.Explored) (hnone : ∀ x, ¬m.inner.problem.Feasible x) :
      m.Concludes .infeasible

variable {m : Model Extended}

/-- A reachable model with rational data. With integer variables no limit is set to the time, and
where nodes are gone through, this host takes no fraction for an integer. -/
structure WellPosed (m : Model Extended) (host : Host Extended σ) : Prop where
  reachable : m.Reachable
  rational : m.Rational
  unhurried : m.IsMixed → ¬m.stores.search.timeLimit < Parameter.unlimited
  decisive : m.Explored → ∃ τ, m.stores.search.integerTolerance = rat τ ∧
    host.IsDecisive (m.RowOf []) m.inner.problem τ

/-- Without a search the status is told by how the method ends. -/
theorem terminationStatus_settled {code : ReturnCode} {b : Solution Extended}
    {ray certificate : Option (List Extended)} {seconds : Extended} {f : Finding}
    (h : (code, b.status) = m.ending f) :
    (m.settled code b ray certificate seconds).terminationStatus =
      .ok (m.method.algorithm.termination (m.ending f)) := by
  have hsolution : (m.settled code b ray certificate seconds).solution = b :=
    Model.solution_place b rfl
  have hcode : (m.settled code b ray certificate seconds).last.code = code := rfl
  have hknown : b.status.verdict?.isSome = true := by
    rw [show b.status = (m.ending f).2 from congrArg Prod.snd h]
    exact m.known_ending f
  have hstatus := terminationStatus_eq (m := m.settled code b ray certificate seconds) rfl
    (hsolution.symm ▸ hknown)
  rwa [hsolution, algorithm_of_continuous rfl, hcode, h] at hstatus

/-- With a search it is told by the code and by the status of the point that is stored. -/
theorem terminationStatus_searched {b s : Solution Extended} {v : Watched Extended σ}
    {code : ReturnCode} {seconds : Extended} (h : s.status.verdict?.isSome = true) :
    (m.searched b v code s seconds).terminationStatus =
      .ok (Algorithm.search.termination (code, s.status)) := by
  have hsolution : (m.searched b v code s seconds).solution.status = s.status :=
    congrArg (·.status) (solution_of_search (m := m.searched b v code s seconds) rfl)
  have halgorithm : (m.searched b v code s seconds).algorithm = .search := algorithm_of_search rfl
  have hstatus := terminationStatus_eq (m := m.searched b v code s seconds) rfl (hsolution ▸ h)
  rwa [hsolution, halgorithm] at hstatus

end Model

/-- What is said after a search that came to its end. -/
theorem Search.Settles.termination {code : ReturnCode} {status : SolutionStatus}
    (h : Search.Settles code status) :
    Algorithm.search.termination (code, status) = .optimal ∧
        (status = .optimal ∨ status = .feasible) ∨
      Algorithm.search.termination (code, status) = .infeasible ∧ status = .noFeasible := by
  cases h with
  | optimal => exact .inl ⟨rfl, .inl rfl⟩
  | near => exact .inl ⟨rfl, .inr rfl⟩
  | none => exact .inr ⟨rfl, rfl⟩
  | unbegun => exact .inr ⟨rfl, rfl⟩

namespace Solving

variable {host : Host Extended σ} (hexact : host.IsExact) (hdecides : host.Decides)
  {m : Model Extended} {callback : Option (Callback Extended σ)} {fuel : ℕ}
  {session : Session Extended σ}

theorem attempt_refuses_unfit (hmixed : ¬m.IsMixed) (h : m.Unfit) :
    Task.Returns (m.attempt host) fun r => ∃ b, r.1 = m.place b ∧ b.status = .undefined ∧
      r.2 ≠ .done ∧ (m.method.algorithm.verdict r.2).1 = .invalidModel := by
  obtain hmixed' | ⟨-, hmethod, hbounds⟩ | ⟨-, hmethod, hempty⟩ := h
  · exact absurd hmixed' hmixed
  · obtain ⟨why, hwhy⟩ := Option.ne_none_iff_exists'.1 hbounds
    exact Model.attempt_refuses hwhy fun hinterior => absurd hinterior hmethod
  · unfold Model.attempt Model.place
    cases hm : m.method with
    | simplex => exact absurd hm hmethod
    | exact =>
      refine (exact_refuses_empty hempty _).imp ?_
      rintro _ rfl
      exact ⟨{}, rfl, rfl, by simp, rfl⟩
    | interior =>
      refine (interior_refuses hempty _).imp ?_
      rintro _ rfl
      exact ⟨{}, rfl, rfl, by simp, rfl⟩

/-- A model that is unfit is said to be invalid. -/
theorem optimize_refuses_unfit (hm : m.Sound) (hr : m.Rational) (h : m.Unfit) :
    Runs (optimize host callback fuel) ⟨session, m⟩
      (fun _ w' => w'.model.terminationStatus = .ok .invalidModel) fun _ => False := by
  by_cases hmixed : m.IsMixed
  · obtain ⟨-, hbounds⟩ | ⟨hunmixed, -⟩ | ⟨hunmixed, -⟩ := h
    · obtain ⟨why, hwhy⟩ := Option.ne_none_iff_exists'.1 hbounds
      exact (optimize_refuses_mixed (w := ⟨session, m⟩) hm.roundable hmixed hwhy
        ((hm.obstacle_inner hr).trans (congrArg Except.ok hwhy))).imp fun _ _ hw => hw.2.termination
    · exact absurd hmixed hunmixed
    · exact absurd hmixed hunmixed
  · exact (optimize_refuses_of (w := ⟨session, m⟩) hmixed (attempt_refuses_unfit hmixed h)).imp
      fun _ _ hw => hw.2.termination

include hexact hdecides

theorem optimize_concludes_continuous (h : m.WellPosed host) (hmixed : ¬m.IsMixed)
    (hfit : ¬m.Unfit) : Runs (optimize host callback fuel) ⟨session, m⟩
      (fun _ w' => ∃ t, w'.model.terminationStatus = .ok t ∧ m.Concludes t) fun _ => False := by
  have hm := h.reachable.sound
  have hp := hm.rational_problem h.rational hmixed
  refine (optimize_settles (w := ⟨session, m⟩) hmixed
    (S := fun code b => ∃ f, m.problem.Admits f ∧ (code, b.status) = m.ending f)
    ((attempt_ends hexact hdecides hp hmixed hfit).imp ?_)
    (fun _ b _ _ => unboundedRay_returns hexact hdecides (hp.place b).linear)
    fun _ b _ _ => infeasibilityRay_returns hexact hdecides (hp.place b)).imp ?_
  · rintro r ⟨b, f, hb, hadmits, hending⟩
    exact ⟨b, hb, f, hadmits, hending⟩
  · rintro _ w' ⟨code, b, ray, certificate, seconds, ⟨f, hadmits, hending⟩, -, -, hw'⟩
    rw [hw']
    exact ⟨_, Model.terminationStatus_settled hending, .ended hfit hmixed f hadmits⟩

theorem optimize_concludes_unbounded (h : m.WellPosed host) (hmixed : m.IsMixed)
    (hfit : ¬m.Unfit) (hunbounded : m.inner.problem.Admits .unbounded) :
    Runs (optimize host callback fuel) ⟨session, m⟩
      (fun _ w' => ∃ t, w'.model.terminationStatus = .ok t ∧ m.Concludes t) fun _ => False := by
  have hm := h.reachable.sound
  have hbounds := Model.uncrossed_of_fit hmixed hfit
  refine ((optimize_searches_of (w := ⟨session, m⟩) (e := False) hm.roundable hmixed ?_
    fun session => (search_unbounded hm h.rational hexact hdecides (h.unhurried hmixed) hbounds
      hunbounded fuel session).weaken fun _ => False.elim).imp ?_).weaken fun _ hfails => hfails.1
  · rintro code s v ⟨hcode, hs⟩
    rw [hcode, hs]
    exact ⟨rfl, by simp, by simp⟩
  · rintro _ w' ⟨b, v, code, s, seconds, ⟨rfl, hs⟩, hw'⟩
    rw [hw', Model.terminationStatus_searched (by rw [hs]; rfl), hs]
    exact ⟨_, rfl, .unbounded hfit hmixed hunbounded⟩

variable (hcallback : ∀ call, callback = some call → call.Looks)
include hcallback

theorem optimize_concludes_mixed (h : m.WellPosed host) (hexplored : m.Explored) :
    Runs (optimize host callback fuel) ⟨session, m⟩
      (fun _ w' => ∃ t, w'.model.terminationStatus = .ok t ∧ m.Concludes t)
      fun _ => ¬m.Exhaustible callback fuel := by
  have hm := h.reachable.sound
  obtain ⟨τ, hτ, hdecisive⟩ := h.decisive hexplored
  -- Which of two points is better does not matter here, so points are not ranked.
  have hsearch : LazySearch m host callback [] (fun _ => True)
      (m.lazyAim [] False (τ := τ) le_rfl zero_le_one) :=
    .of_decisive hm h.rational (by simp) hexact le_rfl zero_le_one hdecisive
      (fun call hcall => (hcallback call hcall).complies m) (fun _ _ => trivial) (by simp)
  have hbounds := Model.uncrossed_of_fit hexplored.mixed hexplored.fit
  have hsettles := hsearch.search_settles hτ False.elim rfl (h.unhurried hexplored.mixed) hexact
    hdecides hcallback hexplored.mixed hbounds hexplored.bounded fuel
  refine ((optimize_searches_of (w := ⟨session, m⟩) hm.roundable hexplored.mixed ?_
    hsettles).imp ?_).weaken fun _ hfails => hfails.1
  · rintro code s v ⟨hsettled, -⟩
    exact hsettled.agrees
  · rintro _ w' ⟨b, v, code, s, seconds, ⟨hsettled, houtcome⟩, hw'⟩
    rw [hw', Model.terminationStatus_searched hsettled.agrees.known]
    obtain ⟨hstatus, hfound⟩ | ⟨hstatus, hnone⟩ := hsettled.termination
    · obtain ⟨x, -, -, hx, -⟩ := houtcome.found hfound
      exact ⟨_, rfl, hstatus ▸ .found hexplored x hx⟩
    · refine ⟨_, rfl, hstatus ▸ .exhausted hexplored fun x hx => houtcome.none hnone x ?_⟩
      have hguarded : m.guarded [] = m.inner.problem := by
        rw [Model.guarded, List.map_nil, List.append_nil]
        rfl
      rwa [hguarded]

/-- Every solve says what there is to find. -/
theorem optimize_concludes (h : m.WellPosed host) :
    Runs (optimize host callback fuel) ⟨session, m⟩
      (fun _ w' => ∃ t, w'.model.terminationStatus = .ok t ∧ m.Concludes t)
      fun _ => m.Explored ∧ ¬m.Exhaustible callback fuel := by
  by_cases hfit : m.Unfit
  · refine ((optimize_refuses_unfit h.reachable.sound h.rational hfit).imp ?_).weaken
      fun _ => False.elim
    exact fun _ w' hstatus => ⟨_, hstatus, .unfit hfit⟩
  by_cases hmixed : m.IsMixed
  · by_cases hunbounded : m.inner.problem.Admits .unbounded
    · exact (optimize_concludes_unbounded hexact hdecides h hmixed hfit hunbounded).weaken
        fun _ => False.elim
    · have hexplored : m.Explored := ⟨hmixed, hfit, hunbounded⟩
      exact (optimize_concludes_mixed hexact hdecides hcallback h hexplored).weaken
        fun _ hfails => ⟨hexplored, hfails⟩
  · exact (optimize_concludes_continuous hexact hdecides h hmixed hfit).weaken fun _ => False.elim

end Solving

end MixedInteger
