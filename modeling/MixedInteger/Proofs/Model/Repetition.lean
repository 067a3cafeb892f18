import MixedInteger.Proofs.Model.CallbackSearch
import MixedInteger.Proofs.Model.Integral
import MixedInteger.Proofs.Search.Paired

/-! Solving again. Two solves stand side by side, of models that differ in what earlier solves
left in them. A solver that is a function of its arguments is asked the same in both, and both
leave the same. So a model that is solved again is left as the first solve left it, but for the
time that was taken. A callback must be a function of the event that it sees, and there must be
no time limit for searches. -/

namespace MixedInteger

variable {α σ β γ : Type}

/-! ### Worlds -/

/-- The solver is a function of its arguments, and the world remembers what it was asked. -/
structure Host.IsFunction (host : Host α σ) (asked : σ → List (Request α)) : Prop where
  answer : ∀ r w w', (host.solve r w').1 = (host.solve r w).1
  asked : ∀ r w, asked (host.solve r w).2 = asked w ++ [r]

/-- After these questions the same was asked in both worlds. -/
def Abreast (asked : σ → List (Request α)) (l l' : List (Request α)) (w w' : σ) : Prop :=
  ∃ rs, asked w = l ++ rs ∧ asked w' = l' ++ rs

theorem Host.IsFunction.respects {host : Host α σ} {asked : σ → List (Request α)}
    (h : host.IsFunction asked) (l l' : List (Request α)) :
    host.Respects (Abreast asked l l') := by
  rintro r w w' ⟨rs, hw, hw'⟩
  refine ⟨h.answer r w w', rs ++ [r], ?_, ?_⟩
  · rw [h.asked, hw, List.append_assoc]
  · rw [h.asked, hw', List.append_assoc]

/-- Related worlds that show the same bound and gap. -/
structure Watched.Agree (R : σ → σ → Prop) (w w' : Watched α σ) : Prop where
  world : R w.world w'.world
  bound : w'.bound = w.bound
  gap : w'.gap = w.gap

/-- Related worlds that show the same bound and gap, or still those that they began with. -/
structure Watched.Begun (R : σ → σ → Prop) (b g b' g' : α) (w w' : Watched α σ) : Prop where
  world : R w.world w'.world
  shown : w'.bound = w.bound ∧ w'.gap = w.gap ∨
    (w.bound = b ∧ w.gap = g) ∧ w'.bound = b' ∧ w'.gap = g'

theorem Watched.Agree.begun {R : σ → σ → Prop} {b g b' g' : α} {w w' : Watched α σ}
    (h : Agree R w w') : Begun R b g b' g' w w' :=
  ⟨h.world, .inl ⟨h.bound, h.gap⟩⟩

section
variable {host : Host α σ} {R : σ → σ → Prop} (h : host.Respects R)
include h

theorem Host.Respects.agree : host.watched.Respects (Watched.Agree R) := fun r w w' hw =>
  ⟨(h r w.world w'.world hw.world).1, (h r w.world w'.world hw.world).2, hw.bound, hw.gap⟩

theorem Host.Respects.begun (b g b' g' : α) :
    host.watched.Respects (Watched.Begun R b g b' g') := fun r w w' hw =>
  ⟨(h r w.world w'.world hw.world).1, (h r w.world w'.world hw.world).2, hw.shown⟩

end

variable [Scalar α]

/-! ### Listeners -/

/-- The model with the integer solution, the return code and the time of another solve. -/
def Model.aged (m : Model α) (i : Solution α) (r : SolveRecord α) : Model α :=
  { m with
    problem := m.problem.withInteger i
    last := { m.last with code := r.code, bySearch := r.bySearch, seconds := r.seconds } }

/-- What the callback does is a function of the event it sees. It neither reads what earlier
solves left in the model nor the time at which the search began; whatever it asks the solver is
asked again, and it sets no time limit. -/
def Callback.Steady (call : Callback α σ) (asked : σ → List (Request α)) : Prop :=
  ∀ l l' m i r, SearchTask.Pairs (Abreast asked l l') (call { model := m })
    (call { model := m.aged i r }) Eq

namespace Model

/-- The model with what another solve has left, its bound and gap as well. -/
def resumed (m : Model α) (i : Solution α) (r : SolveRecord α) : Model α :=
  { m with
    problem := m.problem.withInteger i
    last := { r with
      called := m.last.called, ray := m.last.ray, certificate := m.last.certificate } }

/-- The model with other solutions, and another record of solves. -/
def withRecord (m : Model α) (b i n : Solution α) (r : SolveRecord α) : Model α :=
  { m with problem := m.problem.withSolutions b i n, last := r }

variable (m : Model α) (i : Solution α) (r : SolveRecord α) {R : σ → σ → Prop}
  {callback : Option (Callback α σ)}
  (hcall : ∀ call ∈ callback, ∀ m i r, SearchTask.Pairs R (call { model := m })
    (call { model := m.aged i r }) Eq)
include hcall

/-- A callback that shows bound and gap to models that agree. -/
theorem hear_pairs {call : Callback α σ} (hmem : call ∈ callback) :
    SearchTask.Pairs (Watched.Agree R) (m.hear call) ((m.resumed i r).hear call) Eq := by
  intro s s' hs b t hrun
  have hmodel : (m.resumed i r).withWatched s'.session.world =
      (m.withWatched s.session.world).aged i r := by
    unfold withWatched
    rw [hs.world.bound, hs.world.gap]
    rfl
  have hscenes : Scene.Like R ⟨s.session.unwatched, s.tree⟩ ⟨s'.session.unwatched, s'.tree⟩ :=
    ⟨hs.world.world, hs.tree, hs.unlimited⟩
  have hpair := hcall call hmem (m.withWatched s.session.world) i r _ _ hscenes
  rw [← hmodel] at hpair
  unfold hear at hrun ⊢
  dsimp only at hrun ⊢
  cases hfirst : call { model := m.withWatched s.session.world } ⟨s.session.unwatched, s.tree⟩ with
  | error e u =>
    rw [hfirst] at hrun
    cases hrun
  | ok _ u =>
    rw [hfirst] at hrun
    cases hrun
    obtain ⟨_, u', hsecond, -, hu⟩ := hpair () u hfirst
    rw [hsecond]
    exact ⟨(), _, rfl, rfl, ⟨hu.world, hs.world.bound, hs.world.gap⟩, hu.tree, hu.unlimited⟩

theorem respond_pairs : SearchTask.Pairs (Watched.Agree R) (m.respond callback)
    ((m.resumed i r).respond callback) Eq := by
  cases hcallback : callback with
  | none => exact .pure rfl
  | some call => exact m.hear_pairs i r hcall hcallback

theorem watch_pairs : SearchTask.Pairs (Watched.Agree R) (m.watch callback)
    ((m.resumed i r).watch callback) Eq := by
  have hheard := m.respond_pairs i r hcall
  rw [watch_eq, watch_eq]
  refine .tree fun t j began _ => ?_
  have hbest : (t.aged j began).best = t.best := rfl
  dsimp only
  rw [hbest]
  cases t.best with
  | none => exact hheard
  | some n =>
    refine .next ?_ fun _ => hheard
    rintro s s' hs _ _ ⟨⟩
    exact ⟨(), _, rfl, rfl, ⟨hs.world.world, rfl, rfl⟩, hs.tree, hs.unlimited⟩

/-- At a tree with nodes a first event shows its bound in both worlds. -/
theorem watch_first {b g b' g' : α} {s s' : Scene α (Watched α σ)}
    (hs : Scene.Like (Watched.Begun R b g b' g') s s') (hactive : s.tree.active ≠ []) :
    Matches (m.watch callback) ((m.resumed i r).watch callback) s s'
      fun _ t _ t' => Scene.Like (Watched.Agree R) t t' := by
  obtain ⟨session, t⟩ := s
  obtain ⟨session', t'⟩ := s'
  obtain ⟨j, began, rfl⟩ := hs.tree
  obtain ⟨n, hbest⟩ : ∃ n, t.best = some n := by
    obtain ⟨n, ns, hns⟩ := List.exists_cons_of_ne_nil hactive
    exact ⟨_, by unfold Tree.best; rw [hns]; rfl⟩
  have hbest' : (t.aged j began).best = some n := hbest
  have hnoted : Scene.Like (Watched.Agree R)
      ⟨{ session with world := { session.world with bound := n.bound, gap := t.gap } }, t⟩
      ⟨{ session' with world := { session'.world with bound := n.bound, gap := t.gap } },
        t.aged j began⟩ :=
    ⟨⟨hs.world.world, rfl, rfl⟩, ⟨j, began, rfl⟩, hs.unlimited⟩
  unfold watch
  refine .step rfl rfl ?_
  dsimp only at hbest ⊢
  rw [hbest, hbest']
  refine .step rfl rfl ?_
  cases hcallback : callback with
  | none => exact .pure hnoted
  | some call =>
    exact (m.hear_pairs i r hcall hcallback _ _ hnoted).imp fun _ _ _ _ h => h.2

end Model

/-! ### What a solve leaves -/

/-- The solutions, the bound and gap, and the code that a solve leaves in a model, where it leaves
any. -/
structure Leavings (α : Type) [Scalar α] where
  basic : Option (Solution α) := none
  interior : Option (Solution α) := none
  integer : Option (Solution α) := none
  noted : Option (α × α) := none
  code : ReturnCode
  bySearch : Bool

/-- What a search leaves, and the basis that was found before it. -/
def Leavings.ofSearch (b : Option (Solution α)) (s : Solution α) (noted : Option (α × α))
    (code : ReturnCode) : Leavings α :=
  { basic := b, integer := some s, noted := noted, code := code, bySearch := true }

namespace Model

def left (m : Model α) (l : Leavings α) : Model α :=
  { m with
    problem := m.problem.withSolutions (l.basic.getD m.problem.basic)
      (l.interior.getD m.problem.interior) (l.integer.getD m.problem.integer)
    last := { m.last with
      code := l.code
      bySearch := l.bySearch
      objectiveBound := (l.noted.map (·.1)).getD m.last.objectiveBound
      relativeGap := (l.noted.map (·.2)).getD m.last.relativeGap } }

/-- The model when a solve that leaves this has ended. -/
def ended (m : Model α) (l : Leavings α) (ray certificate : Option (List α)) (seconds : α) :
    Model α := ((m.begun.left l).certified ray certificate).timed seconds

section
variable {m m' : Model α} (hsolution : m'.solution = m.solution) (hmethod : m'.method = m.method)
  (hsearch : m'.last.bySearch = m.last.bySearch)
include hsolution hmethod hsearch

/-- Statuses are read from the solution of the last solve and its algorithm. -/
theorem primalStatus_congr : m'.primalStatus = m.primalStatus := by
  unfold primalStatus solutionVerdict mayHaveRays algorithm
  rw [hsolution, hmethod, hsearch]

theorem dualStatus_congr : m'.dualStatus = m.dualStatus := by
  unfold dualStatus solutionVerdict mayHaveRays algorithm
  rw [hsolution, hmethod, hsearch]

theorem terminationStatus_congr (hcalled : m'.last.called = m.last.called)
    (hcode : m'.last.code = m.last.code) : m'.terminationStatus = m.terminationStatus := by
  unfold terminationStatus verdict solutionVerdict algorithm
  rw [hsolution, hmethod, hsearch, hcalled, hcode]

end

/-- A solve that leaves the same again changes nothing but the time. -/
theorem ended_ended (m : Model α) (l : Leavings α) (ray certificate : Option (List α))
    (seconds seconds' : α) : (m.ended l ray certificate seconds).ended l ray certificate seconds' =
      (m.ended l ray certificate seconds).timed seconds' := by
  obtain ⟨_ | b, _ | i, _ | n, _ | v, code, bySearch⟩ := l <;> rfl

end Model

/-! ### Workbenches -/

/-- Workbenches with these models, in related worlds. -/
structure Workbench.Hold (R : σ → σ → Prop) (m m' : Model α) (w w' : Workbench α σ) : Prop where
  left : w.model = m
  right : w'.model = m'
  world : R w.session.world w'.session.world

namespace Solving

open Workbench (Hold)

variable {R : σ → σ → Prop} {m m' : Model α} {w w' : Workbench α σ} {δ ζ : Type}
  {Q : δ → Workbench α σ → ζ → Workbench α σ → Prop}

/-- Tasks leave the models alone. -/
theorem ofTask_matches {x : Task α σ β} {y : Task α σ γ} {P : β → γ → Prop}
    (hw : Hold R m m' w w') (h : Task.Pairs R x y P) :
    Matches (ofTask x) (ofTask y) w w' fun b t c t' => P b c ∧ Hold R m m' t t' := by
  intro b t hrun
  unfold ofTask at hrun ⊢
  cases hfirst : x w.session with
  | error e u =>
    rw [hfirst] at hrun
    cases hrun
  | ok b u =>
    rw [hfirst] at hrun
    cases hrun
    obtain ⟨c, u', hsecond, hP, hu⟩ := h _ _ hw.world b u hfirst
    rw [hsecond]
    exact ⟨c, _, rfl, hP, hw.left, hw.right, hu⟩

theorem modifyModel_matches (hw : Hold R m m' w w') (f g : Model α → Model α) :
    Matches (modifyModel f) (modifyModel g) w w' fun _ t _ t' => Hold R (f m) (g m') t t' := by
  rintro _ _ ⟨⟩
  exact ⟨(), _, rfl, congrArg f hw.left, congrArg g hw.right, hw.world⟩

theorem modifyLast_matches (hw : Hold R m m' w w') (f g : SolveRecord α → SolveRecord α) :
    Matches (modifyLast f) (modifyLast g) w w' fun _ t _ t' =>
      Hold R { m with last := f m.last } { m' with last := g m'.last } t t' :=
  modifyModel_matches hw _ _

theorem model_matches (hw : Hold R m m' w w') {f : Model α → Solving α σ δ}
    {g : Model α → Solving α σ ζ} (h : Matches (f m) (g m') w w' Q) :
    Matches (model >>= f) (model >>= g) w w' Q := by
  refine .step rfl rfl ?_
  rw [hw.left, hw.right]
  exact h

/-- An algorithm writes the same solution to both problems. -/
theorem engage_matches (hw : Hold R m m' w w')
    {run run' : Problem α → Task α σ (Problem α × ReturnCode)}
    {write : Problem α → Solution α → Problem α}
    (h : Task.Pairs R (run m.problem) (run' m'.problem) (SameEnd write m.problem m'.problem)) :
    Matches (engage run) (engage run') w w' fun c t c' t' => c = c' ∧ ∃ s,
      Hold R { m with problem := write m.problem s } { m' with problem := write m'.problem s }
        t t' := by
  unfold engage
  refine model_matches hw ((ofTask_matches hw h).bind ?_)
  rintro ⟨_, code⟩ t _ t' ⟨⟨s, rfl, rfl⟩, ht⟩
  refine (modifyModel_matches ht _ _).bind fun _ u _ u' hu => ?_
  exact .pure ⟨rfl, s, hu⟩

/-! ### Searches -/

/-- The columns of a model with rounded bounds become again what they were. -/
theorem restore_run [LawfulScalar α] (h : Roundable m)
    (hw : w.model.problem.columns = m.innerColumns) (presolve : Int) :
    restore ((oldBounds m.vars.values m.problem.columns).filterMap id) presolve w =
      .ok () ⟨w.session, (w.model.withColumns m.problem.columns).withPresolve presolve⟩ := by
  rw [restore, bind_run, ofModelling, restoreBounds_run h hw]
  rfl

variable {host : Host α σ} {callback : Option (Callback α σ)} (fuel : Nat)

section
variable (hhost : host.Respects R) (hcall : ∀ call ∈ callback, ∀ m i r, SearchTask.Pairs R
    (call { model := m }) (call { model := m.aged i r }) Eq)
  (hlimit : Parameter.unlimited ≤ m.stores.search.timeLimit) (i : Solution α) (r : SolveRecord α)
include hhost hcall hlimit

theorem explore_matches (hw : Hold R m (m.resumed i r) w w') :
    Matches (explore host callback fuel) (explore host callback fuel) w w' fun _ t _ t' =>
      ∃ s noted code, Hold R (m.left (.ofSearch none s noted code))
        ((m.resumed i r).left (.ofSearch none s noted code)) t t' := by
  have hpairs := Search.intopt_pairs hhost.agree (m.watch_pairs i r hcall)
    (hhost.begun m.last.objectiveBound m.last.relativeGap r.objectiveBound r.relativeGap)
    (fun _ _ h => h.begun) (fun s s' hs => m.watch_first i r hcall hs) hlimit fuel m.problem i
  unfold explore
  refine model_matches hw (Matches.bind (Q := fun code t code' t' => code = code' ∧
    ∃ s, ∃ v v' : Watched α σ, Watched.Begun R m.last.objectiveBound m.last.relativeGap
      r.objectiveBound r.relativeGap v v' ∧
      Hold R { m.withWatched v with problem := m.problem.withInteger s }
        { (m.resumed i r).withWatched v' with problem := m.problem.withInteger s } t t') ?_ ?_)
  · have hwrites := intopt_writes m.problem
      (⟨host.watched, some (m.watch callback)⟩ : Search.Company α (Watched α σ))
      m.stores.search fuel
      (w.session.watched m.last.objectiveBound m.last.relativeGap) trivial
    intro code t hrun
    unfold Runs at hwrites
    dsimp only at hrun hwrites ⊢
    cases hfirst : intopt ⟨host.watched, some (m.watch callback)⟩ m.stores.search fuel m.problem
        (w.session.watched m.last.objectiveBound m.last.relativeGap) with
    | error e u =>
      rw [hfirst] at hrun
      cases hrun
    | ok a u =>
      rw [hfirst] at hrun hwrites
      obtain ⟨⟨s, hs⟩, -⟩ := hwrites
      cases hrun
      obtain ⟨_, u', hsecond, rfl, hu⟩ := hpairs _ (w'.session.watched r.objectiveBound
        r.relativeGap) ⟨hw.world, .inr ⟨⟨rfl, rfl⟩, rfl, rfl⟩⟩ a u hfirst
      have hsecond : intopt ⟨host.watched, some ((m.resumed i r).watch callback)⟩
          (m.resumed i r).stores.search fuel (m.resumed i r).problem
          (w'.session.watched (m.resumed i r).last.objectiveBound
            (m.resumed i r).last.relativeGap) = .ok a u' := hsecond
      rw [hsecond]
      refine ⟨_, _, rfl, rfl, s, u.world, u'.world, hu, ?_, ?_, hu.world⟩
      · rw [hw.left, hs]
        rfl
      · rw [hw.right, hs]
        rfl
  · rintro code t _ t' ⟨rfl, s, v, v', hv, ht⟩
    refine (modifyLast_matches ht _ _).imp fun _ u _ u' hu => ?_
    obtain ⟨hb, hg⟩ | ⟨⟨hb, hg⟩, hb', hg'⟩ := hv.shown
    · refine ⟨s, some (v.bound, v.gap), code, hu.left, ?_, hu.world⟩
      rw [hu.right]
      unfold Model.withWatched
      rw [hb, hg]
      rfl
    · refine ⟨s, none, code, ?_, ?_, hu.world⟩
      · rw [hu.left]
        unfold Model.withWatched
        rw [hb, hg]
        rfl
      · rw [hu.right]
        unfold Model.withWatched
        rw [hb', hg']
        rfl

/-- The second model may have another basis, unless the search presolves and so makes none. -/
theorem search_matches {b : Solution α}
    (hb : m.stores.search.presolve ≠ 0 → b = m.problem.basic)
    (hw : Hold R m ((m.resumed i r).withBasis b) w w') :
    Matches (search host callback fuel) (search host callback fuel) w w' fun _ t _ t' =>
      ∃ b k s noted code, (m.stores.search.presolve ≠ 0 → b = m.problem.basic) ∧
        Hold R ((m.left (.ofSearch (some b) s noted code)).withPresolve k)
          (((m.resumed i r).left (.ofSearch (some b) s noted code)).withPresolve k) t t' := by
  have hrest : ∀ b k (v v' : Workbench α σ), (m.stores.search.presolve ≠ 0 → b = m.problem.basic) →
      Hold R ((m.withBasis b).withPresolve k) (((m.withBasis b).withPresolve k).resumed i r) v v' →
      Matches (explore host callback fuel) (explore host callback fuel) v v' fun _ t _ t' =>
        ∃ b k s noted code, (m.stores.search.presolve ≠ 0 → b = m.problem.basic) ∧
          Hold R ((m.left (.ofSearch (some b) s noted code)).withPresolve k)
            (((m.resumed i r).left (.ofSearch (some b) s noted code)).withPresolve k) t t' := by
    intro b k v v' hb hv
    have hexplore := explore_matches fuel hhost hcall (by exact hlimit) i r hv
    refine hexplore.imp ?_
    rintro _ t _ t' ⟨s, noted, code, ht⟩
    exact ⟨b, k, s, noted, code, hb, ht⟩
  unfold search
  refine model_matches hw ?_
  by_cases hpresolve : m.stores.search.presolve = 0
  · rw [if_pos hpresolve, if_pos (by exact hpresolve)]
    refine model_matches hw ((engage_matches hw (simplex_pairs m.problem _ _ _ _ hhost)).bind ?_)
    rintro code t _ t' ⟨rfl, b, ht⟩
    refine model_matches ht (.ite ?_ ?_)
    · refine (modifyModel_matches ht _ _).bind fun _ u _ u' hu => ?_
      exact hrest b 1 u u' (fun h => absurd hpresolve h) hu
    · exact hrest b m.stores.search.presolve t t' (fun h => absurd hpresolve h) ht
  · rw [if_neg hpresolve, if_neg (by exact hpresolve)]
    cases hb hpresolve
    exact hrest _ m.stores.search.presolve w w' (fun _ => rfl) hw

/-- Bounds and presolving are put back in both models. -/
theorem solveInteger_matches [LawfulScalar α] (hround : Roundable m) {b : Solution α}
    (hb : m.stores.search.presolve ≠ 0 → b = m.problem.basic)
    (hw : Hold R m ((m.resumed i r).withBasis b) w w') :
    Matches (solveInteger host callback fuel) (solveInteger host callback fuel) w w' fun _ t _ t' =>
      ∃ b s noted code, (m.stores.search.presolve ≠ 0 → b = m.problem.basic) ∧
        Hold R (m.left (.ofSearch (some b) s noted code))
          ((m.resumed i r).left (.ofSearch (some b) s noted code)) t t' := by
  let inner : Model α := m.withColumns m.innerColumns
  let old := (oldBounds m.vars.values m.problem.columns).filterMap id
  have hrounded : ofModelling roundAllBounds w = .ok old { w with model := inner } := by
    rw [ofModelling, hw.left, roundAllBounds_run hround]
  have hrounded' : ofModelling roundAllBounds w' =
      .ok old { w' with model := (inner.resumed i r).withBasis b } := by
    rw [ofModelling, hw.right,
      roundAllBounds_run (m := (m.resumed i r).withBasis b) ⟨hround.numbered, hround.settled⟩]
    rfl
  unfold solveInteger
  refine .step hrounded hrounded' (.step rfl rfl ?_)
  have hinner : Hold R inner ((inner.resumed i r).withBasis b) { w with model := inner }
      { w' with model := (inner.resumed i r).withBasis b } := ⟨rfl, rfl, hw.world⟩
  have hsearch := search_matches fuel hhost hcall (by exact hlimit) i r (by exact hb) hinner
  refine Matches.bind (Q := fun o t o' t' => o = .ok () → o' = .ok () ∧
    ∃ b k s noted code, (m.stores.search.presolve ≠ 0 → b = m.problem.basic) ∧
      Hold R ((inner.left (.ofSearch (some b) s noted code)).withPresolve k)
        (((inner.resumed i r).left (.ofSearch (some b) s noted code)).withPresolve k) t t') ?_ ?_
  · intro o t hrun
    dsimp only at hrun ⊢
    cases hfirst : search host callback fuel { w with model := inner } with
    | error e u =>
      rw [hfirst] at hrun
      cases hrun
      cases search host callback fuel { w' with model := (inner.resumed i r).withBasis b } with
      | error e' u' => exact ⟨_, u', rfl, fun hok => by cases hok⟩
      | ok _ u' => exact ⟨_, u', rfl, fun hok => by cases hok⟩
    | ok _ u =>
      obtain ⟨_, u', hsecond, hu⟩ := hsearch () u hfirst
      rw [hfirst] at hrun
      rw [hsecond]
      cases hrun
      exact ⟨_, u', rfl, fun _ => ⟨rfl, hu⟩⟩
  · rintro (e | _) t o' t' ho
    · -- the first solve fails
      intro _ u hrun
      rw [bind_run] at hrun
      cases hrestore : restore old inner.stores.search.presolve t <;> rw [hrestore] at hrun <;>
        cases hrun
    · obtain ⟨rfl, b, k, s, noted, code, hb, ht⟩ := ho rfl
      have hback : restore old inner.stores.search.presolve t =
          .ok () ⟨t.session, m.left (.ofSearch (some b) s noted code)⟩ := by
        rw [restore_run hround (by rw [ht.left]; rfl), ht.left]
        rfl
      have hback' : restore old inner.stores.search.presolve t' =
          .ok () ⟨t'.session, (m.resumed i r).left (.ofSearch (some b) s noted code)⟩ := by
        rw [restore_run hround (by rw [ht.right]; rfl), ht.right]
        rfl
      exact .step hback hback' (.pure ⟨b, s, noted, code, hb, rfl, rfl, ht.world⟩)

end

/-! ### Continuous methods -/

section
variable (m : Model α) (s : Solution α) (code : ReturnCode)

/-- What the simplex methods leave is the solution of the solve. -/
theorem solution_of_basic (hm : m.method ≠ .interior) :
    (m.left { basic := some s, code := code, bySearch := false }).solution = s := by
  unfold Model.solution Model.algorithm
  dsimp only [Model.left]
  cases hmethod : m.method with
  | interior => exact absurd hmethod hm
  | _ => rfl

theorem solution_of_interior (hm : m.method = .interior) :
    (m.left { interior := some s, code := code, bySearch := false }).solution = s := by
  unfold Model.solution Model.algorithm
  dsimp only [Model.left]
  rw [hm]
  rfl

end

section
variable (hhost : host.Respects R) (b i n : Solution α) (r : SolveRecord α)
include hhost

theorem solveContinuous_matches (hw : Hold R m (m.withRecord b i n r) w w') :
    Matches (solveContinuous host) (solveContinuous host) w w' fun _ t _ t' =>
      ∃ l : Leavings α, Hold R (m.left l) ((m.withRecord b i n r).left l) t t' ∧
        ((m.withRecord b i n r).left l).solution = (m.left l).solution := by
  have hsame : (m.withRecord b i n r).method = m.method := rfl
  rw [solveContinuous_eq]
  refine (modifyLast_matches hw _ _).bind fun _ v _ v' hv => model_matches hv ?_
  dsimp only
  rw [hsame]
  have hbasic : m.method ≠ .interior → ∀ {run run' : Problem α → Task α σ (Problem α × ReturnCode)},
      Task.Pairs R (run m.problem) (run' (m.problem.withSolutions b i n))
        (SameEnd .withBasic m.problem (m.problem.withSolutions b i n)) →
      Matches (do
          let code ← engage run
          modifyLast fun r => { r with code := code }) (do
          let code ← engage run'
          modifyLast fun r => { r with code := code }) v v' fun _ t _ t' =>
        ∃ l : Leavings α, Hold R (m.left l) ((m.withRecord b i n r).left l) t t' ∧
          ((m.withRecord b i n r).left l).solution = (m.left l).solution := by
    intro hm run run' hrun
    refine (engage_matches hv hrun).bind ?_
    rintro code t _ t' ⟨rfl, s, ht⟩
    refine (modifyLast_matches ht _ _).imp fun _ u _ u' hu => ?_
    refine ⟨{ basic := some s, code := code, bySearch := false }, hu, ?_⟩
    rw [solution_of_basic m s code hm]
    exact solution_of_basic (m.withRecord b i n r) s code hm
  cases hm : m.method with
  | simplex => exact hbasic (by simp [hm]) (simplex_pairs m.problem b i n _ hhost)
  | exact => exact hbasic (by simp [hm]) (exact_pairs m.problem b i n _ hhost)
  | interior =>
    refine (engage_matches hv (interior_pairs m.problem b i n hhost _)).bind ?_
    rintro code t _ t' ⟨rfl, s, ht⟩
    refine (modifyLast_matches ht _ _).imp fun _ u _ u' hu => ?_
    refine ⟨{ interior := some s, code := code, bySearch := false }, hu, ?_⟩
    rw [solution_of_interior m s code hm]
    exact solution_of_interior (m.withRecord b i n r) s code hm

end

/-! ### Whole solves -/

/-- The second half of `certify`. -/
def certifyDual (host : Host α σ) : Solving α σ Unit := do
  if (← ofExcept (← model).dualStatus) = .certificate then
    let ray ← ofTask (infeasibilityRay host (← model).problem)
    modifyLast fun r => { r with certificate := some ray }

/-- What `optimize` does when a method has come to its end. -/
def finish (host : Host α σ) (start : α) : Solving α σ Unit := do
  certify host
  let seconds := (← ofTask (Task.now host)) - start
  modifyLast fun r => { r with seconds := seconds }
  let status ← ofExcept (← model).terminationStatus
  ofTask (Task.tell (.finished status (← model).last.code seconds))

section
variable (hhost : host.Respects R) (b i n : Solution α) (r : SolveRecord α)
include hhost

theorem certify_matches (hp : (m.withRecord b i n r).primalStatus = m.primalStatus)
    (hd : (m.withRecord b i n r).dualStatus = m.dualStatus) (hbare : Bare m)
    (hbare' : Bare (m.withRecord b i n r)) (hw : Hold R m (m.withRecord b i n r) w w') :
    Matches (certify host) (certify host) w w' fun _ t _ t' => ∃ ray certificate,
      Hold R (m.certified ray certificate) ((m.withRecord b i n r).certified ray certificate)
        t t' := by
  have hdual : ∀ ray (v v' : Workbench α σ), Hold R (m.certified ray none)
      ((m.withRecord b i n r).certified ray none) v v' →
      Matches (certifyDual host) (certifyDual host) v v'
        fun _ t _ t' => ∃ ray certificate, Hold R (m.certified ray certificate)
          ((m.withRecord b i n r).certified ray certificate) t t' := by
    intro ray v v' hv
    have hd' : ((m.withRecord b i n r).certified ray none).dualStatus =
      (m.certified ray none).dualStatus := hd
    refine model_matches hv ?_
    rw [hd']
    cases (m.certified ray none).dualStatus with
    | error e => exact .throw _ _
    | ok d =>
      refine .step rfl rfl (.ite ?_ (.pure ⟨ray, none, hv⟩))
      refine model_matches hv ?_
      refine (ofTask_matches hv (infeasibilityRay_pairs m.problem b i n hhost)).bind ?_
      rintro y t _ t' ⟨rfl, ht⟩
      exact (modifyLast_matches ht _ _).imp fun _ u _ u' hu => ⟨ray, some y, hu⟩
  unfold certify
  refine model_matches hw ?_
  rw [hp]
  cases m.primalStatus with
  | error e => exact .throw _ _
  | ok a =>
    refine .step rfl rfl (.ite ?_ (hdual none w w' ?_))
    · refine model_matches hw ?_
      refine (ofTask_matches hw (unboundedRay_pairs m.problem b i n hhost)).bind ?_
      rintro ray t _ t' ⟨rfl, ht⟩
      refine (modifyLast_matches ht _ _).bind fun _ u _ u' hu => hdual (some ray) u u' ?_
      refine ⟨hu.left.trans ?_, hu.right.trans ?_, hu.world⟩
      · rw [Model.certified, ← hbare.certificate]
      · rw [Model.certified, ← hbare'.certificate]
    · rw [hbare.certified, hbare'.certified]
      exact hw

theorem finish_matches {l : Leavings α}
    (hsolution : ((m.withRecord b i n r).begun.left l).solution = (m.begun.left l).solution)
    (hw : Hold R (m.begun.left l) ((m.withRecord b i n r).begun.left l) w w') (start start' : α) :
    Matches (finish host start) (finish host start') w w' fun _ t _ t' =>
      ∃ ray certificate seconds seconds', Hold R (m.ended l ray certificate seconds)
        ((m.withRecord b i n r).ended l ray certificate seconds') t t' := by
  have hp := Model.primalStatus_congr hsolution rfl rfl
  have hd := Model.dualStatus_congr hsolution rfl rfl
  refine (certify_matches (m := m.begun.left l) hhost (l.basic.getD b) (l.interior.getD i)
    (l.integer.getD n) ((m.withRecord b i n r).begun.left l).last hp hd ⟨rfl, rfl⟩ ⟨rfl, rfl⟩
    hw).bind ?_
  rintro _ t _ t' ⟨ray, certificate, ht⟩
  refine (ofTask_matches ht (.now host)).bind fun now v now' v' hv => ?_
  refine (modifyLast_matches hv.2 _ _).bind fun _ u _ u' hu => ?_
  have hend : Hold R (m.ended l ray certificate (now - start))
      ((m.withRecord b i n r).ended l ray certificate (now' - start')) u u' := hu
  have hstatus : ((m.withRecord b i n r).ended l ray certificate (now' - start')).terminationStatus
      = (m.ended l ray certificate (now - start)).terminationStatus :=
    Model.terminationStatus_congr hsolution rfl rfl rfl rfl
  refine model_matches hend ?_
  rw [hstatus]
  cases (m.ended l ray certificate (now - start)).terminationStatus with
  | error e => exact .throw _ _
  | ok status =>
    refine .step rfl rfl (model_matches hend ((ofTask_matches hend (.tell _ _)).imp ?_))
    exact fun _ t _ t' ht => ⟨ray, certificate, _, _, ht.2⟩

end

/-- What two solves of a model and of another one with other solutions and another record need
for leaving the same in both. -/
structure Resumable (m : Model α) (b i : Solution α) : Prop where
  basic : m.IsMixed → m.stores.search.presolve ≠ 0 → b = m.problem.basic
  interior : m.IsMixed → i = m.problem.interior

section
variable [LawfulScalar α] (hround : Roundable m) (hhost : host.Respects R)
  (hcall : ∀ call ∈ callback, ∀ m i r, SearchTask.Pairs R
    (call { model := m }) (call { model := m.aged i r }) Eq)
  (hlimit : Parameter.unlimited ≤ m.stores.search.timeLimit)
include hround hhost hcall hlimit

theorem optimize_matches {b i n : Solution α} {r : SolveRecord α} (hm : Resumable m b i)
    (hw : Hold R m (m.withRecord b i n r) w w') :
    Matches (optimize host callback fuel) (optimize host callback fuel) w w' fun _ t _ t' =>
      ∃ l ray certificate seconds seconds',
        Resumable m (l.basic.getD m.problem.basic) (l.interior.getD m.problem.interior) ∧
        Hold R (m.ended l ray certificate seconds)
          ((m.withRecord b i n r).ended l ray certificate seconds') t t' := by
  unfold optimize
  refine (ofTask_matches hw (.now host)).bind fun start v start' v' hv => ?_
  refine (modifyLast_matches hv.2 _ _).bind fun _ v _ v' hv => ?_
  have hv : Hold R m.begun (m.withRecord b i n r).begun v v' := hv
  refine model_matches hv ?_
  dsimp only
  by_cases hmixed : m.IsMixed
  · rw [if_pos (by exact hmixed), if_pos (by exact hmixed)]
    refine (ofTask_matches hv (.tell _ _)).bind fun _ v _ v' hv => ?_
    have hother : (m.withRecord b i n r).begun = (m.begun.resumed n r).withBasis b := by
      rw [hm.interior hmixed]
      rfl
    rw [hother] at hv
    refine (solveInteger_matches (m := m.begun) fuel hhost hcall hlimit n r
      ⟨hround.numbered, hround.settled⟩ (hm.basic hmixed) hv.2).bind ?_
    rintro _ t _ t' ⟨b', s, noted, code, hb', ht⟩
    have ht : Hold R (m.begun.left (.ofSearch (some b') s noted code))
        ((m.withRecord b i n r).begun.left (.ofSearch (some b') s noted code)) t t' := by
      rw [hother]
      exact ht
    refine (finish_matches (m := m) hhost b i n r rfl ht start start').imp ?_
    rintro _ u _ u' ⟨ray, certificate, seconds, seconds', hu⟩
    exact ⟨.ofSearch (some b') s noted code, ray, certificate, seconds, seconds',
      ⟨fun _ => hb', fun _ => rfl⟩, hu⟩
  · rw [if_neg (by exact hmixed), if_neg (by exact hmixed)]
    refine (ofTask_matches hv (.tell _ _)).bind fun _ v _ v' hv => ?_
    refine (solveContinuous_matches (m := m.begun) hhost b i n
      (m.withRecord b i n r).begun.last hv.2).bind ?_
    rintro _ t _ t' ⟨l, ht, hsolution⟩
    refine (finish_matches (m := m) hhost b i n r hsolution ht start start').imp ?_
    rintro _ u _ u' ⟨ray, certificate, seconds, seconds', hu⟩
    exact ⟨l, ray, certificate, seconds, seconds', ⟨fun h => absurd h hmixed,
      fun h => absurd h hmixed⟩, hu⟩

end

end Solving

/-! ### Two solves in a row -/

/-- Of two solves, one after the other, the second asks the solver what the first one asked, in
the same order, and changes nothing of what the first one left but the time. -/
structure Workbench.Repeats (asked : σ → List (Request α)) (w w₁ w₂ : Workbench α σ) : Prop where
  asked : ∃ rs, asked w₁.session.world = asked w.session.world ++ rs ∧
    asked w₂.session.world = asked w₁.session.world ++ rs
  terminationStatus : w₂.model.terminationStatus = w₁.model.terminationStatus
  primalStatus : w₂.model.primalStatus = w₁.model.primalStatus
  dualStatus : w₂.model.dualStatus = w₁.model.dualStatus
  rest : w₂.model = w₁.model.timed w₂.model.last.seconds

theorem Workbench.Repeats.of_timed {asked : σ → List (Request α)} {w w₁ w₂ : Workbench α σ}
    (hworld : Abreast asked (asked w.session.world)
      (asked w₁.session.world) w₁.session.world w₂.session.world) {seconds : α}
    (hmodel : w₂.model = w₁.model.timed seconds) : w.Repeats asked w₁ w₂ where
  asked := hworld
  terminationStatus := (congrArg Model.terminationStatus hmodel).trans rfl
  primalStatus := (congrArg Model.primalStatus hmodel).trans rfl
  dualStatus := (congrArg Model.dualStatus hmodel).trans rfl
  rest := by rw [hmodel]; rfl

section
variable [LawfulScalar α] {host : Host α σ} {asked : σ → List (Request α)}
  (hhost : host.IsFunction asked) {callback : Option (Callback α σ)}
  (hcallback : ∀ call ∈ callback, call.Steady asked) {fuel : Nat} {w w₁ : Workbench α σ}
  (hm : w.model.Reachable) (hlimit : Parameter.unlimited ≤ w.model.stores.search.timeLimit)
  (hrun : Solving.optimize host callback fuel w = .ok () w₁)
include hhost hcallback hm hlimit hrun

/-- A solve that returns, beside one of the same model with what other solves have left. -/
theorem optimize_beside {w' : Workbench α σ} {b i n : Solution α} {r : SolveRecord α}
    (hb : Solving.Resumable w.model b i) (hw' : w'.model = w.model.withRecord b i n r) :
    ∃ w₂, Solving.optimize host callback fuel w' = .ok () w₂ ∧
      ∃ l ray certificate seconds seconds',
        Solving.Resumable w.model (l.basic.getD w.model.problem.basic)
          (l.interior.getD w.model.problem.interior) ∧
        Workbench.Hold (Abreast asked (asked w.session.world) (asked w'.session.world))
          (w.model.ended l ray certificate seconds)
          (w'.model.ended l ray certificate seconds') w₁ w₂ := by
  have hw : Workbench.Hold (Abreast asked (asked w.session.world) (asked w'.session.world)) w.model
      (w.model.withRecord b i n r) w w' :=
    ⟨rfl, hw', [], (List.append_nil _).symm, (List.append_nil _).symm⟩
  obtain ⟨_, w₂, hrun', h⟩ := Solving.optimize_matches fuel hm.sound.roundable
    (hhost.respects _ _) (fun call hcall => hcallback call hcall _ _) hlimit hb hw () w₁ hrun
  rw [← hw'] at h
  exact ⟨w₂, hrun', h⟩

/-- Solving is repeatable: a second solve right after a first one that returned asks the solver
the same and leaves the same statuses, stored solutions, certificates, bound and gap. -/
theorem optimize_repeats :
    ∃ w₂, Solving.optimize host callback fuel w₁ = .ok () w₂ ∧ w.Repeats asked w₁ w₂ := by
  have hself : w.model = w.model.withRecord w.model.problem.basic w.model.problem.interior
      w.model.problem.integer w.model.last := rfl
  obtain ⟨_, -, l, ray, certificate, seconds, _, hresumable, hfirst⟩ := optimize_beside hhost
    hcallback hm hlimit hrun ⟨fun _ _ => rfl, fun _ => rfl⟩ hself
  have hmodel : w₁.model = w.model.withRecord (l.basic.getD w.model.problem.basic)
      (l.interior.getD w.model.problem.interior) w₁.model.problem.integer w₁.model.last := by
    rw [hfirst.left]
    rfl
  obtain ⟨w₂, hrun', l', ray', certificate', seconds', seconds'', -, hsecond⟩ := optimize_beside
    hhost hcallback hm hlimit hrun hresumable hmodel
  have htimed : w₂.model = w₁.model.timed seconds'' := by
    rw [hsecond.right, hsecond.left, Model.ended_ended]
  exact ⟨w₂, hrun', .of_timed hsecond.world htimed⟩

end

/-! ### A search that is stopped -/

section
open Extended

/-- A host that solves programs with one column and keeps what it was asked; its clock goes on
with every question. -/
def Host.keeping : Host Extended (List (Request Extended)) where
  solve r asked := (r.program.solveSingle, asked ++ [r])
  now asked := Scalar.ofNat asked.length

theorem Host.keeping_isFunction : Host.keeping.IsFunction id where
  answer _ _ _ := rfl
  asked _ _ := rfl

/-- A callback that stops the search at its first incumbent. -/
def stopsAtIncumbent : Callback Extended σ := fun d => do
  if (← d.tree).reason = some .newIncumbent then d.terminate

theorem stopsAtIncumbent_steady {asked : σ → List (Request Extended)} : stopsAtIncumbent.Steady asked := by
  intro l l' m i r
  refine .tree fun t j began _ => .ite ?_ (.pure rfl)
  exact .tree fun u k began _ => .modifyTree ⟨fun _ => rfl, fun _ _ _ => rfl⟩

/-- A search of three nodes, two times. -/
theorem optimize_repeats_stopped : ∃ w₁ w₂,
    Solving.optimize Host.keeping (some stopsAtIncumbent) 20 ⟨⟨[], #[]⟩, capped⟩ = .ok () w₁ ∧
      Solving.optimize Host.keeping (some stopsAtIncumbent) 20 w₁ = .ok () w₂ ∧
      Workbench.Repeats id ⟨⟨[], #[]⟩, capped⟩ w₁ w₂ := by
  obtain ⟨_, w₁, hrun, -⟩ := exists_of_passes
    (x := Solving.optimize Host.keeping (some stopsAtIncumbent) 20) (s := ⟨⟨[], #[]⟩, capped⟩)
    (fun _ => true) (by decide +kernel)
  obtain ⟨w₂, hrun', hrepeats⟩ := optimize_repeats Host.keeping_isFunction
    (by rintro _ ⟨⟩; exact stopsAtIncumbent_steady) capped_reachable (by decide +kernel) hrun
  exact ⟨w₁, w₂, hrun, hrun', hrepeats⟩

end

end MixedInteger
