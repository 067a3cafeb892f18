import MixedInteger.Proofs.Search.Step
import MixedInteger.Proofs.Solver.SingleColumn

/-! What a search answers. The invariant between two steps goes through any number of steps; when
no active node is left the incumbent dominates all feasible points, and without an incumbent
there are none. So branch and bound is correct. With exact numbers and an exact solver, what a
search without a listener stores is a point that is feasible up to the tolerance; when the search
comes to its end no feasible point is better by more than the tolerances allow, and when it finds
nothing there is nothing to find. All this is said of a search that returns, however many steps it
is given; how many are enough is another matter. -/

namespace MixedInteger

section

open Extended Finset SearchTask

/-- The answer of a search that solved `p` and came to the rows of `q` is right. -/
structure Search.Outcome (p q : Problem Extended) (aim : Aim) (code : ReturnCode)
    (sol : Solution Extended) : Prop where
  found : sol.status = .optimal ∨ sol.status = .feasible →
    ∃ x, sol.colPrimal = firstValues p.columnCount x ∧ sol.objective = rat (p.valueOf x) ∧
      aim.Kept x
  optimal : code = .done → sol.status = .optimal → ∀ z, q.Feasible z →
    p.Dominated aim sol.objective.value z
  gap : code = .gapReached → sol.status = .feasible ∧ (aim.Ranks → ∀ g, aim.gap = rat g →
    ∀ z, q.Feasible z → p.sign * sol.objective.value ≤ p.sign * p.valueOf z +
      max (aim.margin sol.objective.value) (g * (|sol.objective.value| + 1 / 2 ^ 52)))
  none : sol.status = .noFeasible → ∀ z, ¬q.Feasible z
  verdict : code = .done → sol.status = .optimal ∨ sol.status = .noFeasible
  done : sol.status = .optimal → code = .done

/-- Nothing is said of a search that was given up. -/
theorem Search.Outcome.undefined {p q : Problem Extended} {aim : Aim} {code : ReturnCode}
    {sol : Solution Extended} (hdone : code ≠ .done) (hgap : code ≠ .gapReached)
    (hstatus : sol.status = .undefined) : Search.Outcome p q aim code sol where
  found h := by simp [hstatus] at h
  optimal h := absurd h hdone
  gap h := absurd h hgap
  none h := by simp [hstatus] at h
  verdict h := absurd h hdone
  done h := by simp [hstatus] at h

/-- A search that ends with such a code was given up, and not because somebody asked for it. -/
def ReturnCode.GivesUp (code : ReturnCode) : Prop :=
  code ≠ .done ∧ code ≠ .gapReached ∧ code ≠ .stopped ∧ code ≠ .noPrimal

namespace Search.Setting

variable {σ : Type} {c : Search.Company Extended σ} {p : Problem Extended}
  {S : Search.Setting c p} {s : Scene Extended σ} {w w' : σ} {t t' : Tree Extended}

/-! ### Any number of steps -/

theorem step_runs {phase : Search.Phase Extended}
    (h : S.Follows (.go phase) s.session.world s.tree) :
    Runs (Search.step c phase) s (fun next s' => S.Follows next s'.session.world s'.tree)
      S.Broken := by
  cases phase with
  | choose => exact choose_runs h
  | visit n => exact visit_runs h

theorem Follows.track {phase : Search.Phase Extended} (h : S.Follows (.go phase) w t) :
    S.Track w t := by
  cases phase with
  | choose => exact Calm.track h
  | visit n => exact Calm.track (InHand.toCalm h)

theorem run_runs (fuel : ℕ) (phase : Search.Phase Extended)
    (h : S.Follows (.go phase) s.session.world s.tree) :
    Runs (Search.run c fuel phase) s (fun code s' => S.Ended code s'.session.world s'.tree)
      S.Broken := by
  induction fuel generalizing s phase with
  | zero => exact ⟨s.tree, h.track⟩
  | succ fuel ih =>
    unfold Search.run
    refine (step_runs h).bind fun next s' h' => ?_
    cases next with
    | done code => exact .pure h'
    | go phase => exact ih _ h'

/-! ### The incumbent at the end -/

/-- When the gap is reached no feasible point is better by more than the gap allows. -/
theorem Calm.gap (h : S.Calm w t) (hgap : Search.gapReached t = true) :
    ∃ i, t.incumbent = some i ∧ (S.aim.Ranks → ∀ g, S.aim.gap = rat g → ∀ z, t.base.Feasible z →
      p.sign * i.objective.value ≤ p.sign * p.valueOf z +
        max (S.aim.margin i.objective.value) (g * (|i.objective.value| + 1 / 2 ^ 52))) := by
  simp only [Search.gapReached, Bool.and_eq_true, decide_eq_true_eq,
    Option.isSome_iff_exists] at hgap
  obtain ⟨⟨-, i, hi⟩, hle⟩ := hgap
  obtain ⟨x, rfl, -⟩ := (isIncumbent_base h.grown).1 (h.sound.incumbent i hi)
  refine ⟨_, hi, fun hranks g hg z hz => ?_⟩
  rcases h.sound.cover z hz (Set.notMem_empty z) with ⟨n, hn, hbox⟩ | hdom
  · obtain ⟨b, hb, hbest, hleast⟩ := h.sound.exists_best (List.ne_nil_of_mem hn)
    have hbound := le_trans (hleast n hn) ((h.sound.nodes n hn).below z hz.relaxed hbox)
    simp only [Tree.gap, hi, hbest, h.sound.gap, hg] at hle
    have heps : (Scalar.epsilon : Extended) = rat (1 / 2 ^ 52) := rfl
    have hpos : 0 < |p.valueOf x| + 1 / 2 ^ 52 := by positivity
    rw [grown_sense h.grown, grown_sign h.grown, grown_valueOf h.grown, Problem.sense_eq] at hbound
    refine le_trans ?_ (add_le_add_right (le_max_right _ _) _)
    rw [abs_rat, heps, rat_add_rat] at hle
    obtain ⟨v, hv⟩ : ∃ v, b.bound = rat v := by
      have hnot := fun hx => not_abs_sub_div_le (p.valueOf x) (x := b.bound) hx hpos.le g hle
      cases hbound' : b.bound with
      | rat v => exact ⟨v, rfl⟩
      | nan => rw [hbound'] at hle; cases hle
      | bottom => exact absurd (.inl hbound') hnot
      | top => exact absurd (.inr hbound') hnot
    rw [hv, rat_mul_rat, rat_le_rat] at hbound
    rw [hv, rat_sub_rat, abs_rat, rat_div_rat _ _ hpos.ne', rat_le_rat,
      div_le_iff₀ hpos] at hle
    have hdiff : p.sign * p.valueOf x - p.sign * v ≤ |p.valueOf x - v| := by
      rw [← mul_sub]
      refine (le_abs_self _).trans ?_
      rw [Problem.abs_sign_mul]
    simp only [value]
    linarith
  · obtain ⟨i', hi', hdom⟩ := (dominates_base h.grown).1 hdom
    rw [hi] at hi'
    cases hi'
    exact le_trans (hdom hranks) (add_le_add_right (le_max_left _ _) _)

theorem Ended.outcome {code : ReturnCode} (h : S.Ended code w t) :
    Search.Outcome p t.base S.aim code (t.solution (Search.verdict code t.incumbent.isSome)) := by
  cases hi : t.incumbent with
  | none =>
    have hsol : ∀ status, t.solution status = { status := status } := by
      intro status
      rw [Tree.solution, hi]
    have hgap : code ≠ .gapReached := by
      intro hcode
      obtain ⟨hcalm, hreached⟩ := h.gap hcode
      obtain ⟨i, hi', -⟩ := hcalm.gap hreached
      rw [hi] at hi'
      cases hi'
    rw [hsol]
    by_cases hdone : code = .done
    · have hnone : ∀ z, ¬t.base.Feasible z := by
        intro z hz
        obtain ⟨i, hi', -⟩ := h.covered hdone z hz
        rw [hi] at hi'
        cases hi'
      simp only [Search.verdict, if_pos hdone, Option.isSome_none, Bool.false_eq_true, if_false]
      exact
        { found := by simp
          optimal := by simp
          gap := fun hcode => absurd hcode hgap
          none := fun _ => hnone
          verdict := by simp
          done := by simp }
    · simp only [Search.verdict, if_neg hdone, Option.isSome_none, Bool.false_eq_true, if_false]
      exact .undefined hdone hgap rfl
  | some i =>
    obtain ⟨x, rfl, hkept⟩ := h.incumbent i hi
    have hsol : ∀ status, (t.solution status).status = status ∧
        (t.solution status).objective = rat (p.valueOf x) ∧
        (t.solution status).colPrimal = firstValues p.columnCount x := by
      intro status
      simp only [Tree.solution, hi, and_self]
    obtain ⟨hstatus, hobjective, hpoint⟩ := hsol (Search.verdict code true)
    simp only [Option.isSome_some]
    refine ⟨fun _ => ⟨x, hpoint, hobjective, hkept⟩, fun hdone _ z hz => ?_, fun hgap => ?_, ?_, ?_,
      fun hoptimal => ?_⟩
    · obtain ⟨i, hi', hdom⟩ := h.covered hdone z hz
      rw [hi] at hi'
      cases hi'
      rw [hobjective]
      exact hdom
    · refine ⟨?_, ?_⟩
      · rw [hstatus, hgap]
        rfl
      · obtain ⟨hcalm, hreached⟩ := h.gap hgap
        obtain ⟨i, hi', hle⟩ := hcalm.gap hreached
        rw [hi] at hi'
        cases hi'
        rw [hobjective]
        exact hle
    · intro hnone
      rw [hstatus] at hnone
      by_cases hdone : code = .done <;> simp [Search.verdict, hdone] at hnone
    · rintro rfl
      exact .inl hstatus
    · by_contra hdone
      rw [hstatus] at hoptimal
      simp [Search.verdict, hdone] at hoptimal

/-! ### From the start -/

variable (S) in
/-- The search has not begun. -/
structure Fresh (w : σ) (t : Tree Extended) : Prop where
  world : S.World w
  fits : t.Fits p S.aim
  active : t.active = []
  incumbent : t.incumbent = none
  rootBound : t.rootBound = -p.sense * Scalar.infinity
  boxed : t.problem.Boxed p p.rootBox

/-- A solution of the working problem changes nothing else. -/
theorem Fresh.withBasic (h : S.Fresh w t) (hw : S.World w') (b : Solution Extended) :
    S.Fresh w' { t with problem := t.problem.withBasic b } := by
  obtain ⟨box, hbox, hrest⟩ := h.fits.works.boxed
  exact
    { world := hw
      fits := h.fits.withProblem h.fits.works.touched ⟨box, hbox.withBasic b, hrest⟩
      active := h.active
      incumbent := h.incumbent
      rootBound := h.rootBound
      boxed := h.boxed.withBasic b }

theorem fresh_ofProblem {params : Parameter.Search Extended}
    (hint : params.integerTolerance = rat S.aim.integer)
    (hobj : S.aim.Ranks → params.objectiveTolerance = rat S.aim.objective)
    (hgap : params.gap = S.aim.gap)
    (now : Extended) (hw : S.World w) : S.Fresh w (Tree.ofProblem params p now) where
  world := hw
  fits := Tree.fits_ofProblem hint hobj hgap now
  active := rfl
  incumbent := rfl
  rootBound := rfl
  boxed := Problem.Boxed.refl p

theorem broken_of_world (s : Scene Extended σ) (h : S.World s.session.world) : S.Broken s :=
  ⟨s.tree, S.start _ _ h⟩

theorem Fresh.plant (h : S.Fresh w t) : S.Calm w t.plant where
  grown := by
    have hbase : t.plant.base = p := h.fits.base
    rw [hbase]
    exact .refl p
  sound := by
    have hbase : t.plant.base = p := h.fits.base
    rw [hbase]
    exact h.fits.plant h.active h.incumbent h.rootBound
  hopeful n _ := by
    have hincumbent : t.plant.incumbent = none := h.incumbent
    rw [Tree.hopeful, hincumbent]
  track := S.start _ _ h.world

variable (S) in
/-- What is said of the answer of a search, and of the world it leaves. -/
def Answered (code : ReturnCode) (sol : Solution Extended) (w : σ) : Prop :=
  (∃ q, q.Grown S.Allowed p ∧ Search.Outcome p q S.aim code sol) ∧ ∃ t, S.Track w t

theorem explore_runs (h : S.Fresh s.session.world s.tree) (fuel : ℕ) :
    Runs (Search.explore c fuel) s (fun code s' => S.Ended code s'.session.world s'.tree)
      S.Broken :=
  modifyTree_bind (run_runs (s := { s with tree := s.tree.plant }) fuel .choose h.plant)

variable (S) in
/-- The search came to its end before it had begun. -/
structure Unbegun (code : ReturnCode) (sol : Solution Extended) (w : σ) : Prop where
  world : S.World w
  outcome : Search.Outcome p p S.aim code sol
  early : sol.status = .noFeasible ∨ sol.status = .undefined ∧ code.GivesUp

theorem Unbegun.answered {code : ReturnCode} {sol : Solution Extended}
    (h : S.Unbegun code sol w) : S.Answered code sol w :=
  ⟨⟨p, .refl p, h.outcome⟩, Tree.ofProblem {} p 0, S.start _ _ h.world⟩

theorem unbegun (hw : S.World w) {code : ReturnCode} (hcode : code.GivesUp) :
    S.Unbegun code { status := .undefined } w :=
  ⟨hw, .undefined hcode.1 hcode.2.1 rfl, .inr ⟨rfl, hcode⟩⟩

/-- The presolver ends the search only when there is nothing to find or it fails. -/
theorem presolved_runs (h : S.Fresh s.session.world s.tree) :
    Runs (Search.presolved c) s
      (fun r s' => match r with
        | none => S.Fresh s'.session.world s'.tree
        | some (code, status) => S.Unbegun code { status := status } s'.session.world)
      S.Broken := by
  have hrational : p.Rational := S.rational
  have hproblem : s.tree.problem.Rational :=
    h.boxed.rational hrational (fun _ => hrational.proper_rootBox) fun _ => hrational.whole_rootBox
  unfold Search.presolved
  refine (relaxation_runs h.world broken_of_world).bind ?_
  rintro settings s₁ ⟨⟨hdual, -⟩, htree₁, hw₁⟩
  rw [← htree₁] at hproblem
  have hpresolving :
      ({ settings with presolve := 1 } : Parameter.Simplex Extended).isDual = false := hdual
  refine (relax_runs hw₁ broken_of_world S.exact S.world hproblem hpresolving).bind ?_
  rintro code s₂ ⟨q, hsolved, htree₂, hw₂⟩
  cases hsolved with
  | @presolved b hnone =>
    refine (say_runs hw₂ broken_of_world _).bind ?_
    rintro _ s₃ ⟨-, hw₃⟩
    refine .pure ⟨hw₃, ⟨by simp, by simp, by simp, fun _ z hz => ?_, by simp, by simp⟩, .inl rfl⟩
    rw [htree₁] at hnone
    exact hnone z (h.boxed.relaxed_iff.2 (Problem.relaxed_iff.1 hz.relaxed))
  | @optimum b x hoptimal _ _ _ _ _ =>
    refine tree_bind ?_
    rw [htree₂, if_pos (by exact hoptimal)]
    refine .pure ?_
    change S.Fresh _ s₂.tree
    rw [htree₂, htree₁]
    exact h.withBasic hw₂ b
  | @infeasible b hinfeasible _ =>
    refine tree_bind ?_
    rw [htree₂, if_neg (by simp [Problem.withBasic, hinfeasible])]
    exact .pure (unbegun hw₂ (by simp [ReturnCode.GivesUp]))
  | @unbounded b hunbounded =>
    refine tree_bind ?_
    rw [htree₂, if_neg (by simp [Problem.withBasic, hunbounded])]
    exact .pure (unbegun hw₂ (by simp [ReturnCode.GivesUp]))
  | @stopped b code hdone hcode =>
    split
    · exact absurd rfl hcode
    · refine (say_runs hw₂ broken_of_world _).bind ?_
      rintro _ s₃ ⟨-, hw₃⟩
      exact .pure (unbegun hw₃ (by simp [ReturnCode.GivesUp]))
    · exact .pure (unbegun hw₂ (by simp [ReturnCode.GivesUp]))
    · exact absurd rfl hdone
    · exact .pure (unbegun hw₂ (by simp [ReturnCode.GivesUp]))

/-! ### What holds of the answer

It is enough that it holds of searches that never begin and of those that are gone through. -/

section
variable {R : ReturnCode → Solution Extended → σ → Prop}
  (hunbegun : ∀ {code sol w}, S.Unbegun code sol w → R code sol w)
  (htrack : ∀ {code sol w}, R code sol w → ∃ t, S.Track w t) {fuel : ℕ}
  (hexplore : ∀ s, S.Fresh s.session.world s.tree → Runs (Search.explore c fuel) s
    (fun code s' => R code (s'.tree.solution (Search.verdict code s'.tree.incumbent.isSome))
      s'.session.world) S.Broken)
include hunbegun htrack hexplore

theorem conclude_satisfies (h : S.Fresh s.session.world s.tree) :
    Runs (Search.conclude c fuel) s (fun r s' => R r.1 r.2 s'.session.world) S.Broken := by
  unfold Search.conclude
  refine tree_bind ?_
  dsimp only
  refine Runs.detour (I := fun s => S.Fresh s.session.world s.tree) h (fun hrest => ?_) ?_
  · refine tree_bind ((ofTask_runs (Task.Keeps.tell _) h.world broken_of_world).bind ?_)
    rintro _ s' ⟨-, htree, hw⟩
    refine hrest s' ?_
    rw [htree]
    exact { h with world := hw }
  intro s h
  refine Runs.detour (I := fun s => S.Fresh s.session.world s.tree) h (fun hrest => ?_) ?_
  · refine (presolved_runs h).bind fun r s' h' => ?_
    cases r with
    | none => exact hrest s' h'
    | some r => exact .pure (hunbegun h')
  intro s h
  refine (hexplore s h).bind fun code s' h' => tree_bind ?_
  have hsay := say_runs (s := s') (W := fun w => R code
    (s'.tree.solution (Search.verdict code s'.tree.incumbent.isSome)) w) (E := S.Broken) h'
    fun _ => htrack
  split
  · exact (hsay _).bind fun _ _ h => .pure h.2
  · exact (hsay _).bind fun _ _ h => .pure h.2
  · exact .pure h'

theorem intopt_satisfies {params : Parameter.Search Extended}
    (hint : params.integerTolerance = rat S.aim.integer)
    (hobj : S.aim.Ranks → params.objectiveTolerance = rat S.aim.objective)
    (hgap : params.gap = S.aim.gap)
    {s : Session Extended σ} (hw : S.World s.world) :
    Runs (intopt c params fuel p) s
      (fun r s' => ∃ sol, r.1 = p.withInteger sol ∧ R r.2 sol s'.world)
      fun s' => ∃ t, S.Track s'.world t := by
  have hbroken : ∀ s : Session Extended σ, S.World s.world → ∃ t, S.Track s.world t :=
    fun s hw => ⟨Tree.ofProblem params p 0, S.start _ _ hw⟩
  have hrefused : ∀ {code : ReturnCode} (s : Session Extended σ), S.World s.world →
      code.GivesUp → ∃ sol, p.withInteger {} = p.withInteger sol ∧ R code sol s.world :=
    fun s hw hcode => ⟨{}, rfl, hunbegun (unbegun hw hcode)⟩
  have htell : ∀ (s : Session Extended σ) (l : ℤ) (m : Notice Extended), S.World s.world →
      Runs (Task.tellAt Parameter.levelErrors l m) s (fun _ s' => True ∧ S.World s'.world)
        fun s' => ∃ t, S.Track s'.world t :=
    fun s l m hw => (Task.Keeps.tellAt _ l m s hw).weaken hbroken
  unfold intopt
  refine ((Task.Keeps.ofRounding (Search.obstacle p) (P := fun _ => True) (fun _ _ => trivial)
    s hw).weaken hbroken).bind ?_
  rintro o s₁ ⟨-, hw₁⟩
  split
  · exact (htell s₁ _ _ hw₁).bind fun _ s₂ h =>
      .pure (hrefused s₂ h.2 (by simp [ReturnCode.GivesUp]))
  split
  · exact (htell s₁ _ _ hw₁).bind fun _ s₂ h =>
      .pure (hrefused s₂ h.2 (by simp [ReturnCode.GivesUp]))
  refine ((Task.Keeps.now c.host s₁ hw₁).weaken hbroken).bind ?_
  rintro now s₂ ⟨-, hw₂⟩
  dsimp only
  have hconclude := conclude_satisfies (s := ⟨s₂, Tree.ofProblem params p now⟩) hunbegun htrack
    hexplore (fresh_ofProblem hint hobj hgap now hw₂)
  refine Runs.bind (P := fun r s' => R r.1 r.2 s'.world) ?_ ?_
  · unfold Runs at hconclude ⊢
    dsimp only
    cases hrun : Search.conclude c fuel ⟨s₂, Tree.ofProblem params p now⟩ with
    | ok r scene =>
      rw [hrun] at hconclude
      exact hconclude
    | error e scene =>
      rw [hrun] at hconclude
      exact hconclude
  · rintro ⟨code, sol⟩ s' h
    exact .pure ⟨sol, rfl, h⟩

end

/-- The search of a whole problem. -/
theorem intopt_runs {params : Parameter.Search Extended}
    (hint : params.integerTolerance = rat S.aim.integer)
    (hobj : S.aim.Ranks → params.objectiveTolerance = rat S.aim.objective)
    (hgap : params.gap = S.aim.gap)
    (fuel : ℕ) {s : Session Extended σ} (hw : S.World s.world) :
    Runs (intopt c params fuel p) s
      (fun r s' => ∃ sol, r.1 = p.withInteger sol ∧ S.Answered r.2 sol s'.world)
      fun s' => ∃ t, S.Track s'.world t := by
  refine intopt_satisfies Unbegun.answered (fun h => h.2) (fun s h => ?_) hint hobj hgap hw
  exact (explore_runs h fuel).imp fun code s' h => ⟨⟨_, h.grown, h.outcome⟩, _, h.track⟩

end Search.Setting

end

/-! ### Searches without a listener -/

section

open Extended Finset

variable {σ : Type}

/-- The setting of a search that nobody listens to. -/
def Search.Setting.silent {host : Host Extended σ} (hhost : host.IsExact) {p : Problem Extended}
    (hp : p.Rational) {τ t : ℚ} (g : Extended) (hτ : 0 ≤ τ) (ht : 0 ≤ t) (ht' : t ≤ 1) :
    Search.Setting ⟨host, none⟩ p where
  aim :=
    { Ranks := True
      integer := τ
      objective := t
      gap := g
      shift := τ * ∑ j ∈ p.integers, |p.costAt j|
      Kept := fun x => p.NearlyFeasible x τ
      objective_nonneg := ht
      objective_le_one := ht'
      shift_nonneg := Problem.drift_nonneg hτ }
  Allowed _ := False
  Accepted _ := True
  World _ := True
  Track _ _ := True
  rational := hp
  exact := hhost
  allowed _ h := h.elim
  world := host.keeps_true
  start _ _ _ := trivial
  keeps _ := host.keeps_true
  leads _ _ _ _ _ := trivial
  kept _ hx hnear _ _ :=
    Problem.nearlyFeasible_rounded hnear hp (Problem.relaxed_iff.1 hx).1 hx.holds
  near _ hnear _ := Problem.abs_valueOf_rounded_le hnear
  hears _ s _ _ :=
    ⟨⟨s.tree.problem, s.tree.stopped, s.tree.reason, rfl, .refl _⟩, trivial, fun _ _ _ _ => trivial⟩

/-- A point has an objective that is better than `o` by more than `d`. -/
def Problem.BetterBy (p : Problem Extended) (d o : ℚ) (z : ℕ → ℚ) : Prop :=
  p.sign * p.valueOf z + d < p.sign * o

/-- Without rows added, and however the search goes about it: a stored solution is a point that is
feasible up to the tolerance, no feasible point is better by more than the tolerances allow when
the search ends or the gap is reached, and there is none when none is found. -/
theorem intopt_correct {host : Host Extended σ} (hhost : host.IsExact) {p : Problem Extended}
    (hp : p.Rational) {params : Parameter.Search Extended} {τ t g : ℚ}
    (hτ : params.integerTolerance = rat τ) (hτ₀ : 0 ≤ τ)
    (ht : params.objectiveTolerance = rat t) (ht₀ : 0 ≤ t) (ht₁ : t ≤ 1) (hg : params.gap = rat g)
    {fuel : ℕ} {s s' : Session Extended σ} {q : Problem Extended} {code : ReturnCode}
    (hrun : intopt ⟨host, none⟩ params fuel p s = .ok (q, code) s') :
    (q.integer.status = .optimal ∨ q.integer.status = .feasible →
      ∃ x, q.integer.colPrimal = firstValues p.columnCount x ∧ p.NearlyFeasible x τ ∧
        q.integer.objective = rat (p.valueOf x) ∧
        (code = .done → ∀ z, p.Feasible z →
          ¬p.BetterBy (max (t * (1 + |p.valueOf x|)) (τ * ∑ j ∈ p.integers, |p.costAt j|))
            (p.valueOf x) z) ∧
        (code = .gapReached → ∀ z, p.Feasible z →
          ¬p.BetterBy (max (max (t * (1 + |p.valueOf x|)) (τ * ∑ j ∈ p.integers, |p.costAt j|))
            (g * (|p.valueOf x| + 1 / 2 ^ 52))) (p.valueOf x) z)) ∧
    (q.integer.status = .noFeasible → ∀ z, ¬p.Feasible z) ∧
    (code = .done → q.integer.status = .optimal ∨ q.integer.status = .noFeasible) := by
  have h := (Search.Setting.intopt_runs (S := .silent hhost hp (rat g) hτ₀ ht₀ ht₁) hτ
    (fun _ => ht) hg fuel (s := s) trivial).ok hrun
  obtain ⟨sol, hq, ⟨grown, ⟨extra, hgrown, hextra⟩, hout⟩, -⟩ := h
  have hsol : q.integer = sol := congrArg Problem.integer hq
  -- no row was added
  obtain rfl : extra = [] := List.eq_nil_iff_forall_not_mem.2 hextra
  rw [List.append_nil] at hgrown
  obtain rfl : grown = p := hgrown
  rw [hsol]
  refine ⟨fun hstatus => ?_, hout.none, hout.verdict⟩
  obtain ⟨x, hpoint, hobjective, hkept⟩ := hout.found hstatus
  refine ⟨x, hpoint, hkept, hobjective, fun hdone z hz => ?_, fun hgap z hz => ?_⟩
  · have hoptimal : sol.status = .optimal := (hout.verdict hdone).resolve_right fun hnone => by
      rw [hnone] at hstatus
      simp at hstatus
    have hdom := hout.optimal hdone hoptimal z hz trivial
    rw [hobjective] at hdom
    exact not_lt.2 hdom
  · have hle := (hout.gap hgap).2 trivial g rfl z hz
    rw [hobjective] at hle
    exact not_lt.2 hle

/-- The relaxation has its optimum at seven halves; the search finds three. -/
theorem intopt_correct_halves : ∃ q s',
    intopt ⟨Host.single, none⟩ { presolve := 1 } 20 halves ⟨(), #[]⟩ = .ok (q, .done) s' ∧
      q.integer.objective = rat 3 ∧ ∀ z, halves.Feasible z →
        ¬halves.BetterBy (max (10 ^ (-7 : ℤ) * (1 + |3|)) (10 ^ (-5 : ℤ))) 3 z := by
  obtain ⟨⟨q, code⟩, s', hrun, htest⟩ := exists_of_passes
    (x := intopt ⟨Host.single, none⟩ { presolve := 1 } 20 halves) (s := ⟨(), #[]⟩)
    (fun r => decide (r.2 = .done) && decide (r.1.integer.status = .optimal) &&
      r.1.integer.objective == rat 3) (by decide +kernel)
  simp only [Bool.and_eq_true, decide_eq_true_eq] at htest
  obtain ⟨⟨rfl, hstatus⟩, hobjective⟩ := htest
  obtain ⟨hfound, -, -⟩ := intopt_correct Host.single_isExact halves_rational
    (τ := 1 * 10 ^ (-5 : ℤ)) (t := 1 * 10 ^ (-7 : ℤ)) (g := 0) rfl (by norm_num) rfl (by norm_num)
    (by norm_num) rfl hrun
  obtain ⟨x, -, -, hx, hbest, -⟩ := hfound (.inl hstatus)
  rw [hx, rat_beq_rat, decide_eq_true_eq] at hobjective
  rw [hobjective] at hx hbest
  have hcosts : ∑ j ∈ halves.integers, |halves.costAt j| = 1 := by
    have hintegers : halves.integers = {0} := by decide
    rw [hintegers, sum_singleton]
    exact abs_one
  refine ⟨q, s', hrun, hx, fun z hz => ?_⟩
  have h := hbest rfl z hz
  rwa [hcosts, one_mul, one_mul, mul_one] at h

end

end MixedInteger
