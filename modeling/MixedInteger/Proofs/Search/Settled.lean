import MixedInteger.Proofs.Continuous.Finding
import MixedInteger.Proofs.Search.Outcome
import MixedInteger.Proofs.Search.Termination
import MixedInteger.Proofs.Search.Whole

/-! Searches that nothing keeps from their end. When a relaxation has no points as good as one
likes, those of its nodes have none either, and a solver that answers every question solves them
all: a node in hand has an optimum, or no point. Without a limit to the time and without anybody
who asks for the end or adds rows, a search is then over when it has gone through its nodes or come
near enough to its bound. It has a point, or there is none to be found. When the relaxation has such
points, the presolver ends the search before its first node. -/

namespace MixedInteger

open Extended SearchTask

variable {σ : Type}

/-! ### Relaxations -/

section
variable {host : Host Extended σ} (hexact : host.IsExact) (hdecides : host.Decides)
  {p : Problem Extended} (hp : p.Rational) (hbounds : p.badBounds = none)
include hexact hdecides hp hbounds

/-- A relaxation has an optimum or no point. -/
theorem simplex_decides (hbounded : ¬p.Admits .unbounded) {params : Parameter.Simplex Extended}
    (hdual : params.isDual = false) (hpresolve : params.presolve = 0) :
    Task.Returns (simplex host params p) fun r => r.2 = .done ∧
      (r.1.basic.status = .optimal ∨ r.1.basic.status = .noFeasible) := by
  refine (simplex_returns hexact hdecides hp hbounds hpresolve hdual).imp ?_
  rintro _ ⟨s, f, rfl, hadmits, htells⟩
  refine ⟨rfl, ?_⟩
  cases f with
  | optimal v => exact .inl htells.status
  | infeasible => exact .inr htells.status
  | unbounded => exact absurd hadmits hbounded

/-- The presolver finds out that there is no point, or it goes on to an optimum. -/
theorem simplex_presolves (hbounded : ¬p.Admits .unbounded) (hcolumns : p.columns ≠ [])
    {params : Parameter.Simplex Extended} (hdual : params.isDual = false)
    (hpresolve : params.presolve ≠ 0) :
    Task.Returns (simplex host params p) fun r =>
      r.2 = .noPrimal ∨ r.2 = .done ∧ r.1.basic.status = .optimal := by
  have hsome : p.columns.isEmpty = false := by simpa using hcolumns
  refine (simplex_concludes hexact hdecides hp hbounds params).imp ?_
  rintro _ ⟨s, f, hstores, rfl, hstatus⟩
  cases f with
  | optimal v =>
    refine .inr ⟨?_, hstatus⟩
    simp [Parameter.Simplex.ending, hsome, objectiveLimit, hdual]
  | infeasible =>
    refine .inl ?_
    simp [Parameter.Simplex.ending, hsome, hpresolve]
  | unbounded => exact absurd hstores.admits hbounded

/-- The presolver finds out that there are points as good as one likes. -/
theorem simplex_presolves_unbounded (hunbounded : p.Admits .unbounded)
    {params : Parameter.Simplex Extended} (hpresolve : params.presolve ≠ 0) :
    Task.Returns (simplex host params p) fun r => r.2 = .noDual := by
  refine (simplex_concludes hexact hdecides hp hbounds params).imp ?_
  rintro _ ⟨s, f, hstores, rfl, -⟩
  obtain rfl := hstores.admits.unique hunbounded
  simp [Parameter.Simplex.ending, hpresolve]

/-- Whatever the settings are, a relaxation is solved, and its optimum keeps to the bounds. -/
theorem host_relaxes : host.Relaxes p := by
  refine fun params _ => (simplex_concludes hexact hdecides hp hbounds params).imp ?_
  rintro _ ⟨s, f, hstores, rfl, hstatus⟩
  refine ⟨s, rfl, fun hoptimal => ?_⟩
  rw [hoptimal] at hstatus
  cases f with
  | optimal v =>
    obtain ⟨x, hx, hpoint⟩ := hstores.point v rfl
    intro j c hc _ _
    have hj : j < p.columnCount := (List.getElem?_eq_some_iff.1 hc).1
    refine ⟨rat (x j), ?_, hx.relaxed.within hc⟩
    rw [show s.colPrimal = _ from hpoint, firstValues, List.getElem?_map,
      List.getElem?_range hj]
    rfl
  | infeasible =>
    unfold Parameter.Simplex.ending at hstatus
    split_ifs at hstatus
  | unbounded =>
    unfold Parameter.Simplex.ending at hstatus
    split_ifs at hstatus

end

/-! ### Nodes -/

namespace Search.Setting

variable {c : Search.Company Extended σ} {p : Problem Extended} {S : Search.Setting c p}
  {s : Scene Extended σ} {w : σ} {t : Tree Extended} {n : Node Extended}

variable (S) in
/-- No rows are added, every question is answered, and the relaxation has no points as good as one
likes. Bounds are in order. -/
structure Peaceful : Prop where
  decides : c.host.Decides
  closed : ∀ r, ¬S.Allowed r
  columns : p.columns ≠ []
  uncrossed : p.badBounds = none
  ordered : ∀ j < p.columnCount, (p.rootBox j).1 ≤ (p.rootBox j).2
  bounded : ¬p.Admits .unbounded

/-- A relaxation that is solved, with an optimum or without a point. -/
structure Posed (q : Problem Extended) : Prop where
  rational : q.Rational
  uncrossed : q.badBounds = none
  bounded : ¬q.Admits .unbounded

namespace Peaceful

variable (hS : S.Peaceful)
include hS

theorem grown_eq {q : Problem Extended} (h : q.Grown S.Allowed p) : q = p := by
  obtain ⟨extra, rfl, hextra⟩ := h
  obtain rfl : extra = [] := List.eq_nil_iff_forall_not_mem.2 fun r hr => hS.closed r (hextra r hr)
  rw [List.append_nil]
  rfl

/-- A smaller box in order poses no less than the problem does. -/
theorem posed_of_boxed {q : Problem Extended} {box : ℕ → Extended × Extended} (h : q.Boxed p box)
    (hrational : q.Rational) (hordered : ∀ j < p.columnCount, (box j).1 ≤ (box j).2)
    (hinside : ∀ x, InBox p.columnCount box x → InBox p.columnCount p.rootBox x) :
    Posed q where
  rational := hrational
  uncrossed := h.badBounds hS.uncrossed hordered
  bounded := by
    intro hunbounded
    refine hS.bounded fun b => ?_
    obtain ⟨x, hx, hlt⟩ := hunbounded b
    rw [h.sign, h.valueOf] at hlt
    obtain ⟨hbox, hrows⟩ := h.relaxed_iff.1 hx
    exact ⟨x, Problem.relaxed_iff.2 ⟨hinside x hbox, hrows⟩, hlt⟩

theorem posed_of_inHand (h : S.InHand w t n) : Posed t.problem := by
  have hvalid := (h.sound.nodes n h.mem).toValid
  have hboxed := h.boxed
  have hrational := hvalid.rational (grown_rational h.grown) hboxed
  rw [hS.grown_eq h.grown] at hvalid hboxed
  refine hS.posed_of_boxed hboxed hrational (fun j hj => ?_) hvalid.inside
  obtain hmem | hroot := hvalid.mem_or_root j
  · exact hvalid.ordered _ hmem
  · rw [hroot]
    exact hS.ordered j hj

theorem posed_of_fresh (h : S.Fresh w t) : Posed t.problem := by
  have hrational : p.Rational := S.rational
  exact hS.posed_of_boxed h.boxed (h.boxed.rational hrational (fun _ => hrational.proper_rootBox)
    fun _ => hrational.whole_rootBox) hS.ordered fun _ => id

/-! ### Steps -/

/-- A node in hand is not left unsolved. -/
theorem visit_ends (h : S.InHand s.session.world s.tree n) :
    Runs (Search.visit c n) s (fun next s' => next.Over False s'.tree) fun _ => True := by
  have hposed := hS.posed_of_inHand h
  unfold Search.visit
  refine modifyTree_bind ?_
  refine (relaxation_runs (W := fun _ => True) trivial fun _ _ => trivial).bind ?_
  rintro settings s₁ ⟨⟨hdual, hpresolve⟩, htree, -⟩
  have hproblem : s₁.tree.problem = s.tree.problem := by rw [htree]
  rw [← hproblem] at hposed
  refine ((Search.Unhindered.relax_solves (simplex_decides S.exact hS.decides hposed.rational
    hposed.uncrossed hposed.bounded hdual hpresolve)).weaken fun _ => False.elim).bind ?_
  rintro _ s₂ ⟨q, ⟨rfl, hstatus⟩, htree₂⟩
  have hsolved : s₂.tree.problem.basic.status = .optimal ∨
      s₂.tree.problem.basic.status = .noFeasible := by
    rw [htree₂]
    exact hstatus
  rw [if_neg (by simp), if_neg (by simp)]
  refine tree_bind ?_
  obtain hoptimal | hnone := hsolved
  · rw [hoptimal]
    exact weigh_ends n
  · rw [hnone]
    exact .onward fun _ _ => .pure trivial

theorem step_ends {φ : Phase Extended} (h : S.Follows (.go φ) s.session.world s.tree) :
    Runs (Search.step c φ) s (fun next s' => next.Over False s'.tree ∧
      ∀ φ', next = .go φ' → S.Follows (.go φ') s'.session.world s'.tree) fun _ => True := by
  have hover : Runs (Search.step c φ) s (fun next s' => next.Over False s'.tree) fun _ => True := by
    cases φ with
    | choose => exact choose_ends
    | visit n => exact hS.visit_ends h
  refine ((hover.and (step_runs h)).imp ?_).weaken fun _ _ => trivial
  rintro next s' ⟨hover, hfollows⟩
  refine ⟨hover, ?_⟩
  rintro φ' rfl
  exact hfollows

theorem explore_ends (h : S.Fresh s.session.world s.tree) (fuel : ℕ) :
    Runs (Search.explore c fuel) s (fun code s' => Over False code s'.tree) fun _ => True :=
  modifyTree_bind (run_ends (s := { s with tree := s.tree.plant })
    (fun φ s => S.Follows (.go φ) s.session.world s.tree) (fun _ _ => hS.step_ends) fuel h.plant)

/-! ### Searches that return -/

/-- The relaxations of a search are solved, so that it goes on. -/
theorem sustains : Sustains c (fun s => S.Fresh s.session.world s.tree)
    fun φ s => S.Follows (.go φ) s.session.world s.tree where
  told s s' htree hworld h := by
    rw [htree, hworld]
    exact h
  presolved s h := by
    refine ((presolved_runs h).imp ?_).weaken fun _ _ => trivial
    rintro _ s' hs' rfl
    exact hs'
  first s h :=
    have hposed := hS.posed_of_fresh h
    host_relaxes S.exact hS.decides hposed.rational hposed.uncrossed
  planted s h := h.plant
  step φ s h := (hS.step_ends h).imp fun _ _ hs' => hs'.2
  relaxes n s h :=
    have hposed := hS.posed_of_inHand h
    host_relaxes S.exact hS.decides hposed.rational hposed.uncrossed

end Peaceful

end Search.Setting

/-! ### How searches end -/

namespace Search

/-- The codes and statuses of a search that comes to its end: with the best point, with one that is
near enough to it, or without a point, which the presolver may find out. -/
inductive Settles : ReturnCode → SolutionStatus → Prop
  | optimal : Settles .done .optimal
  | near : Settles .gapReached .feasible
  | none : Settles .done .noFeasible
  | unbegun : Settles .noPrimal .noFeasible

/-- A tree with these parameters that nobody has asked to end. -/
structure LeftAlone (params : Parameter.Search Extended) (t : Tree Extended) : Prop where
  params : t.params = params
  stopped : t.stopped = false

variable {c : Company Extended σ} {params : Parameter.Search Extended}

/-- It is left alone as long as the listener leaves it alone. -/
theorem invariant_leftAlone (hhear : ∀ hear, c.listener = some hear →
    SearchTask.Keeps (LeftAlone params) hear) : Invariant c (LeftAlone params) where
  alike h halike := ⟨halike.params.trans h.params, halike.stopped.trans h.stopped⟩
  activate h ht := by
    obtain ⟨p, -, ht⟩ := except_bind_eq_ok.1 ht
    obtain ⟨q, -, ht⟩ := except_bind_eq_ok.1 ht
    cases ht
    exact ⟨h.params, h.stopped⟩
  relaxed _ _ h := Runs.anything.imp fun _ _ _ => ⟨h.params, h.stopped⟩
  recorded h _ := ⟨h.params, h.stopped⟩
  hear := hhear

variable (hlimit : ¬params.timeLimit < Parameter.unlimited)
include hlimit

/-- A search that is left alone does not end early. -/
theorem Over.settles {code : ReturnCode} {t : Tree Extended} (h : Over False code t)
    (halone : LeftAlone params t) : Settles code (verdict code t.incumbent.isSome) := by
  have hending := h.ending
  simp only [endings, List.mem_cons, List.not_mem_nil, or_false] at hending
  obtain rfl | rfl | rfl | rfl | rfl := hending
  · cases t.incumbent with
    | none => exact .none
    | some i => exact .optimal
  · rw [← halone.params] at hlimit
    exact absurd ((h.late rfl).resolve_left id) hlimit
  · exact (h.failed rfl).elim
  · exact absurd (h.stopped rfl) (by simp [halone.stopped])
  · rw [h.gap rfl]
    exact .near

namespace Setting.Peaceful

variable {p : Problem Extended} {S : Setting c p} (hS : S.Peaceful) {s : Scene Extended σ}

omit hlimit in
include hS in
/-- The presolver ends the search only when there is no point. -/
theorem presolved_settles (h : S.Fresh s.session.world s.tree) : Runs (presolved c) s
    (fun r _ => ∀ code status, r = some (code, status) → Settles code status) fun _ => True := by
  have hposed := hS.posed_of_fresh h
  have hcolumns : s.tree.problem.columns ≠ [] := by
    have hcount : s.tree.problem.columns.length = p.columns.length := h.boxed.columnCount
    rw [← List.length_pos_iff, hcount, List.length_pos_iff]
    exact hS.columns
  unfold presolved
  refine (relaxation_runs (W := fun _ => True) trivial fun _ _ => trivial).bind ?_
  rintro settings s₁ ⟨⟨hdual, -⟩, htree, -⟩
  have hpresolving :
      ({ settings with presolve := 1 } : Parameter.Simplex Extended).isDual = false := hdual
  rw [← htree] at hposed hcolumns
  refine ((Unhindered.relax_solves (simplex_presolves S.exact hS.decides hposed.rational
    hposed.uncrossed hposed.bounded hcolumns hpresolving (by simp))).weaken
      fun _ => False.elim).bind ?_
  rintro code s₂ ⟨q, hq, htree₂⟩
  obtain hcode | ⟨hcode, hoptimal⟩ := hq
  · obtain rfl : code = .noPrimal := hcode
    refine .onward fun _ _ => .pure ?_
    rintro _ _ ⟨⟩
    exact .unbegun
  · obtain rfl : code = .done := hcode
    refine tree_bind ?_
    rw [htree₂, if_pos (by exact hoptimal)]
    exact .pure nofun

include hS
variable (hI : Invariant c (LeftAlone params))
include hI

theorem explore_settles (h : S.Fresh s.session.world s.tree) (halone : LeftAlone params s.tree)
    (fuel : ℕ) : Runs (explore c fuel) s
      (fun code s' => Settles code (verdict code s'.tree.incumbent.isSome)) fun _ => True := by
  have hkept := (SearchTask.Keeps.of_lasts (hI.upholds.explore fuel)).runs halone
  exact (((hS.explore_ends h fuel).and hkept).imp
    fun _ _ hs' => hs'.1.settles hlimit hs'.2).weaken fun _ _ => trivial

theorem conclude_settles (h : S.Fresh s.session.world s.tree) (halone : LeftAlone params s.tree)
    (fuel : ℕ) : Runs (conclude c fuel) s (fun r _ => Settles r.1 r.2.status) fun _ => True := by
  refine conclude_runs (I := fun s => S.Fresh s.session.world s.tree ∧ LeftAlone params s.tree)
    (fun s s' htree hworld h => ?_) (fun s h => ?_)
    (fun s h => hS.explore_settles hlimit hI h.1 h.2 fuel) ⟨h, halone⟩
  · rw [htree, hworld]
    exact h
  · have hpresolved := (presolved_runs h.1).and
      ((SearchTask.Keeps.of_lasts hI.upholds.presolved).runs h.2)
    refine ((hpresolved.and (hS.presolved_settles h.1)).imp ?_).weaken fun _ _ => trivial
    rintro r s' ⟨⟨hfresh, halone⟩, hsettles⟩
    refine ⟨?_, hsettles⟩
    rintro rfl
    exact ⟨hfresh, halone⟩

/-- A search whose bounds can be worked with, and which has a basis or looks for one, comes to its
end. It returns when there is fuel for all of its nodes. -/
theorem intopt_settles (hint : params.integerTolerance = rat S.aim.integer)
    (hobj : S.aim.Ranks → params.objectiveTolerance = rat S.aim.objective)
    (hgap : params.gap = S.aim.gap)
    (hobstacle : obstacle p = .ok none)
    (hroot : params.presolve = 0 → p.basic.status = .optimal) (fuel : ℕ)
    {s : Session Extended σ} (hw : S.World s.world) :
    Runs (intopt c params fuel p) s (fun r _ => Settles r.2 r.1.integer.status)
      fun _ => ¬(Unhindered c params p ∧ 4 * p.lattice.card ≤ fuel + 1) := by
  have hfresh := fun now : Extended => fresh_ofProblem hint hobj hgap now hw
  have hsettles : Runs (intopt c params fuel p) s (fun r _ => Settles r.2 r.1.integer.status)
      fun _ => True := by
    refine intopt_ends c params fuel p (Q := Settles) (fun _ _ => trivial) (fun why hwhy => ?_)
      (fun hno => absurd (hroot hno.1) hno.2) fun s' hs' => ?_
    · rw [hobstacle] at hwhy
      cases hwhy
    · exact hS.conclude_settles hlimit hI (s := ⟨s', _⟩) (hs' ▸ hfresh _) ⟨rfl, rfl⟩ fuel
  by_cases hreturns : Unhindered c params p ∧ 4 * p.lattice.card ≤ fuel + 1
  · obtain ⟨hunhindered, hfuel⟩ := hreturns
    have hrun := intopt_returns c params fuel (s := s) ⟨none, hobstacle⟩ fun s' hs' =>
      (hunhindered.conclude_returns hS.sustains (w := s.world) (s := ⟨s', _⟩) (hs' ▸ hfresh _)
        (hunhindered.fresh _) hfuel).imp fun _ _ _ => trivial
    exact ((hsettles.and hrun).imp fun _ _ h => h.1).weaken fun _ h => h.2.elim
  · exact hsettles.weaken fun _ _ => hreturns

end Setting.Peaceful

/-! ### Searches without a bound -/

section
variable {p : Problem Extended} (hexact : c.host.IsExact) (hdecides : c.host.Decides)
  (hp : p.Rational) (hbounds : p.badBounds = none) (hunbounded : p.Admits .unbounded)
include hexact hdecides hp hbounds hunbounded hlimit

theorem presolved_unbounded {s : Scene Extended σ} (hparams : s.tree.params = params)
    (hproblem : s.tree.problem = p) :
    Runs (presolved c) s (fun r _ => r = some (.noDual, .undefined)) fun _ => False := by
  have hrelaxation : Runs (relaxation c) s (fun _ s' => s'.tree = s.tree) fun _ => False := by
    unfold relaxation
    refine tree_bind ?_
    dsimp only
    rw [hparams, if_neg hlimit]
    exact .pure rfl
  unfold presolved
  refine hrelaxation.bind fun settings s₁ htree => ?_
  rw [← htree] at hproblem
  have hsimplex : Task.Returns
      (simplex c.host { settings with presolve := 1 } s₁.tree.problem) fun r => r.2 = .noDual :=
    hproblem ▸ simplex_presolves_unbounded hexact hdecides hp hbounds hunbounded (by simp)
  refine (Unhindered.relax_solves hsimplex).bind ?_
  rintro code s₂ ⟨q, hcode, -⟩
  obtain rfl : code = .noDual := hcode
  exact (Unhindered.say_returns _).bind fun _ _ _ => .pure rfl

/-- The presolver ends a search whose relaxation has points as good as one likes. -/
theorem intopt_unbounded (hpresolve : params.presolve ≠ 0) (hobstacle : obstacle p = .ok none)
    (fuel : ℕ) (s : Session Extended σ) : Runs (intopt c params fuel p) s
      (fun r _ => r.2 = .noDual ∧ r.1.integer.status = .undefined) fun _ => False := by
  refine intopt_ends c params fuel p (Q := fun code status => code = .noDual ∧ status = .undefined)
    (fun err herr => ?_) (fun why hwhy => ?_) (fun hno => absurd hno.1 hpresolve) fun s' _ => ?_
  · rw [hobstacle] at herr
    cases herr
  · rw [hobstacle] at hwhy
    cases hwhy
  have hrational : p.copy.Rational := ⟨hp.constant, hp.cost, hp.proper, hp.whole, hp.rows⟩
  unfold conclude
  refine tree_bind ?_
  refine Runs.detour (I := fun s' => s'.tree = Tree.ofProblem params p (c.host.now s.world)) rfl
    (fun hrest => tree_bind (hrest _ rfl)) fun s₁ hs₁ => ?_
  rw [if_pos (by exact hpresolve)]
  refine (presolved_unbounded hlimit hexact hdecides hrational hbounds
    (hunbounded.withSolutions _ _ _) (by rw [hs₁]; rfl) (by rw [hs₁]; rfl)).bind ?_
  rintro _ s₂ rfl
  exact .pure ⟨rfl, rfl⟩

end

end Search

end MixedInteger
