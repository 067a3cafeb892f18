import MixedInteger.Proofs.Problem.Point
import MixedInteger.Proofs.Search.Outcome
import MixedInteger.Proofs.Solver.SingleColumn
import MixedInteger.Proofs.Steps
import MixedInteger.Search.Run

/-! What the world is shown of a search. An event leaves a mark on the world, and the first
thing that a search does is to announce that it selects a node. So whatever a search answers,
the world has the mark; or else the search came to its end before it had begun, and the world is
as it was. A search starts on a problem that is not refused: then the finite bounds of its
integer columns are integers, when the data are rational. A listener that adds rows, and else
only asks for the end, is shown a tree at each event. The bound of the best node of that tree is
never worse than any feasible point of the problem with the rows so far, up to what rounding
moves, and from event to event it does not get better. The trees are noted in the world, with
the search otherwise as it is. -/

namespace MixedInteger

open Extended SearchTask

/-! ### Marks of events -/

namespace Search.Setting

variable {σ : Type} {c : Search.Company Extended σ} {p : Problem Extended}
  (S : Search.Setting c p) {Mark : σ → Prop}

/-- Each event leaves the mark, also when the listener fails. -/
structure Marks (Mark : σ → Prop) : Prop where
  hears : ∀ r s, s.tree.Ready p S.aim S.Allowed → S.Track s.session.world s.tree →
    Runs (announce c.listener r) s (fun _ s' => Mark s'.session.world)
      fun s' => Mark s'.session.world
  keeps : c.host.Keeps Mark

variable {S} (hmarks : S.Marks Mark)

/-- The setting once the world has the mark. -/
def marked : Search.Setting c p :=
  { S with
    World := fun w => S.World w ∧ Mark w
    Track := fun w t => S.Track w t ∧ Mark w
    world := fun r w hw => ⟨S.world r w hw.1, hmarks.keeps r w hw.2⟩
    start := fun w t hw => ⟨S.start w t hw.1, hw.2⟩
    keeps := fun t r w hw => ⟨S.keeps t r w hw.1, hmarks.keeps r w hw.2⟩
    leads := fun w t t' ht hleads => ⟨S.leads w t t' ht.1 hleads, ht.2⟩
    hears := fun r s hready ht => by
      refine (((S.hears r s hready ht.1).and (hmarks.hears r s hready ht.1)).imp ?_).weaken ?_
      · exact fun _ _ h => ⟨h.1.1, ⟨h.1.2.1, h.2⟩, h.1.2.2⟩
      · rintro _ ⟨⟨t, ht⟩, hmark⟩
        exact ⟨t, ht, hmark⟩ }

variable {s : Scene Extended σ} {w : σ} {t : Tree Extended}

theorem Calm.marked (h : S.Calm w t) (hw : Mark w) : (S.marked hmarks).Calm w t :=
  ⟨h.grown, h.sound, h.hopeful, h.track, hw⟩

theorem broken_of_marked (s : Scene Extended σ) (h : (S.marked hmarks).Broken s) :
    S.Broken s := by
  obtain ⟨t, ht, -⟩ := h
  exact ⟨t, ht⟩

include hmarks in
theorem heard_marks (hready : s.tree.Ready p S.aim S.Allowed)
    (ht : S.Track s.session.world s.tree) (r : Reason) :
    Runs (Search.heard c r) s (fun _ s' => Mark s'.session.world) fun s' => Mark s'.session.world :=
  (hmarks.hears r s hready ht).bind fun _ _ h => tree_bind h

/-- The first node is not chosen before an event was announced, unless there is no time left. -/
theorem choose_marks (h : S.Calm s.session.world s.tree) (hw : S.World s.session.world)
    (hne : s.tree.active ≠ []) (hnone : s.tree.incumbent = none) :
    Runs (Search.choose c) s
      (fun next s' => (S.marked hmarks).Follows next s'.session.world s'.tree ∨
        next = .done .timeLimit ∧ s'.tree.incumbent = none ∧ S.World s'.session.world)
      S.Broken := by
  unfold Search.choose
  refine tree_bind ?_
  rw [if_neg fun hempty => hne (List.isEmpty_iff.1 hempty)]
  refine (timeUp_runs (W := fun w => S.World w ∧ S.Track w s.tree) ⟨hw, h.track⟩ ?_).bind ?_
  · exact fun s' h => ⟨s.tree, h.2⟩
  rintro late s₁ ⟨htree, hw₁, ht₁⟩
  rw [← htree] at h ht₁ hne hnone
  split_ifs with hlate
  · exact .pure (.inr ⟨rfl, hnone, hw₁⟩)
  -- without an incumbent no gap is reached
  have hgap : ¬Search.gapReached s₁.tree = true := by simp [Search.gapReached, hnone]
  refine tree_bind ?_
  rw [if_neg hgap]
  refine modifyTree_bind ?_
  have h : S.Calm s₁.session.world { s₁.tree with current := none } :=
    ({ h with track := ht₁ } : S.Calm s₁.session.world s₁.tree).released
  have hready := h.ready hne
  have hheard := (heard_runs (s := { s₁ with tree := { s₁.tree with current := none } }) hready
    h.track .selection).and (heard_marks hmarks hready h.track .selection)
  refine (hheard.weaken fun _ hs => hs.1).bind ?_
  rintro stop s₂ ⟨⟨hgrows, ht₂, -⟩, hmark⟩
  have h₂ := (h.grows hgrows ht₂).marked hmarks hmark
  have hne₂ : s₂.tree.active ≠ [] := by
    obtain ⟨q, stopped, reason, heq, -⟩ := hgrows
    rw [heq]
    exact hne
  cases stop with
  | true => exact .pure (.inl h₂.stopped)
  | false => exact ((take_runs h₂ hne₂).imp fun _ _ => .inl).weaken (broken_of_marked hmarks)

variable (S) in
/-- Some event was announced, or the search ran out of time before. -/
theorem explore_marks (h : S.Fresh s.session.world s.tree) (fuel : ℕ) :
    Runs (Search.explore c fuel) s
      (fun code s' => (S.marked hmarks).Ended code s'.session.world s'.tree ∨
        code = .timeLimit ∧ s'.tree.incumbent = none ∧ S.World s'.session.world)
      S.Broken := by
  have hnone : s.tree.plant.incumbent = none := h.incumbent
  have hne : s.tree.plant.active ≠ [] := by simp [Tree.plant]
  refine modifyTree_bind ?_
  cases fuel with
  | zero => exact ⟨s.tree.plant, h.plant.track⟩
  | succ fuel =>
    unfold Search.run
    have hchoose := choose_marks (s := { s with tree := s.tree.plant }) hmarks h.plant h.world
      hne hnone
    refine hchoose.bind ?_
    rintro next s' (hfollows | ⟨rfl, hnone, hw⟩)
    · cases next with
      | done code => exact .pure (.inl hfollows)
      | go phase =>
        exact ((run_runs fuel phase hfollows).imp fun _ _ => .inl).weaken (broken_of_marked hmarks)
    · exact .pure (.inr ⟨rfl, hnone, hw⟩)

include hmarks in
/-- The world has the mark after a search that had begun. -/
theorem intopt_marks {params : Parameter.Search Extended}
    (hint : params.integerTolerance = rat S.aim.integer)
    (hobj : S.aim.Ranks → params.objectiveTolerance = rat S.aim.objective)
    (hgap : params.gap = S.aim.gap)
    (fuel : ℕ) {s : Session Extended σ} (hw : S.World s.world) :
    Runs (intopt c params fuel p) s
      (fun r s' => ∃ sol, r.1 = p.withInteger sol ∧
        (S.Unbegun r.2 sol s'.world ∨ S.Answered r.2 sol s'.world ∧ Mark s'.world))
      fun s' => ∃ t, S.Track s'.world t := by
  let R (code : ReturnCode) (sol : Solution Extended) (w : σ) : Prop :=
    S.Unbegun code sol w ∨ S.Answered code sol w ∧ Mark w
  have htrack : ∀ {code sol w}, R code sol w → ∃ t, S.Track w t := by
    rintro code sol w (h | h)
    · exact h.answered.2
    · exact h.1.2
  refine intopt_satisfies (R := R) .inl htrack (fun s h => ?_) hint hobj hgap hw
  refine (explore_marks S hmarks h fuel).imp ?_
  rintro code s' (h' | ⟨rfl, hnone, hw⟩)
  · exact .inr ⟨⟨⟨_, h'.grown, h'.outcome⟩, _, h'.track.1⟩, h'.track.2⟩
  · rw [Tree.solution, hnone]
    exact .inl (unbegun hw (by simp [ReturnCode.GivesUp]))

end Search.Setting

/-! ### What keeps a search from starting -/

section

/-- The data of a problem are rational, and its bounds are those that their kinds use; integer
columns may have fractional bounds. -/
structure Problem.Plain (p : Problem Extended) : Prop where
  constant : p.constant.IsRat
  cost : ∀ c ∈ p.columns, c.cost.IsRat
  proper : ∀ c ∈ p.columns, Problem.ProperBounds c.lower c.upper
  sides : ∀ c ∈ p.columns, c.bound.sides c.lower c.upper = (c.lower, c.upper)
  rows : ∀ r ∈ p.rows, r.Rational

/-- A bound that passes the check of a search is an integer. -/
theorem isInt_of_check {x : Extended} {o : Obstacle Extended}
    {rest : Except RoundingError (Option (Obstacle Extended))}
    (h : (do if !(x == (← Scalar.floor x)) then return some o else rest) = .ok none) :
    (∃ k : ℤ, x = rat k) ∧ rest = .ok none := by
  obtain ⟨y, hfloor, h⟩ := except_bind_eq_ok.1 h
  cases x with
  | nan => cases hfloor
  | bottom => cases hfloor
  | top => cases hfloor
  | rat q =>
    cases hfloor
    split_ifs at h with heq
    · cases h
    · rw [Bool.not_eq_true', Bool.not_eq_false, ofInt_eq, floorInt_rat, rat_beq_rat,
        decide_eq_true_eq] at heq
      exact ⟨⟨_, congrArg rat heq⟩, h⟩

theorem Column.isInt_of_fractionalBound {c : Column Extended} {j : ℕ}
    (h : c.fractionalBound j = .ok none) (hk : c.kind = .integer) :
    (c.bound.hasLower = true → ∃ k : ℤ, c.lower = rat k) ∧
      (c.bound.hasUpper = true → ∃ k : ℤ, c.upper = rat k) := by
  unfold Column.fractionalBound at h
  rw [if_neg (not_not.2 hk)] at h
  dsimp only at h
  cases hl : c.bound.hasLower <;> cases hu : c.bound.hasUpper <;>
    simp only [hl, hu, Bool.false_eq_true, if_false, if_true, false_implies, true_implies,
      true_and, and_true] at h ⊢
  · exact (isInt_of_check h).1
  · exact (isInt_of_check h).1
  · exact ⟨(isInt_of_check h).1, (isInt_of_check (isInt_of_check h).2).1⟩

theorem Problem.Plain.rational {p : Problem Extended} (hp : p.Plain)
    (h : Search.obstacle p = .ok none) : p.Rational := by
  refine ⟨hp.constant, hp.cost, hp.proper, fun c hc hk => ?_, hp.rows⟩
  obtain ⟨o, ho, h⟩ := except_bind_eq_ok.1 h
  cases o with
  | some o => cases h
  | none =>
    have hcolumns : p.numberedColumns.map (·.2) = p.columns :=
      List.map_snd_zip (by simp [Problem.columnCount])
    rw [← hcolumns] at hc
    obtain ⟨e, he, rfl⟩ := List.mem_map.1 hc
    have hint := Column.isInt_of_fractionalBound (fractionalBound_of_firstFractional ho e he) hk
    have hsides := hp.sides e.2 (hcolumns ▸ hc)
    cases hb : e.2.bound <;> rw [hb] at hint hsides <;>
      simp only [BoundKind.sides, BoundKind.hasLower, BoundKind.hasUpper, Bool.false_eq_true,
        false_implies, true_implies, true_and, and_true, Prod.mk.injEq] at hint hsides
    · exact ⟨.inl hsides.1.symm, .inl hsides.2.symm⟩
    · exact ⟨.inr hint, .inl hsides.symm⟩
    · exact ⟨.inl hsides.symm, .inr hint⟩
    · exact ⟨.inr hint.1, .inr hint.2⟩
    · exact ⟨.inr hint, .inr (hsides ▸ hint)⟩

/-- A problem that is refused is not shown to anybody. -/
theorem intopt_refused {σ : Type} {c : Search.Company Extended σ}
    {params : Parameter.Search Extended} {fuel : ℕ} {p : Problem Extended}
    (h : Search.obstacle p ≠ .ok none) (s : Session Extended σ) :
    (after (intopt c params fuel p) s).world = s.world := by
  unfold intopt
  cases ho : Search.obstacle p with
  | error e => rfl
  | ok o =>
    cases o with
    | none => exact absurd ho h
    | some why =>
      simp only [after, bind_run, Task.ofRounding, pure_run, Task.tellAt, Task.tell]
      split_ifs <;> rfl

end

open Finset

variable {σ : Type}

/-! ### Noting what is shown -/

/-- A world with the trees that a listener was shown, the last one first. -/
structure Logged (σ : Type) where
  world : σ
  shown : List (Tree Extended)

def Host.logged (host : Host Extended σ) : Host Extended (Logged σ) where
  solve r w :=
    let (a, world) := host.solve r w.world
    (a, { w with world := world })
  now w := host.now w.world

def Session.logged (s : Session Extended σ) (shown : List (Tree Extended)) :
    Session Extended (Logged σ) := ⟨⟨s.world, shown⟩, s.journal⟩

def Session.unlogged (s : Session Extended (Logged σ)) : Session Extended σ :=
  ⟨s.world.world, s.journal⟩

/-- Notes the tree, then listens. -/
def Listener.logged (hear : Listener Extended σ) : Listener Extended (Logged σ) := fun s =>
  let back (r : Scene Extended σ) : Scene Extended (Logged σ) :=
    ⟨r.session.logged (s.tree :: s.session.world.shown), r.tree⟩
  match hear ⟨s.session.unlogged, s.tree⟩ with
  | .ok _ r => .ok () (back r)
  | .error e r => .error e (back r)

/-- A listener that does nothing to the tree but add rational rows to its working problem and ask
for the end. -/
def Listener.AddsRows (hear : Listener Extended σ) : Prop :=
  ∀ s s', hear s = .ok () s' → ∃ q stopped,
    s'.tree = { s.tree with problem := q, stopped := stopped } ∧
      q.Extends Row.Rational s.tree.problem

theorem Host.logged_isExact {host : Host Extended σ} (h : host.IsExact) : host.logged.IsExact :=
  fun r w a hr ha => h r w.world a hr ha

/-! ### What a tree shows -/

namespace Tree

/-- The bound of the best node. -/
def shownBound (t : Tree Extended) : Except SearchError Extended := t.nodeBound t.bestNumber

variable {p : Problem Extended} {aim : Aim} {t : Tree Extended}

theorem Sound.shownBound_eq {missing : Set (ℕ → ℚ)} (h : t.Sound p aim missing)
    (hne : t.active ≠ []) : ∃ b ∈ t.active, t.shownBound = .ok b.bound ∧
      ∀ n ∈ t.active, p.sense * b.bound ≤ p.sense * n.bound := by
  obtain ⟨b, hb, hbest, hleast⟩ := h.exists_best hne
  refine ⟨b, hb, ?_, hleast⟩
  have hfind : t.active.find? (fun n => (n.number : ℤ) == (b.number : ℤ)) = some b := by
    cases hfound : t.active.find? (fun n => (n.number : ℤ) == (b.number : ℤ)) with
    | none => exact absurd (List.find?_eq_none.1 hfound b hb) (by simp)
    | some n =>
      have hnumber : n.number = b.number := by simpa using List.find?_some hfound
      rw [h.unique n (List.mem_of_find?_eq_some hfound) b hb hnumber]
  unfold shownBound bestNumber nodeBound
  rw [hbest]
  simp only [hfind]

/-- The bound that is shown is one for all feasible points, up to the shift. -/
def ShowsBound (p : Problem Extended) (shift : ℚ) (t : Tree Extended) : Prop :=
  ∃ b, t.shownBound = .ok b ∧ ∀ z, (p.withRows t.problem.rows).Feasible z →
    p.sense * b ≤ rat (p.sign * p.valueOf z + shift)

/-- The bound that is shown first is not worse than the one that is shown then. -/
def ShowsBefore (p : Problem Extended) (t t' : Tree Extended) : Prop :=
  ∀ b b', t.shownBound = .ok b → t'.shownBound = .ok b' → p.sense * b ≤ p.sense * b'

end Tree

/-! ### The log of a search -/

/-- What the log and the tree of a search have to do with each other. -/
structure Logged.Tracks (p : Problem Extended) (shift : ℚ) (w : Logged σ) (t : Tree Extended) :
    Prop where
  valid : ∀ t₀ ∈ w.shown, t₀.ShowsBound p shift
  ordered : w.shown.Pairwise fun t₂ t₁ => t₁.ShowsBefore p t₂
  below : ∀ t₀ ∈ w.shown, ∀ b, t₀.shownBound = .ok b → ∀ n ∈ t.active,
    p.sense * b ≤ p.sense * n.bound

namespace Logged.Tracks

variable {p : Problem Extended} {aim : Aim} {w : Logged σ} {t t' : Tree Extended}

theorem nothing {shift : ℚ} (h : w.shown = []) : w.Tracks p shift t :=
  ⟨by simp [h], by simp [h], by simp [h]⟩

theorem leads {shift : ℚ} (h : w.Tracks p shift t) (hleads : t.Leads p t') :
    w.Tracks p shift t' where
  valid := h.valid
  ordered := h.ordered
  below t₀ ht₀ b hb n' hn' := by
    obtain ⟨n, hn, hle⟩ := hleads n' hn'
    exact le_trans (h.below t₀ ht₀ b hb n hn) hle

/-- A tree that is shown may be noted. -/
theorem note (h : w.Tracks p aim.shift t) (hready : t.Ready p aim Row.Rational)
    (hranks : aim.Ranks) (world : σ) : Logged.Tracks p aim.shift ⟨world, t :: w.shown⟩ t := by
  obtain ⟨extra, hbase, -⟩ := hready.grown
  have hbounds := hready.bounds hranks
  have hsound := hready.sound
  have hrows : t.base = p.withRows t.problem.rows := by
    rw [hbase]
    exact congrArg p.withRows (congrArg Problem.rows hbase).symm
  rw [hrows] at hbounds hsound
  obtain ⟨b, hb, hshown, hleast⟩ := hsound.shownBound_eq hready.active
  have hnew : ∀ b', t.shownBound = .ok b' → b' = b.bound := by
    intro b' hb'
    rw [hshown] at hb'
    exact (Except.ok.inj hb').symm
  refine ⟨?_, List.pairwise_cons.2 ⟨fun t₀ ht₀ b₀ b' hb₀ hb' => ?_, h.ordered⟩, ?_⟩
  · refine List.forall_mem_cons.2 ⟨⟨b.bound, hshown, fun z hz => ?_⟩, h.valid⟩
    obtain ⟨n, hn, hle⟩ := hbounds z hz
    exact le_trans (hleast n hn) hle
  · rw [hnew b' hb']
    exact h.below t₀ ht₀ b₀ hb₀ b hb
  · refine List.forall_mem_cons.2 ⟨fun b' hb' n hn => ?_, h.below⟩
    rw [hnew b' hb']
    exact hleast n hn

end Logged.Tracks

theorem Tree.Ready.announced {p : Problem Extended} {aim : Aim} {Allowed : Row Extended → Prop}
    {t : Tree Extended} (h : t.Ready p aim Allowed) (r : Option Reason) :
    ({ t with reason := r } : Tree Extended).Ready p aim Allowed :=
  ⟨h.grown, h.sound.congr rfl, h.active, h.bounds⟩

/-- The setting of a search whose trees are noted. -/
def Search.Setting.logged {host : Host Extended σ} (hhost : host.IsExact)
    {hear : Listener Extended σ} (hhear : hear.AddsRows) {p : Problem Extended} (hp : p.Rational)
    {τ t : ℚ} (g : Extended) (hτ : 0 ≤ τ) (ht : 0 ≤ t) (ht' : t ≤ 1) :
    Search.Setting ⟨host.logged, some hear.logged⟩ p where
  aim :=
    { Ranks := True
      integer := τ
      objective := t
      gap := g
      shift := τ * ∑ j ∈ p.integers, |p.costAt j|
      Kept := fun _ => True
      objective_nonneg := ht
      objective_le_one := ht'
      shift_nonneg := Problem.drift_nonneg hτ }
  Allowed := Row.Rational
  Accepted _ := True
  World w := w.shown = []
  Track w t := w.Tracks p (τ * ∑ j ∈ p.integers, |p.costAt j|) t
  rational := hp
  exact := Host.logged_isExact hhost
  allowed _ h := h
  world _ _ h := h
  start _ _ h := .nothing h
  keeps _ _ _ h := ⟨h.valid, h.ordered, h.below⟩
  leads _ _ _ h hleads := h.leads hleads
  kept _ _ _ _ _ := trivial
  near _ hnear _ := Problem.abs_valueOf_rounded_le hnear
  hears r s hready htrack := by
    have hannounced := hready.announced (some r)
    have htracked : Logged.Tracks p (τ * ∑ j ∈ p.integers, |p.costAt j|) s.session.world
      { s.tree with reason := some r } := ⟨htrack.valid, htrack.ordered, htrack.below⟩
    have hnote := htracked.note hannounced trivial
    unfold Runs announce Listener.logged
    dsimp only
    cases hrun : hear ⟨s.session.unlogged, { s.tree with reason := some r }⟩ with
    | ok u s' =>
      obtain ⟨q, stopped, htree, hq⟩ := hhear _ _ hrun
      dsimp only
      rw [htree]
      refine ⟨⟨q, stopped, none, rfl, hq⟩, ?_, fun _ _ _ _ => trivial⟩
      exact ⟨(hnote _).valid, (hnote _).ordered, (hnote _).below⟩
    | error e s' => exact ⟨_, hnote _⟩

/-! ### Better and worse -/

/-- The second bound promises no more than the first: it is not below it when the objective is
minimised, and not above it when it is maximised. -/
def Problem.Worsens (p : Problem Extended) (b b' : Extended) : Prop :=
  if p.direction = .maximize then b' ≤ b else b ≤ b'

theorem Problem.worsens_of_sense {p : Problem Extended} {b b' : Extended}
    (h : p.sense * b ≤ p.sense * b') : p.Worsens b b' := by
  have hone : ∀ x : Extended, (1 : Extended) * x = x := by
    intro x
    cases x with
    | rat q => rw [one_eq, rat_mul_rat, one_mul]
    | _ => rfl
  have hneg : ∀ x : Extended, (-1 : Extended) * x = -x := by
    intro x
    cases x with
    | rat q => rw [one_eq, neg_rat, rat_mul_rat, neg_rat, neg_one_mul]
    | _ => rfl
  unfold Problem.sense at h
  unfold Problem.Worsens
  split_ifs at h ⊢ with hdirection
  · rw [hneg, hneg] at h
    cases b <;> cases b' <;> first | rfl | exact absurd h Bool.false_ne_true | skip
    rw [neg_rat, neg_rat, rat_le_rat, neg_le_neg_iff] at h
    exact (rat_le_rat _ _).2 h
  · rwa [hone, hone] at h

/-- Whatever a listener does that adds rows, and however the search ends: at each event the bound
of the best node is one for the points that are feasible with the rows so far, up to what rounding
moves, and it never gets better from one event to the next. -/
theorem intopt_shows_bounds {host : Host Extended σ} (hhost : host.IsExact)
    {p : Problem Extended} (hp : p.Plain) {params : Parameter.Search Extended} {τ t : ℚ}
    (hτ : params.integerTolerance = rat τ) (hτ₀ : 0 ≤ τ)
    (ht : params.objectiveTolerance = rat t) (ht₀ : 0 ≤ t) (ht₁ : t ≤ 1)
    {hear : Listener Extended σ} (hhear : hear.AddsRows) (fuel : ℕ) (s : Session Extended σ) :
    let shown :=
      (after (intopt ⟨host.logged, some hear.logged⟩ params fuel p) (s.logged [])).world.shown
    (∀ t ∈ shown, ∃ b, t.nodeBound t.bestNumber = .ok b ∧
      ∀ z, (p.withRows t.problem.rows).Feasible z →
        p.sense * b ≤ rat (p.sign * p.valueOf z + τ * ∑ j ∈ p.integers, |p.costAt j|)) ∧
    shown.Pairwise fun t₂ t₁ => ∀ b₁ b₂, t₁.nodeBound t₁.bestNumber = .ok b₁ →
      t₂.nodeBound t₂.bestNumber = .ok b₂ → p.Worsens b₁ b₂ := by
  intro shown
  obtain ⟨t, htrack⟩ : ∃ t, Logged.Tracks p (τ * ∑ j ∈ p.integers, |p.costAt j|)
      (after (intopt ⟨host.logged, some hear.logged⟩ params fuel p) (s.logged [])).world t := by
    by_cases hobstacle : Search.obstacle p = .ok none
    · have hruns := Search.Setting.intopt_runs
        (S := .logged hhost hhear (hp.rational hobstacle) params.gap hτ₀ ht₀ ht₁) hτ (fun _ => ht) rfl
        fuel (s := s.logged []) rfl
      unfold Runs at hruns
      unfold after
      cases hrun : intopt ⟨host.logged, some hear.logged⟩ params fuel p (s.logged []) with
      | ok r s' =>
        rw [hrun] at hruns
        obtain ⟨-, -, -, htrack⟩ := hruns
        exact htrack
      | error e s' =>
        rw [hrun] at hruns
        exact hruns
    · rw [intopt_refused hobstacle]
      exact ⟨Tree.ofProblem params p 0, .nothing rfl⟩
  exact ⟨htrack.valid, htrack.ordered.imp fun h b₁ b₂ hb₁ hb₂ =>
    Problem.worsens_of_sense (h b₁ b₂ hb₁ hb₂)⟩

/-- Adds `2 x ≤ 5` at the first event where rows can be added. -/
def cutting : Listener Extended Unit := fun s =>
  let cut : Row Extended := { bound := .upper, upper := rat 5, coefs := [(1, rat 2)] }
  let q := { s.tree.problem with rows := s.tree.problem.rows ++ [cut] }
  if s.tree.reason = some .rowGeneration ∧ s.tree.problem.rows.length = 1 then
    .ok () { s with tree := { s.tree with problem := q } }
  else .ok () s

theorem cutting_addsRows : cutting.AddsRows := by
  intro s s' h
  unfold cutting at h
  split_ifs at h
  · cases h
    refine ⟨_, s.tree.stopped, rfl, rfl, rfl, rfl, ⟨_, rfl, ?_⟩, fun hrows => ?_⟩
    · simp only [List.mem_singleton, forall_eq]
      exact ⟨by simp [Extended.IsRat, value], rfl, (fun h => nomatch h), fun _ => rfl⟩
    · exact absurd (congrArg List.length hrows) (by simp)
  · cases h
    exact ⟨s.tree.problem, s.tree.stopped, rfl, .refl _⟩

theorem halves_plain : halves.Plain :=
  ⟨halves_rational.constant, halves_rational.cost, halves_rational.proper,
    by simp only [halves, List.mem_singleton, forall_eq]; rfl, halves_rational.rows⟩

/-- The bound falls from seven halves to five halves when the row comes, and then to two. -/
theorem intopt_shows_bounds_cutting :
    let shown := (after (intopt ⟨Host.single.logged, some cutting.logged⟩ { presolve := 1 } 20 halves)
      (Session.logged ⟨(), #[]⟩ [])).world.shown
    shown.length = 13 ∧ shown.Pairwise fun t₂ t₁ => ∀ b₁ b₂,
      t₁.nodeBound t₁.bestNumber = .ok b₁ → t₂.nodeBound t₂.bestNumber = .ok b₂ →
        halves.Worsens b₁ b₂ :=
  ⟨by decide +kernel, (intopt_shows_bounds Host.single_isExact halves_plain
    (τ := 1 * 10 ^ (-5 : ℤ)) (t := 1 * 10 ^ (-7 : ℤ)) rfl (by norm_num) rfl (by norm_num)
    (by norm_num) cutting_addsRows 20 ⟨(), #[]⟩).2⟩

end MixedInteger
