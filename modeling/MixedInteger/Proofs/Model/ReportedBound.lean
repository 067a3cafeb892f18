import MixedInteger.Proofs.Model.LazyConstraints
import MixedInteger.Proofs.Search.Shown

/-! The bound that is reported after a search. A search leaves the bound of its best node with each
event, and the objective takes its place when a point is proved optimal. Both are bounds for all
points that satisfy the model, up to the tolerances. A search that is given up before its first
event leaves what an earlier solve has left, whatever became of the model since. -/

namespace MixedInteger

open Extended Finset SearchTask

variable {σ : Type}

/-! ### Bounds of a model -/

namespace Model

variable (m : Model Extended)

/-- The objective of the assignment is not better than the bound by more than the slack. -/
def BoundedBy (b : Extended) (slack : ℚ) (z : Assignment) : Prop :=
  if m.problem.direction = .maximize then rat (m.objective.valueAt z - slack) ≤ b
  else b ≤ rat (m.objective.valueAt z + slack)

/-- By how much rounding integer variables moves the objective at most. -/
def rounding (τ : ℚ) : ℚ := τ * ∑ j ∈ m.inner.problem.integers, |m.inner.problem.costAt j|

/-- What a bound may be off by. -/
def slack (τ t : ℚ) (b : Extended) : ℚ := max (t * (1 + |b.value|)) (m.rounding τ)

variable {m} {b : Extended} {d d' : ℚ} {z : Assignment}

theorem BoundedBy.mono (h : m.BoundedBy b d z) (hd : d ≤ d') : m.BoundedBy b d' z := by
  unfold BoundedBy at h ⊢
  split_ifs at h ⊢
  · exact le_trans ((rat_le_rat _ _).2 (by linarith)) h
  · exact le_trans h ((rat_le_rat _ _).2 (by linarith))

theorem objectiveBound_searched (c s : Solution Extended) (v : Watched Extended σ)
    (code : ReturnCode) (seconds : Extended) :
    (m.searched c v code s seconds).objectiveBound =
      if s.status = .optimal then s.objective else v.bound := rfl

/-- A search that minimises what is maximised compares with the sign changed. -/
theorem boundedBy_of_sense (hm : m.Sound) (hr : m.Rational)
    (h : m.inner.problem.sense * b ≤
      rat (m.inner.problem.sign * m.inner.problem.valueOf (m.pointOf z) + d)) :
    m.BoundedBy b d z := by
  let p := m.inner.problem
  have hvalue : m.objective.valueAt z = p.valueOf (m.pointOf z) := hm.valueAt_objective hr z
  have hsquare : p.sign * p.sign = 1 := by
    unfold Problem.sign
    split_ifs <;> norm_num
  have hmoved : p.sense * rat (m.objective.valueAt z + p.sign * d) =
      rat (p.sign * p.valueOf (m.pointOf z) + d) := by
    rw [Problem.sense_eq, rat_mul_rat, hvalue, mul_add, ← mul_assoc, hsquare, one_mul]
  have hworsens : p.Worsens b (rat (m.objective.valueAt z + p.sign * d)) :=
    Problem.worsens_of_sense (by rwa [hmoved])
  have hdirection : p.direction = m.problem.direction := rfl
  unfold Problem.Worsens Problem.sign at hworsens
  rw [hdirection] at hworsens
  unfold BoundedBy
  split_ifs at hworsens ⊢
  · rwa [neg_one_mul, ← sub_eq_add_neg] at hworsens
  · rwa [one_mul] at hworsens

end Model

/-! ### The whole solve -/

/-- What a search aims at when only its bounds matter. -/
def Model.boundAim (m : Model Extended) {τ t : ℚ} (hτ : 0 ≤ τ) (ht₀ : 0 ≤ t) (ht₁ : t ≤ 1) :
    Aim where
  Ranks := True
  integer := τ
  objective := t
  gap := m.stores.search.gap
  shift := m.rounding τ
  Kept _ := True
  objective_nonneg := ht₀
  objective_le_one := ht₁
  shift_nonneg := Problem.drift_nonneg hτ

theorem LazySearch.of_complies {m : Model Extended} (hm : m.Sound) (hr : m.Rational)
    {F : List LazyConstraint} (hF : ∀ e ∈ F, e.Proper m) {host : Host Extended σ}
    (hhost : host.IsExact) {τ t : ℚ} (hτ : 0 ≤ τ) (ht₀ : 0 ≤ t) (ht₁ : t ≤ 1)
    {callback : Option (Callback Extended σ)}
    (hcallback : ∀ call, callback = some call → call.Complies m F fun _ => True) :
    LazySearch m host callback F (fun _ => True) (m.boundAim hτ ht₀ ht₁) where
  sound := hm
  rational := hr
  proper := hF
  exact := hhost
  complies := hcallback
  accepts _ _ := trivial
  kept _ _ _ _ _ := trivial
  near _ hnear _ := Problem.abs_valueOf_rounded_le hnear

section
variable {m : Model Extended} {F : List LazyConstraint} (hm : m.Sound) (hr : m.Rational)
  (hF : ∀ e ∈ F, e.Proper m) {z : Assignment}
include hm hr hF

/-- What bounds a search bounds the assignments that satisfy the model and the family. -/
theorem Model.BoundsSearch.boundedBy {b : Extended} {d : ℚ} (h : m.BoundsSearch F d b)
    (hz : m.Satisfied z) (hholds : ∀ e ∈ F, e.Holds z) : m.BoundedBy b d z :=
  Model.boundedBy_of_sense hm hr (h _ ((Model.feasible_guarded_iff hm hr hF z).2 ⟨hz, hholds⟩))

/-- The objective of a point that is proved optimal is a bound, since no point is better by more
than the margin. -/
theorem Search.Outcome.boundedBy {τ t : ℚ} {hτ : 0 ≤ τ} {ht₀ : 0 ≤ t} {ht₁ : t ≤ 1}
    {code : ReturnCode} {s : Solution Extended}
    (h : Search.Outcome m.inner.problem (m.guarded F) (m.boundAim hτ ht₀ ht₁) code s)
    (hoptimal : s.status = .optimal) (hz : m.Satisfied z) (hholds : ∀ e ∈ F, e.Holds z) :
    m.BoundedBy s.objective (m.slack τ t s.objective) z := by
  obtain ⟨x, -, hobjective, -⟩ := h.found (.inl hoptimal)
  have hdominated := h.optimal (h.done hoptimal) hoptimal _
    ((Model.feasible_guarded_iff hm hr hF z).2 ⟨hz, hholds⟩) trivial
  rw [hobjective] at hdominated ⊢
  refine Model.boundedBy_of_sense hm hr ?_
  rw [Problem.sense_eq, rat_mul_rat, rat_le_rat]
  exact hdominated

end

/-- The bound that is reported after a solve with a search is one for all points that satisfy the
model and the constraints that a callback may have added; or else the search was given up before
its first event, no point is reported, and the bound is the one from before the solve. -/
theorem optimize_bounds {m : Model Extended} (hm : m.Reachable) (hr : m.Rational)
    (hmixed : m.IsMixed) {F : List LazyConstraint} (hF : ∀ e ∈ F, e.Proper m)
    {host : Host Extended σ} (hhost : host.IsExact) {τ t : ℚ}
    (hτ : m.stores.search.integerTolerance = rat τ) (hτ₀ : 0 ≤ τ)
    (ht : m.stores.search.objectiveTolerance = rat t) (ht₀ : 0 ≤ t) (ht₁ : t ≤ 1)
    {callback : Option (Callback Extended σ)}
    (hcallback : ∀ call, callback = some call → call.Complies m F fun _ => True) {fuel : ℕ}
    {session : Session Extended σ} {w : Workbench Extended σ}
    (hrun : Solving.optimize host callback fuel ⟨session, m⟩ = .ok () w) :
    (∀ z, m.Satisfied z → (∀ e ∈ F, e.Holds z) →
      m.BoundedBy w.model.objectiveBound (m.slack τ t w.model.objectiveBound) z) ∨
    (w.model.objectiveBound = m.last.objectiveBound ∧ w.model.primalStatus = .ok .noSolution ∧
      w.model.last.code.GivesUp) := by
  have hsearch := LazySearch.of_complies hm.sound hr hF hhost hτ₀ ht₀ ht₁ hcallback
  have hfinds := hsearch.finds hτ (fun _ => ht) rfl fuel
  obtain ⟨b, v, code, s, seconds, ⟨houtcome, hbound⟩, -, hw⟩ :=
    (Solving.optimize_searches (w := ⟨session, m⟩) hm.sound.roundable hmixed hfinds).ok hrun
  rw [hw, Model.objectiveBound_searched]
  by_cases hoptimal : s.status = .optimal
  · rw [if_pos hoptimal]
    exact .inl fun z hz hholds => houtcome.boundedBy hm.sound hr hF hoptimal hz hholds
  · rw [if_neg hoptimal]
    rcases hbound with hbounds | ⟨hsame, hstatus, hgivesUp⟩
    · refine .inl fun z hz hholds => ?_
      exact ((hbounds trivial).boundedBy hm.sound hr hF hz hholds).mono (le_max_right _ _)
    · exact .inr ⟨hsame, Model.primalStatus_searched.2 (.inr hstatus), hgivesUp⟩

/-! ### A search that is stopped -/

section

theorem CallbackData.terminate_run {d : CallbackData Extended} (hvalid : d.valid = true)
    (s : Scene Extended σ) :
    d.terminate s = .ok () { s with tree := { s.tree with stopped := true } } := by
  simp only [terminate, bind_run, tree_of_valid hvalid, modifyTree_run, Tree.stop]

/-- Asks for the end when a node is about to be divided. -/
def stopping : Callback Extended Unit := fun d => do
  let t ← d.tree
  if t.reason = some .branching then d.terminate

theorem stopping_complies : stopping.Complies capped [] fun _ => True := by
  intro d s s' hhands hrun
  have hresponds : ∀ stopped, s.tree.Responds capped [] (fun _ => True)
      { s.tree with stopped := stopped } := fun stopped =>
    ⟨⟨s.tree.problem, stopped, s.tree.reason, rfl, .refl _⟩, fun _ _ _ _ => trivial⟩
  simp only [stopping, bind_run, CallbackData.tree_of_valid hhands.valid] at hrun
  split_ifs at hrun
  · rw [CallbackData.terminate_run hhands.valid] at hrun
    cases hrun
    exact hresponds true
  · cases hrun
    exact hresponds s.tree.stopped

/-- When the search is stopped before it has found anything, the relaxation bounds the variable. -/
theorem optimize_bounds_stopping : ∃ w,
    Solving.optimize Host.single (some stopping) 20 ⟨⟨(), #[]⟩, capped⟩ = .ok () w ∧
      w.model.last.code = .stopped ∧ w.model.objectiveBound.value = 7 / 2 ∧
      ∀ z, capped.Satisfied z → capped.BoundedBy w.model.objectiveBound
        (capped.slack (1 * 10 ^ (-5 : ℤ)) (1 * 10 ^ (-7 : ℤ)) w.model.objectiveBound) z := by
  obtain ⟨_, w, hrun, -⟩ := exists_of_passes
    (x := Solving.optimize Host.single (some stopping) 20)
    (s := ⟨⟨(), #[]⟩, capped⟩) (fun _ => true) (by decide +kernel)
  have hafter := after_ok hrun
  have hcode : (after (Solving.optimize Host.single (some stopping) 20)
      ⟨⟨(), #[]⟩, capped⟩).model.last.code = .stopped := by decide +kernel
  have hvalue : (after (Solving.optimize Host.single (some stopping) 20)
      ⟨⟨(), #[]⟩, capped⟩).model.objectiveBound.value = 7 / 2 := by decide +kernel
  rw [hafter] at hcode hvalue
  have hcomplies : ∀ call, some stopping = some call →
      call.Complies capped [] fun _ => True := by
    rintro _ ⟨⟩
    exact stopping_complies
  rcases optimize_bounds capped_reachable capped_rational (.inr (by decide +kernel)) (F := [])
    (by simp) Host.single_isExact (τ := 1 * 10 ^ (-5 : ℤ)) (t := 1 * 10 ^ (-7 : ℤ)) rfl
    (by norm_num) rfl (by norm_num) (by norm_num) hcomplies hrun with hbounds | ⟨-, -, hgivesUp⟩
  · exact ⟨w, hrun, hcode, hvalue, fun z hz => hbounds z hz (by simp)⟩
  · exact absurd hcode hgivesUp.2.2.1

end

/-! ### A bound that is out of date -/

section

theorem Extended.eq_rat_of_value {x : Extended} {q : ℚ} (h : x.value = q) (hq : q ≠ 0) :
    x = rat q := by
  cases x with
  | rat r => exact congrArg rat h
  | _ => exact absurd h.symm hq

namespace Model

variable {m m' : Model Extended} (h : m'.unsolved = m.unsolved)
include h

theorem rational_of_unsolved (hm : m.Rational) : m'.Rational := by
  obtain ⟨hcolumns, hrows, hconstant, -⟩ := untouched_of_unsolved h
  exact ⟨hconstant ▸ hm.constant, hcolumns ▸ hm.cost, hrows ▸ hm.rows⟩

theorem satisfied_of_unsolved (z : Assignment) : m'.Satisfied z ↔ m.Satisfied z := by
  have hsame : ∀ m : Model Extended, m.unsolved.Satisfied z ↔ m.Satisfied z := fun _ => Iff.rfl
  rw [← hsame, h, hsame]

end Model

/-- The model when its first solve is over. -/
def settled : Model Extended :=
  (after (Solving.optimize Host.single none 20) ⟨⟨(), #[]⟩, capped⟩).model

theorem unsolved_settled : settled.unsolved = capped.unsolved :=
  capped_reachable.sound.unsolved_after Host.single none 20 ⟨(), #[]⟩

/-- Now the variable is minimised. -/
def turned : Model Extended := settled.withSense .minimize

theorem turned_reachable : turned.Reachable := (capped_reachable.solved ..).sense .minimize

theorem turned_rational : turned.Rational := by
  have hsettled := Model.rational_of_unsolved unsolved_settled capped_rational
  exact ⟨hsettled.constant, hsettled.cost, hsettled.rows⟩

theorem satisfied_capped : capped.Satisfied fun _ => -10 := by
  refine (capped_reachable.sound.feasible_inner_iff capped_rational _).1 ⟨⟨?_, ?_⟩, ?_⟩
  · rintro (_ | j) c ⟨⟩
    exact ⟨bottom_le_rat _, rat_le_top _⟩
  · rintro _ (_ | ⟨_, ⟨⟩⟩)
    constructor <;> decide +kernel
  · exact fun j hj => ⟨-10, by norm_num [Model.pointOf]⟩

theorem satisfied_turned : turned.Satisfied fun _ => -10 :=
  (Model.satisfied_of_unsolved unsolved_settled _).2 satisfied_capped

/-- The bound of the first solve is reported again after a second solve that is given up, though the
objective has no bound by then. -/
theorem not_forall_bounds : ¬∀ (m : Model Extended) (τ t : ℚ), m.Reachable → m.Rational →
    m.IsMixed → m.stores.search.integerTolerance = rat τ → 0 ≤ τ →
    m.stores.search.objectiveTolerance = rat t → 0 ≤ t → t ≤ 1 →
    ∀ w, Solving.optimize Host.single none 20 ⟨⟨(), #[]⟩, m⟩ = .ok () w →
      w.model.objectiveBound = nan ∨ ∀ z, m.Satisfied z →
        m.BoundedBy w.model.objectiveBound (m.slack τ t w.model.objectiveBound) z := by
  intro hall
  obtain ⟨_, w, hrun, -⟩ := exists_of_passes (x := Solving.optimize Host.single none 20)
    (s := ⟨⟨(), #[]⟩, turned⟩) (fun _ => true) (by decide +kernel)
  have hafter := after_ok hrun
  have hvalue : (after (Solving.optimize Host.single none 20)
      ⟨⟨(), #[]⟩, turned⟩).model.objectiveBound.value = 3 := by decide +kernel
  have hslack : turned.slack (1 * 10 ^ (-5 : ℤ)) (1 * 10 ^ (-7 : ℤ)) (rat 3) ≤ 1 := by
    decide +kernel
  have hobjective : (turned.objective.valueAt fun _ => -10) = -10 := by decide +kernel
  rw [hafter] at hvalue
  have hbound : w.model.objectiveBound = rat 3 := eq_rat_of_value hvalue (by norm_num)
  have hstores : turned.stores = capped.stores :=
    (Model.untouched_of_unsolved unsolved_settled).stores
  rcases hall turned (1 * 10 ^ (-5 : ℤ)) (1 * 10 ^ (-7 : ℤ)) turned_reachable turned_rational
    (.inr (by decide +kernel)) (hstores ▸ rfl) (by norm_num) (hstores ▸ rfl) (by norm_num)
    (by norm_num) w hrun with hnan | hbounds
  · rw [hnan] at hbound
    cases hbound
  · have hle := hbounds _ satisfied_turned
    rw [Model.BoundedBy, if_neg (by decide +kernel), hbound, hobjective, rat_le_rat] at hle
    linarith

end

end MixedInteger
