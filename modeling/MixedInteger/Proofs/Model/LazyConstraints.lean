import MixedInteger.Proofs.Model.CallbackSearch
import MixedInteger.Proofs.Model.Integral

/-! Lazy constraints are honoured. A callback adds constraints of a family while a model is being
searched, and at row generation it adds some as long as the point of the relaxation violates one.
So no point is taken that violates any of them, and what is lost with a node violates one. When
the search comes to its end it has found a best point among those that satisfy the model and the
whole family, or there is none. -/

namespace MixedInteger

open Extended Finset SearchTask

variable {σ : Type}

/-! ### Points that are integral -/

theorem nearestTo_intCast (k : ℤ) : nearestTo (k : ℚ) = k := by
  have hfloor := floor_le_nearestTo (k : ℚ)
  have hceil := nearestTo_le_ceil (k : ℚ)
  rw [Int.floor_intCast] at hfloor
  rw [Int.ceil_intCast] at hceil
  exact le_antisymm hceil hfloor

namespace Problem

variable {p : Problem Extended} {x y : ℕ → ℚ}

theorem rounded_of_integral (h : p.Integral x) : p.rounded x = x := by
  funext j
  unfold rounded
  split_ifs with hj
  · obtain ⟨k, hk⟩ := h j hj
    rw [hk, nearestTo_intCast]
  · rfl

section
variable (hxy : ∀ j < p.columnCount, x j = y j)
include hxy

theorem valueOf_congr : p.valueOf x = p.valueOf y :=
  congrArg (p.constant.value + ·) (sum_congr rfl fun j hj => by rw [hxy j (mem_range.1 hj)])

/-- Only the columns of the problem matter. -/
theorem Feasible.congr (h : p.Feasible x) : p.Feasible y where
  relaxed :=
    { within := fun {j c} hc => by
        rw [← hxy j (List.getElem?_eq_some_iff.1 hc).1]
        exact h.relaxed.within hc
      holds := fun r hr => by
        have hsame : r.activity p.columnCount y = r.activity p.columnCount x :=
          sum_congr rfl fun j hj => by rw [hxy j (mem_range.1 hj)]
        rw [Row.Holds, hsame]
        exact h.relaxed.holds r hr }
  integral j hj := by
    rw [← hxy j (mem_range.1 (mem_filter.1 hj).1)]
    exact h.integral j hj

end

end Problem

/-- The integer columns of relaxations that the host solves have integers for values, or values
that are farther from integers than the tolerance. -/
def Host.IsDecisive (host : Host Extended σ) (Allowed : Row Extended → Prop) (p : Problem Extended)
    (τ : ℚ) : Prop :=
  ∀ x, host.Reaches Allowed p x → ∀ j ∈ p.integers,
    (∃ k : ℤ, x j = k) ∨ τ < |x j - nearestTo (x j)|

theorem Host.IsDecisive.integral {host : Host Extended σ} {Allowed : Row Extended → Prop}
    {p : Problem Extended} {τ : ℚ} (h : host.IsDecisive Allowed p τ) {x : ℕ → ℚ}
    (hx : host.Reaches Allowed p x) (hnear : p.NearIntegral x τ) : p.Integral x :=
  fun j hj => (h x hx j hj).resolve_right (not_lt.2 (hnear j hj))

/-- Without tolerance no fraction is taken for an integer. -/
theorem Host.isDecisive_zero (host : Host Extended σ) (Allowed : Row Extended → Prop)
    (p : Problem Extended) : host.IsDecisive Allowed p 0 := by
  intro x _ j _
  by_cases hwhole : x j = nearestTo (x j)
  · exact .inl ⟨_, hwhole⟩
  · exact .inr (abs_pos.2 (sub_ne_zero.2 hwhole))

/-! ### Callbacks that guard a family -/

/-- What the callback leaves is what adding constraints of the family leaves. At row generation it
adds some as long as the values that it is told violate one. -/
def Callback.Guards (call : Callback Extended σ) (m : Model Extended) (F : List LazyConstraint) :
    Prop :=
  ∀ d s s', m.Hands d s.tree → call d s = .ok () s' →
    ∃ (es : List LazyConstraint) (s₀ s₁ : Scene Extended σ), s₀.tree = s.tree ∧
      d.addAll es s₀ = .ok () s₁ ∧ s'.tree = s₁.tree ∧ (∀ e ∈ es, e ∈ F) ∧
      (s.tree.reason = some .rowGeneration → ∀ z, d.Reports s z → (∃ e ∈ F, ¬e.Holds z) → es ≠ [])

/-- Constraints become the last rows, and nothing else is changed. -/
theorem CallbackData.addAll_run {d : CallbackData Extended} (hvalid : d.valid = true)
    (hm : d.model.WellFormed) {es : List LazyConstraint} (hes : ∀ e ∈ es, e.Proper d.model)
    {s : Scene Extended σ} (hcolumns : s.tree.problem.columnCount = d.model.problem.columnCount) :
    ∃ s' q, d.addAll es s = .ok () s' ∧ s'.tree = { s.tree with problem := q } ∧
      q.direction = s.tree.problem.direction ∧ q.constant = s.tree.problem.constant ∧
      q.columns = s.tree.problem.columns ∧
      q.rows = s.tree.problem.rows ++ es.map (·.row d.model) ∧
      (es = [] → q = s.tree.problem) := by
  induction es generalizing s with
  | nil => exact ⟨s, s.tree.problem, rfl, rfl, rfl, rfl, rfl, by simp, fun _ => rfl⟩
  | cons e es ih =>
    obtain ⟨s₁, hrun, htree⟩ := addLazy_run hvalid hm (hes e List.mem_cons_self) hcolumns
    obtain ⟨s₂, q, hrest, htree₂, hdirection, hconstant, hcols, hrows, -⟩ :=
      ih (s := s₁) (fun e he => hes e (List.mem_cons_of_mem _ he)) (by rw [htree]; exact hcolumns)
    rw [htree] at htree₂ hdirection hconstant hcols hrows
    refine ⟨s₂, q, ?_, htree₂, hdirection, hconstant, hcols, ?_, nofun⟩
    · change (d.addLazy (.affine e.function) (.set e.set) >>= fun _ => d.addAll es) s = _
      rw [bind_run, hrun]
      exact hrest
    · rw [hrows]
      exact List.append_assoc ..

/-- A callback that guards a family takes only points at which all of it holds. -/
theorem Callback.Guards.complies {call : Callback Extended σ} {m : Model Extended}
    {F : List LazyConstraint} (h : call.Guards m F) (hF : ∀ e ∈ F, e.Proper m) :
    call.Complies m F fun x => ∀ e ∈ F, e.Holds (m.assignmentOf x) := by
  intro d s s' hhands hrun
  obtain ⟨es, s₀, s₁, hstart, hadd, hsame, hes, hguards⟩ := h d s s' hhands hrun
  have hproper : ∀ e ∈ F, e.Proper d.model := fun e he => (hF e he).congr hhands.vars
  have hcolumns : s.tree.problem.columnCount = d.model.problem.columnCount :=
    hhands.columns.trans hhands.columnCount.symm
  obtain ⟨_, q, hadd', htree, hdirection, hconstant, hcols, hrows, hnil⟩ :=
    CallbackData.addAll_run (s := s₀) hhands.valid hhands.wf
      (fun e he => hproper e (hes e he)) (hstart ▸ hcolumns)
  cases hadd.symm.trans hadd'
  rw [hstart] at htree hdirection hconstant hcols hrows hnil
  rw [← hsame] at htree
  have hnone : q.rows = s.tree.problem.rows → es = [] := fun hsame => by
    simpa using hrows.symm.trans hsame
  refine ⟨⟨q, s.tree.stopped, s.tree.reason, htree, hdirection, hconstant, hcols,
    ⟨_, hrows, fun r hr => ?_⟩, fun hsame => by rw [hnil (hnone hsame)]⟩, ?_⟩
  · obtain ⟨e, he, rfl⟩ := List.mem_map.1 hr
    exact ⟨e, hes e he, e.row_congr hhands.vars⟩
  · intro hreason hsame x hpoint
    have hassignment : d.model.assignmentOf x = m.assignmentOf x := by
      unfold Model.assignmentOf
      rw [hhands.vars]
    have hreports := CallbackData.reports hhands.valid hhands.wf hreason hcolumns
      (hhands.columns ▸ hpoint)
    rw [hassignment] at hreports
    rw [htree] at hsame
    by_contra hviolated
    push Not at hviolated
    exact hguards hreason _ hreports hviolated (hnone hsame)

/-! ### What is found -/

namespace Model

variable {m : Model Extended}

/-- The model answers with these values for its variables, and with their objective. -/
structure Gives (m : Model Extended) (z : Assignment) : Prop where
  value : ∀ v, m.isValid (.var v) = true → m.variablePrimal (.var v) = .ok (rat (z v))
  objective : m.objectiveValue = rat (m.objective.valueAt z)

/-- The second assignment has an objective that is better by more than `d`. -/
def BetterBy (m : Model Extended) (d : ℚ) (z z' : Assignment) : Prop :=
  m.problem.sign * m.objective.valueAt z' + d < m.problem.sign * m.objective.valueAt z

section
variable (hm : m.Sound) (hr : m.Rational) (x : ℕ → ℚ)
include hm hr

theorem satisfied_assignmentOf (hx : m.inner.problem.Feasible x) :
    m.Satisfied (m.assignmentOf x) := by
  refine (hm.feasible_inner_iff hr _).1 (hx.congr fun j hj => ?_)
  rw [hm.named.wf.innerCount] at hj
  exact (hm.named.wf.pointOf_assignmentOf x hj).symm

theorem valueAt_objective_assignmentOf :
    m.objective.valueAt (m.assignmentOf x) = m.inner.problem.valueOf x := by
  rw [hm.valueAt_objective hr]
  refine Problem.valueOf_congr fun j hj => ?_
  rw [hm.named.wf.innerCount] at hj
  exact hm.named.wf.pointOf_assignmentOf x hj

/-- After a search the values of variables are those of the point that is stored. -/
theorem gives_searched {b s : Solution Extended} {v : Watched Extended σ} {code : ReturnCode}
    {seconds : Extended} (hpoint : s.colPrimal = firstValues m.problem.columnCount x)
    (hobjective : s.objective = rat (m.inner.problem.valueOf x)) :
    (m.searched b v code s seconds).Gives (m.assignmentOf x) where
  value u hu := by
    have hwf : (m.searched b v code s seconds).WellFormed := hm.named.wf.congr rfl rfl rfl rfl
    obtain ⟨i, k, info, c, rfl, hinfo, hat⟩ := hwf.exists_variableAt hu
    have hat' : m.VariableAt i k info c := ⟨hat.entry, hat.column, hat.index, hat.number⟩
    have hi : i < m.problem.columnCount := hat'.place_lt
    rw [hat.variablePrimal hinfo, hat'.assignmentOf hm.named.wf]
    change Except.ok (s.colPrimal.getD i 0) = _
    rw [hpoint, List.getD_eq_getElem?_getD, firstValues, List.getElem?_map,
      List.getElem?_range hi]
    rfl
  objective := by
    change s.objective = rat (m.objective.valueAt _)
    rw [hobjective, valueAt_objective_assignmentOf hm hr]

end

end Model

/-! ### The whole solve -/

/-- What a search aims at whose callback guards a family: a nearly best point, or any point. -/
def Model.lazyAim (m : Model Extended) (F : List LazyConstraint) (ranks : Prop) {τ t : ℚ}
    (ht₀ : 0 ≤ t) (ht₁ : t ≤ 1) : Aim where
  Ranks := ranks
  integer := τ
  objective := t
  gap := m.stores.search.gap
  shift := 0
  Kept x := m.inner.problem.Feasible x ∧ ∀ e ∈ F, e.Holds (m.assignmentOf x)
  objective_nonneg := ht₀
  objective_le_one := ht₁
  shift_nonneg := le_rfl

/-- Rounding moves nothing, and a point that is accepted satisfies the family. -/
theorem LazySearch.of_decisive {m : Model Extended} (hm : m.Sound) (hr : m.Rational)
    {F : List LazyConstraint} (hF : ∀ e ∈ F, e.Proper m) {host : Host Extended σ}
    (hhost : host.IsExact) {ranks : Prop} {τ t : ℚ} (ht₀ : 0 ≤ t) (ht₁ : t ≤ 1)
    (hdecisive : host.IsDecisive (m.RowOf F) m.inner.problem τ)
    {callback : Option (Callback Extended σ)} {Accepted : (ℕ → ℚ) → Prop}
    (hcomplies : ∀ call, callback = some call → call.Complies m F Accepted)
    (haccepts : callback = none → ∀ x, Accepted x)
    (haccepted : ∀ x, Accepted x → ∀ e ∈ F, e.Holds (m.assignmentOf x)) :
    LazySearch m host callback F Accepted (m.lazyAim F ranks (τ := τ) ht₀ ht₁) where
  sound := hm
  rational := hr
  proper := hF
  exact := hhost
  complies := hcomplies
  accepts := haccepts
  kept x hx hnear hreaches hx' := by
    have hintegral := hdecisive.integral hreaches hnear
    rw [Problem.rounded_of_integral hintegral]
    exact ⟨⟨hx, hintegral⟩, haccepted x hx'⟩
  near x hnear hreaches := by
    rw [Problem.rounded_of_integral (hdecisive.integral hreaches hnear), sub_self, abs_zero]
    exact le_rfl

theorem LazySearch.of_guards {m : Model Extended} (hm : m.Sound) (hr : m.Rational)
    {F : List LazyConstraint} (hF : ∀ e ∈ F, e.Proper m) {host : Host Extended σ}
    (hhost : host.IsExact) {τ t : ℚ} (ht₀ : 0 ≤ t) (ht₁ : t ≤ 1)
    (hdecisive : host.IsDecisive (m.RowOf F) m.inner.problem τ) {call : Callback Extended σ}
    (hcall : call.Guards m F) : LazySearch m host (some call) F
      (fun x => ∀ e ∈ F, e.Holds (m.assignmentOf x)) (m.lazyAim F True (τ := τ) ht₀ ht₁) := by
  refine .of_decisive hm hr hF hhost ht₀ ht₁ hdecisive ?_ (by simp) fun _ => id
  rintro _ ⟨⟩
  exact hcall.complies hF

/-- A solve that comes to its end with a callback that guards a family: either it reports a point
that satisfies the model and the family, and nothing that does so is better by more than the
tolerance allows, or it reports that there is none, and nothing does so. In which order
constraints are added, and which nodes are selected, does not matter. -/
theorem optimize_honours_lazy {m : Model Extended} (hm : m.Reachable) (hr : m.Rational)
    (hmixed : m.IsMixed) {F : List LazyConstraint} (hF : ∀ e ∈ F, e.Proper m)
    {host : Host Extended σ} (hhost : host.IsExact) {τ t : ℚ}
    (hτ : m.stores.search.integerTolerance = rat τ)
    (ht : m.stores.search.objectiveTolerance = rat t) (ht₀ : 0 ≤ t) (ht₁ : t ≤ 1)
    (hdecisive : host.IsDecisive (m.RowOf F) m.inner.problem τ) {call : Callback Extended σ}
    (hcall : call.Guards m F) {fuel : ℕ} {session : Session Extended σ} {w : Workbench Extended σ}
    (hrun : Solving.optimize host (some call) fuel ⟨session, m⟩ = .ok () w)
    (hcode : w.model.last.code = .done) :
    (w.model.primalStatus = .ok .feasiblePoint ∧ ∃ z, w.model.Gives z ∧ m.Satisfied z ∧
      (∀ e ∈ F, e.Holds z) ∧ ∀ z', m.Satisfied z' → (∀ e ∈ F, e.Holds z') →
        ¬m.BetterBy (t * (1 + |m.objective.valueAt z|)) z z') ∨
    (w.model.primalStatus = .ok .noSolution ∧ ∀ z, m.Satisfied z → ¬∀ e ∈ F, e.Holds z) := by
  have hsearch := LazySearch.of_guards hm.sound hr hF hhost ht₀ ht₁ hdecisive hcall
  have hfinds := hsearch.finds hτ (fun _ => ht) rfl fuel
  have hsolve := (Solving.optimize_searches (w := ⟨session, m⟩) hm.sound.roundable hmixed hfinds).ok
    hrun
  obtain ⟨b, v, code, s, seconds, ⟨houtcome, -⟩, -, hw⟩ := hsolve
  rw [hw] at hcode ⊢
  have hdone : code = .done := hcode
  have hguarded := Model.feasible_guarded_iff hm.sound hr hF
  rcases houtcome.verdict hdone with hstatus | hstatus
  · obtain ⟨x, hpoint, hobjective, hfeasible, hholds⟩ := houtcome.found (.inl hstatus)
    rw [hm.sound.named.wf.innerCount] at hpoint
    have hvalue := Model.valueAt_objective_assignmentOf hm.sound hr x
    refine .inl ⟨Model.primalStatus_searched.1 hstatus, m.assignmentOf x, ?_, ?_, hholds, ?_⟩
    · exact Model.gives_searched hm.sound hr x hpoint hobjective
    · exact Model.satisfied_assignmentOf hm.sound hr x hfeasible
    · intro z' hz' hF'
      have hdominated := houtcome.optimal hdone hstatus _ ((hguarded z').2 ⟨hz', hF'⟩) trivial
      have hmargin : (m.lazyAim F True (τ := τ) ht₀ ht₁).margin (m.inner.problem.valueOf x) =
          t * (1 + |m.inner.problem.valueOf x|) := max_eq_left (by positivity)
      rw [hobjective, value, hmargin] at hdominated
      rw [Model.BetterBy, hvalue, hm.sound.valueAt_objective hr]
      exact not_lt.2 hdominated
  · refine .inr ⟨Model.primalStatus_searched.2 (.inl hstatus), fun z hz hF' => ?_⟩
    exact houtcome.none hstatus _ ((hguarded z).2 ⟨hz, hF'⟩)

/-! ### A point that is cut off -/

section

/-- A host that answers only with multiples of one half. -/
def Host.halving : Host Extended Unit where
  solve r w :=
    let coarse (a : Answer Extended) : Bool := a.point.all fun v => decide ((2 * v.value).den = 1)
    (match r.program.solveSingle with
      | .ok a => if coarse a then .ok a else .error .exhausted
      | .error e => .error e, w)
  now _ := 0

theorem Host.halving_solve {r : Request Extended} {w : Unit} {a : Answer Extended}
    (h : (Host.halving.solve r w).1 = .ok a) :
    r.program.solveSingle = .ok a ∧ ∀ v ∈ a.point, ∃ k : ℤ, 2 * v.value = k := by
  change (match r.program.solveSingle with
      | .ok a => if a.point.all (fun v => decide ((2 * v.value).den = 1)) then Except.ok a
        else Except.error SolverError.exhausted
      | .error e => Except.error e) = .ok a at h
  split at h
  · rename_i a' ha'
    split_ifs at h with hcoarse
    cases h
    refine ⟨ha', fun v hv => ?_⟩
    have hden := of_decide_eq_true (List.all_eq_true.1 hcoarse v hv)
    exact ⟨_, (Rat.den_eq_one_iff _).1 hden |>.symm⟩
  · cases h

theorem Host.halving_isExact : Host.halving.IsExact := fun _ _ _ hr h =>
  LinearProgram.solveSingle_answers hr (Host.halving_solve h).1

/-- Multiples of one half are integers, or farther from them than most tolerances. -/
theorem Host.halving_isDecisive {Allowed : Row Extended → Prop} {p : Problem Extended} {τ : ℚ}
    (hτ : τ < 1 / 2) : Host.halving.IsDecisive Allowed p τ := by
  rintro x (hempty | ⟨q, ⟨_, box, ⟨extra, rfl, -⟩, hbox, -⟩, r, w, a, -, hsolve, -, hpoint⟩) j hj
  · obtain ⟨c, hc, -⟩ := Problem.mem_integers.1 hj
    rw [hempty] at hc
    cases hc
  · have hlt : j < q.columnCount := by
      rw [hbox.columnCount]
      exact mem_range.1 (mem_filter.1 hj).1
    have hmem : rat (x j) ∈ a.point := by
      rw [hpoint]
      exact List.mem_map.2 ⟨j, List.mem_range.2 hlt, rfl⟩
    obtain ⟨k, hk⟩ := (Host.halving_solve hsolve).2 _ hmem
    rw [value] at hk
    by_cases heven : k = 2 * nearestTo (x j)
    · exact .inl ⟨nearestTo (x j), by rw [heven] at hk; push_cast at hk; linarith⟩
    · have hone : (1 : ℚ) ≤ |(k : ℚ) - 2 * nearestTo (x j)| := by
        exact_mod_cast Int.one_le_abs (sub_ne_zero.2 heven)
      have htwice : |(k : ℚ) - 2 * nearestTo (x j)| = 2 * |x j - nearestTo (x j)| := by
        rw [← hk, ← mul_sub, abs_mul, abs_two]
      exact .inr (by linarith)

/-- The variable is at most two. -/
def atMostTwo : LazyConstraint := ⟨⟨[⟨1, ⟨1⟩⟩], 0⟩, .lessThan (rat 2)⟩

/-- Its row. -/
def topped : Row Extended :=
  { bound := .upper, lower := bottom, upper := rat 2, coefs := [(1, 1)] }

/-- Adds the row at row generation when the relaxation violates the constraint. -/
def guarding : Callback Extended Unit := fun d => do
  let t ← d.tree
  if t.reason = some .rowGeneration ∧ rat 2 < valueAt t.problem.basic.colPrimal 1 then
    modifyTree fun t => { t with
      problem := { t.problem with rows := t.problem.rows ++ [topped] }.padSolutions }

theorem atMostTwo_proper : atMostTwo.Proper capped where
  constant := rfl
  live := by
    simp only [atMostTwo, List.mem_singleton, forall_eq]
    rw [Model.isValid, capped_reachable.sound.named.wf.vars.contains_eq,
      show capped.vars.get? 1 = _ from loneInteger_get?]
    rfl
  coefficient := by
    simp only [atMostTwo, List.mem_singleton, forall_eq]
    rfl
  set := rfl
  value := by
    simp only [atMostTwo, ScalarSet.values, List.mem_singleton, forall_eq]
    rfl

theorem atMostTwo_row : atMostTwo.row capped = topped := by
  have hcoefs : capped.coefsOf atMostTwo.function = [(1, 1)] := by
    simp [Model.coefsOf, atMostTwo, AffineFunction.canonical_single (x := (1 : Extended)) rfl,
      show capped.vars.get? 1 = _ from loneInteger_get?]
  rw [LazyConstraint.row, hcoefs]
  rfl

theorem guarding_guards : guarding.Guards capped [atMostTwo] := by
  intro d s s' hhands hrun
  have hproper := atMostTwo_proper.congr hhands.vars
  simp only [guarding, bind_run, CallbackData.tree_of_valid hhands.valid] at hrun
  split_ifs at hrun with hviolated
  · obtain ⟨s₁, hadd, hsame⟩ := CallbackData.addLazy_run (s := s) hhands.valid hhands.wf hproper
      (hhands.columns.trans hhands.columnCount.symm)
    rw [atMostTwo.row_congr hhands.vars, atMostTwo_row] at hsame
    cases hrun
    refine ⟨[atMostTwo], s, s₁, rfl, ?_, hsame.symm, fun _ h => h, fun _ _ _ _ => by simp⟩
    change (d.addLazy (.affine atMostTwo.function) (.set atMostTwo.set) >>= fun _ => pure ()) s = _
    rw [bind_run, hadd]
    rfl
  · cases hrun
    refine ⟨[], s, s, rfl, rfl, rfl, by simp, ?_⟩
    rintro hreason z hreports ⟨e, he, hholds⟩
    obtain rfl := List.mem_singleton.1 he
    have hvalue := hreports.valueAt_colPrimal hhands.valid hreason
      (hproper.live _ List.mem_cons_self) (hhands.vars ▸ loneInteger_get?)
    have hle : z ⟨1⟩ ≤ 2 := not_lt.1 fun hlt => hviolated ⟨hreason, hvalue ▸ (rat_lt_rat ..).2 hlt⟩
    refine absurd ?_ hholds
    have hsum : atMostTwo.function.valueAt z = z ⟨1⟩ := by
      change (0 : ℚ) + (1 * z ⟨1⟩ + 0) = _
      ring
    change rat (atMostTwo.function.valueAt z) ≤ rat 2
    rwa [hsum, rat_le_rat]

theorem capped_rational : capped.Rational where
  constant := rfl
  cost := by
    rintro _ (_ | ⟨_, ⟨⟩⟩)
    exact AffineFunction.isRat_coefficient (by rintro _ (_ | ⟨_, ⟨⟩⟩); rfl) _
  rows := by
    rintro _ (_ | ⟨_, ⟨⟩⟩)
    exact ⟨by rintro _ (_ | ⟨_, ⟨⟩⟩); rfl, rfl, nofun, fun _ => rfl⟩

/-- Three and a half is the relaxation of a variable that is maximised, three is cut off, and two is
reported. -/
theorem optimize_honours_lazy_capped : ∃ w z,
    Solving.optimize Host.halving (some guarding) 30 ⟨⟨(), #[]⟩, capped⟩ = .ok () w ∧
      w.model.last.code = .done ∧ w.model.primalStatus = .ok .feasiblePoint ∧ w.model.Gives z ∧
      capped.Satisfied z ∧ atMostTwo.Holds z ∧ w.model.objective.valueAt z = 2 := by
  obtain ⟨_, w, hrun, -⟩ := exists_of_passes
    (x := Solving.optimize Host.halving (some guarding) 30)
    (s := ⟨⟨(), #[]⟩, capped⟩) (fun _ => true) (by decide +kernel)
  have hafter := after_ok hrun
  have hcode : (after (Solving.optimize Host.halving (some guarding) 30)
      ⟨⟨(), #[]⟩, capped⟩).model.last.code = .done := by decide +kernel
  have hvalue : (after (Solving.optimize Host.halving (some guarding) 30)
      ⟨⟨(), #[]⟩, capped⟩).model.objectiveValue.value = 2 := by decide +kernel
  have hstatus : (after (Solving.optimize Host.halving (some guarding) 30)
      ⟨⟨(), #[]⟩, capped⟩).model.primalStatus.toOption = some .feasiblePoint := by decide +kernel
  rw [hafter] at hcode hvalue hstatus
  have hproper : ∀ e ∈ [atMostTwo], e.Proper capped := by simpa using atMostTwo_proper
  rcases optimize_honours_lazy capped_reachable capped_rational (.inr (by decide +kernel)) hproper
    Host.halving_isExact (τ := 1 * 10 ^ (-5 : ℤ)) (t := 1 * 10 ^ (-7 : ℤ)) rfl rfl (by norm_num)
    (by norm_num) (Host.halving_isDecisive (by norm_num)) guarding_guards hrun hcode with
    ⟨hfeasible, z, hgives, hsatisfied, hholds, -⟩ | ⟨hnone, -⟩
  · refine ⟨w, z, hrun, hcode, hfeasible, hgives, hsatisfied, hholds _ List.mem_cons_self, ?_⟩
    rwa [hgives.objective] at hvalue
  · rw [hnone] at hstatus
    cases hstatus

end

end MixedInteger
