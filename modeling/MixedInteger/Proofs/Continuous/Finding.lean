import MixedInteger.Continuous.Simplex
import MixedInteger.Continuous.Optimum
import MixedInteger.Proofs.Continuous.Relaxation
import MixedInteger.Proofs.Solver.Elimination

/-! What the continuous methods find with an exact solver that answers every rational program.
Each of them returns, and the solution that it stores tells what is true of the relaxation: an
optimum and its value, that there is no point, or that the objective has no bound. The interior
method says the same of the last two. The question behind a certificate is a rational program too,
so the solver answers it. -/

namespace MixedInteger

open Extended Finset

variable {σ : Type}

/-! ### Findings -/

/-- What there may be to find: an optimum with its value, no point, or points as good as one
likes. -/
inductive Finding where
  | optimal (value : ℚ)
  | infeasible
  | unbounded

namespace Problem

variable (p : Problem Extended)

/-- Read as one to minimise, the objective has its least value at the point. -/
structure IsOptimum (x : ℕ → ℚ) : Prop where
  relaxed : p.Relaxed x
  best : ∀ y, p.Relaxed y → p.sign * p.valueOf x ≤ p.sign * p.valueOf y

/-- The finding is true of the relaxation. -/
def Admits : Finding → Prop
  | .optimal v => ∃ x, p.IsOptimum x ∧ p.valueOf x = v
  | .infeasible => ∀ x, ¬p.Relaxed x
  | .unbounded => ∀ b : ℚ, ∃ x, p.Relaxed x ∧ p.sign * p.valueOf x < b

variable {p}

/-- What the points are worth has a bound. -/
theorem not_admits_unbounded {b : ℚ} (h : ∀ x, p.Relaxed x → b ≤ p.sign * p.valueOf x) :
    ¬p.Admits .unbounded := by
  intro hunbounded
  obtain ⟨x, hx, hlt⟩ := hunbounded b
  exact (h x hx).not_gt hlt

/-- Stored solutions are not data. -/
theorem Admits.withSolutions (h : p.Admits .unbounded) (b i k : Solution Extended) :
    ({ p with basic := b, interior := i, integer := k } : Problem Extended).Admits .unbounded := by
  intro v
  obtain ⟨x, hx, hlt⟩ := h v
  exact ⟨x, ⟨hx.within, hx.holds⟩, hlt⟩

/-- The three findings exclude each other. -/
theorem Admits.unique {f g : Finding} (hf : p.Admits f) (hg : p.Admits g) : f = g := by
  have hbounded : ∀ {v}, p.Admits (.optimal v) → ¬p.Admits .unbounded := by
    rintro _ ⟨x, hx, -⟩
    exact not_admits_unbounded hx.best
  have hsign : p.sign ≠ 0 := by
    unfold sign
    split_ifs <;> norm_num
  cases f <;> cases g
  case optimal.optimal v v' =>
    obtain ⟨x, hx, rfl⟩ := hf
    obtain ⟨y, hy, rfl⟩ := hg
    have heq := le_antisymm (hx.best y hy.relaxed) (hy.best x hx.relaxed)
    rw [mul_left_cancel₀ hsign heq]
  case optimal.infeasible v =>
    obtain ⟨x, hx, -⟩ := hf
    exact absurd hx.relaxed (hg x)
  case infeasible.optimal v =>
    obtain ⟨x, hx, -⟩ := hg
    exact absurd hx.relaxed (hf x)
  case optimal.unbounded v => exact absurd hg (hbounded hf)
  case unbounded.optimal v => exact absurd hf (hbounded hg)
  case infeasible.unbounded =>
    obtain ⟨x, hx, -⟩ := hg 0
    exact absurd hx (hf x)
  case unbounded.infeasible =>
    obtain ⟨x, hx, -⟩ := hf 0
    exact absurd hx (hg x)
  all_goals rfl

/-- A right answer to the program of a problem is a finding. -/
theorem Rational.admits_of_answers (hp : p.Rational) {a : Answer Extended}
    (ha : p.linearProgram.Answers a) :
    (∃ x, p.IsOptimum x ∧ a.status = 0 ∧ a.point = firstValues p.columnCount x ∧
      (p.optimum p.linearProgram a).objective = rat (p.valueOf x)) ∨
      (a.status = 2 ∧ p.Admits .infeasible) ∨ (a.status = 3 ∧ p.Admits .unbounded) := by
  cases ha with
  | @optimum x hstatus hpoint hvalue hsat hbest =>
    have hlength : p.linearProgram.cost.length = p.columnCount := List.length_map _
    rw [LinearProgram.values, hlength] at hpoint
    refine .inl ⟨x, ⟨hp.satisfied_iff.1 hsat, fun y hy => ?_⟩, hstatus, hpoint, ?_⟩
    · have := hbest y (hp.satisfied_iff.2 hy)
      rw [hp.dot_cost, hp.dot_cost, rat_le_rat] at this
      linarith
    · change p.sense * a.value + p.constant = _
      rw [hvalue, hp.dot_cost, sense_eq, hp.constant.eq, rat_mul_rat, rat_add_rat, ← mul_assoc,
        sign_mul_sign, one_mul]
      simp [value]
  | infeasible hstatus hnone =>
    exact .inr (.inl ⟨hstatus, fun y hy => hnone y (hp.satisfied_iff.2 hy)⟩)
  | unbounded hstatus hfall =>
    refine .inr (.inr ⟨hstatus, fun b => ?_⟩)
    obtain ⟨y, hsat, hlt⟩ := hfall (b - p.sign * p.constant.value)
    rw [hp.dot_cost, rat_lt_rat] at hlt
    exact ⟨y, hp.satisfied_iff.1 hsat, by linarith⟩

end Problem

namespace Finding

/-- The status of a solution that stores the finding. -/
def status : Finding → SolutionStatus
  | optimal _ => .optimal
  | infeasible => .noFeasible
  | unbounded => .unbounded

/-- A problem without a bound is not told from one without a point. -/
def blurred : Finding → Finding
  | unbounded => infeasible
  | f => f

end Finding

/-- The stored solution tells the finding, and for an optimum its value. -/
structure Solution.Tells (s : Solution Extended) (f : Finding) : Prop where
  status : s.status = f.status
  objective : ∀ v, f = .optimal v → s.objective = rat v

/-- The solution stores the finding: for an optimum its value, and a point where it is taken. -/
structure Solution.Stores (s : Solution Extended) (p : Problem Extended) (f : Finding) : Prop where
  admits : p.Admits f
  objective : ∀ v, f = .optimal v → s.objective = rat v
  point : ∀ v, f = .optimal v → ∃ x, p.IsOptimum x ∧ s.colPrimal = firstValues p.columnCount x

/-- The code and the status with which a run of the simplex method ends, by what there is to find.
The dual method stops at a limit of the objective. -/
def Parameter.Simplex.ending (params : Parameter.Simplex Extended) (p : Problem Extended) :
    Finding → ReturnCode × SolutionStatus
  | .optimal v => (if p.columns.isEmpty then .done else objectiveLimit params p (rat v), .optimal)
  | .infeasible =>
    if p.columns.isEmpty then (.done, .noFeasible)
    else if params.presolve ≠ 0 then (.noPrimal, .undefined)
    else if params.isDual && p.direction ≠ .maximize &&
        decide (params.objectiveUpper < Scalar.infinity) then (.objectiveUpper, .infeasible)
    else (.done, .noFeasible)
  | .unbounded => if params.presolve ≠ 0 then (.noDual, .undefined) else (.done, .unbounded)

/-- A run ended as some finding has it, and stored that. -/
def Parameter.Simplex.Concludes (params : Parameter.Simplex Extended) (p : Problem Extended)
    (r : Problem Extended × ReturnCode) : Prop :=
  ∃ s f, s.Stores p f ∧ r = (p.withBasic s, (params.ending p f).1) ∧
    s.status = (params.ending p f).2

/-- Without presolving and limits of the objective the status tells the finding. -/
theorem Parameter.Simplex.ending_plain {params : Parameter.Simplex Extended}
    (hpresolve : params.presolve = 0) (hdual : params.isDual = false) (p : Problem Extended)
    (f : Finding) : params.ending p f = (.done, f.status) := by
  cases f <;> simp [ending, objectiveLimit, hpresolve, hdual, Finding.status]

/-! ### The methods -/

section
variable {host : Host Extended σ} {p : Problem Extended} (hexact : host.IsExact)
  (hdecides : host.Decides)
include hexact hdecides

/-- Whatever is asked of a rational program, the answer is right. -/
theorem ask_returns {r : Request Extended} (hr : r.program.Rational) :
    Task.Returns (Task.ask host r) r.program.Answers := by
  refine .ask fun w => ?_
  obtain ⟨a, ha⟩ := hdecides r w hr
  exact ⟨a, ha, hexact r w a hr ha⟩

/-- An infeasible program is not taken for an unbounded one. -/
theorem isUnbounded_returns {r : Request Extended} (hr : r.program.Rational)
    (hnone : ∀ y, ¬r.program.Satisfied y) :
    Task.Returns (isUnbounded host r) fun b => b = false := by
  unfold isUnbounded
  refine (ask_returns hexact hdecides hr.costless).bind fun a ha => .pure ?_
  obtain hstatus | hstatus := LinearProgram.Answers.costless ha hnone <;> rw [hstatus] <;> rfl

omit hexact hdecides in
theorem limited_returns (params : Parameter.Simplex Extended) (options : SolverOptions Extended) :
    Task.Returns (params.limited (σ := σ) options) fun _ => True := by
  unfold Parameter.Simplex.limited
  dsimp only
  split
  · exact fun _ => trivial
  · exact .pure trivial

omit hexact hdecides in
theorem noOptimum_concludes (params : Parameter.Simplex Extended) (name : String)
    (hcolumns : p.columns.isEmpty = false) (unbounded : Bool) :
    Task.Returns (noOptimum (σ := σ) params name p unbounded) fun r =>
      ∃ s, r = (p.withBasic s, (params.ending p (if unbounded then .unbounded else .infeasible)).1) ∧
        s.status = (params.ending p (if unbounded then .unbounded else .infeasible)).2 := by
  unfold noOptimum
  cases unbounded with
  | true =>
    simp only [Parameter.Simplex.ending, Bool.not_true, Bool.false_and, Bool.false_eq_true, if_false,
      if_true]
    split_ifs
    · exact (Task.Returns.tellAt _ _ _).bind fun _ _ => .pure ⟨_, rfl, rfl⟩
    · exact (Task.Returns.tellAt _ _ _).bind fun _ _ => .pure ⟨_, rfl, rfl⟩
  | false =>
    simp only [Parameter.Simplex.ending, hcolumns, Bool.not_false, Bool.true_and, Bool.false_eq_true,
      if_false]
    split_ifs
    · exact (Task.Returns.tellAt _ _ _).bind fun _ _ => .pure ⟨_, rfl, rfl⟩
    · exact .pure ⟨_, rfl, rfl⟩
    · exact (Task.Returns.tellAt _ _ _).bind fun _ _ => .pure ⟨_, rfl, rfl⟩

omit hexact hdecides in
/-- Without columns the finding does not depend on the objective. -/
theorem emptySolution_concludes (hp : p.Rational) (hempty : p.columns.isEmpty = true)
    (params : Parameter.Simplex Extended) : ∃ f,
      p.emptySolution.Stores p f ∧ (.done, p.emptySolution.status) = params.ending p f := by
  have hsolved : p.Solved (Host.eliminating : Host Extended Unit)
      (p.withBasic p.emptySolution, .done) := hp.solved_empty (List.isEmpty_iff.1 hempty)
  generalize hq : (p.withBasic p.emptySolution, ReturnCode.done) = q at hsolved
  have hbasic : q.1.basic = p.emptySolution := hq ▸ rfl
  cases hsolved with
  | @optimum b x hoptimal hpoint hvalue _ hrelaxed hleast =>
    obtain rfl : b = p.emptySolution := hbasic
    refine ⟨.optimal (p.valueOf x), ⟨⟨x, ⟨hrelaxed, hleast⟩, rfl⟩, ?_, ?_⟩, ?_⟩
    · rintro _ ⟨⟩
      exact hvalue
    · exact fun _ _ => ⟨x, ⟨hrelaxed, hleast⟩, hpoint⟩
    · simp only [Parameter.Simplex.ending, hempty, if_true, hoptimal]
  | @infeasible b hinfeasible hnone =>
    obtain rfl : b = p.emptySolution := hbasic
    refine ⟨.infeasible, ⟨hnone, (fun _ h => nomatch h), fun _ h => nomatch h⟩, ?_⟩
    simp only [Parameter.Simplex.ending, hempty, if_true, hinfeasible]
  | unbounded hunbounded =>
    obtain rfl := hbasic
    unfold Problem.emptySolution at hunbounded
    dsimp only at hunbounded
    split_ifs at hunbounded
  | presolved => cases hq
  | stopped hdone =>
    cases hq
    exact absurd rfl hdone

theorem solveBasic_concludes (hp : p.Rational) (params : Parameter.Simplex Extended)
    (options : SolverOptions Extended) (name : String) :
    Task.Returns (solveBasic host params options name p) (params.Concludes p) := by
  unfold solveBasic
  refine (Task.Returns.now host).bind fun start _ => ?_
  refine (Task.Returns.tellAt _ _ _).bind fun _ _ => ?_
  cases hempty : p.columns.isEmpty with
  | true =>
    obtain ⟨f, hstores, hending⟩ := emptySolution_concludes hp hempty params
    rw [if_pos rfl]
    exact .pure ⟨_, f, hstores, by rw [← hending], by rw [← hending]⟩
  | false =>
  rw [if_neg Bool.false_ne_true]
  refine (limited_returns params options).bind fun options _ => ?_
  refine (ask_returns hexact hdecides hp.linearProgram).bind fun a ha => ?_
  have hfails : ∀ unbounded : Bool, p.Admits (if unbounded then .unbounded else .infeasible) →
      Task.Returns (noOptimum (σ := σ) params name p unbounded) (params.Concludes p) := by
    refine fun unbounded hadmits => (noOptimum_concludes params name hempty unbounded).imp ?_
    rintro _ ⟨s, rfl, hstatus⟩
    refine ⟨s, _, ⟨hadmits, ?_, ?_⟩, rfl, hstatus⟩ <;> cases unbounded <;> exact fun _ h => nomatch h
  obtain ⟨x, hx, hstatus, hpoint, hvalue⟩ | ⟨hstatus, hadmits⟩ | ⟨hstatus, hadmits⟩ :=
    hp.admits_of_answers ha <;> simp only [hstatus]
  · refine (Task.Returns.now host).bind fun now _ => ?_
    refine (Task.Returns.tellAt _ _ _).bind fun _ _ => .pure
      ⟨(p.optimum p.linearProgram a).withBasis p, .optimal (p.valueOf x), ⟨⟨x, hx, rfl⟩, ?_, ?_⟩,
        ?_, rfl⟩
    · rintro _ ⟨⟩
      exact hvalue
    · exact fun _ _ => ⟨x, hx, hpoint⟩
    · simp only [Parameter.Simplex.ending, hempty, Bool.false_eq_true, if_false]
      rw [← hvalue]
      rfl
  · refine (isUnbounded_returns hexact hdecides hp.linearProgram fun y hy =>
      hadmits y (hp.satisfied_iff.1 hy)).bind ?_
    rintro _ rfl
    exact hfails false hadmits
  · exact hfails true hadmits

theorem simplex_concludes (hp : p.Rational) (hbounds : p.badBounds = none)
    (params : Parameter.Simplex Extended) :
    Task.Returns (simplex host params p) (params.Concludes p) := by
  unfold simplex
  rw [hbounds]
  exact solveBasic_concludes hexact hdecides hp _ _ _

theorem exact_concludes (hp : p.Rational) (hcolumns : p.columns ≠ []) (hrows : p.rows ≠ [])
    (hbounds : p.badBounds = none) (params : Parameter.Simplex Extended) :
    Task.Returns (exact host params p) (({ params with presolve := 0 }).Concludes p) := by
  rw [exact_eq]
  rw [if_neg (by simp [hcolumns, hrows]), hbounds]
  exact solveBasic_concludes hexact hdecides hp _ _ _

omit hexact hdecides in
/-- A plain run stores a solution that tells the finding. -/
theorem Parameter.Simplex.Concludes.tells {params : Parameter.Simplex Extended}
    {r : Problem Extended × ReturnCode} (h : params.Concludes p r) (hpresolve : params.presolve = 0)
    (hdual : params.isDual = false) :
    ∃ s f, r = (p.withBasic s, .done) ∧ p.Admits f ∧ s.Tells f := by
  obtain ⟨s, f, hstores, hr, hstatus⟩ := h
  rw [Parameter.Simplex.ending_plain hpresolve hdual] at hr hstatus
  exact ⟨s, f, hr, hstores.admits, hstatus, hstores.objective⟩

theorem simplex_returns (hp : p.Rational) (hbounds : p.badBounds = none)
    {params : Parameter.Simplex Extended} (hpresolve : params.presolve = 0)
    (hdual : params.isDual = false) :
    Task.Returns (simplex host params p) fun r =>
      ∃ s f, r = (p.withBasic s, .done) ∧ p.Admits f ∧ s.Tells f :=
  (simplex_concludes hexact hdecides hp hbounds params).imp
    fun r (h : params.Concludes p r) => h.tells hpresolve hdual

theorem exact_returns (hp : p.Rational) (hcolumns : p.columns ≠ []) (hrows : p.rows ≠ [])
    (hbounds : p.badBounds = none) {params : Parameter.Simplex Extended}
    (hdual : params.isDual = false) :
    Task.Returns (exact host params p) fun r =>
      ∃ s f, r = (p.withBasic s, .done) ∧ p.Admits f ∧ s.Tells f :=
  (exact_concludes hexact hdecides hp hcolumns hrows hbounds params).imp
    fun r (h : ({ params with presolve := 0 } : Parameter.Simplex Extended).Concludes p r) =>
      h.tells rfl hdual

/-- Crossed bounds and parameters do not matter to the interior method. -/
theorem interior_returns (hp : p.Rational) (hcolumns : p.columns ≠ []) (hrows : p.rows ≠ [])
    (params : Parameter.Interior) :
    Task.Returns (interior host params p) fun r =>
      ∃ s f, r = (p.withInterior s, .done) ∧ p.Admits f ∧ s.Tells f.blurred := by
  unfold interior
  dsimp only
  rw [if_neg (by simp [hcolumns, hrows])]
  refine (Task.Returns.tellAt _ _ _).bind fun _ _ => ?_
  refine (ask_returns hexact hdecides hp.linearProgram).bind fun a ha => ?_
  obtain ⟨x, hx, hstatus, -, hvalue⟩ | ⟨hstatus, hadmits⟩ | ⟨hstatus, hadmits⟩ :=
    hp.admits_of_answers ha <;> simp only [hstatus]
  · refine (Task.Returns.tellAt _ _ _).bind fun _ _ => .pure
      ⟨p.optimum p.linearProgram a, .optimal (p.valueOf x), rfl, ⟨x, hx, rfl⟩, rfl, ?_⟩
    rintro _ ⟨⟩
    exact hvalue
  · exact (Task.Returns.tellAt _ _ _).bind fun _ _ => .pure
      ⟨_, .infeasible, rfl, hadmits, rfl, fun v hv => nomatch hv⟩
  · exact (Task.Returns.tellAt _ _ _).bind fun _ _ => .pure
      ⟨_, .unbounded, rfl, hadmits, rfl, fun v hv => nomatch hv⟩

end

/-! ### The question behind a certificate -/

section

open Extended

namespace Problem

variable {p : Problem Extended}

/-- The columns of a problem without their costs, and those that measure violations. -/
theorem mem_columns_violationProblem {c : Column Extended} (hc : c ∈ p.violationProblem.columns) :
    (∃ d ∈ p.columns, { d with cost := 0 } = c) ∨ c = { bound := .lower, lower := 0, cost := 1 } :=
  (List.mem_append.1 hc).imp List.mem_map.1 List.eq_of_mem_replicate

theorem rational_violationProblem (h : ∀ r ∈ p.rows, r.Rational) :
    ∀ r ∈ p.violationProblem.rows, r.Rational := by
  intro r hr
  obtain ⟨e, he, rfl⟩ := List.mem_map.1 hr
  have hrow := h e.2 (mem_numberedRows he)
  dsimp only
  split
  · exact hrow
  · refine { hrow with coefs := fun t ht => ?_ }
    obtain ht | ht := List.mem_append.1 ht
    · exact hrow.coefs t ht
    · simp only [List.mem_cons, List.not_mem_nil, or_false] at ht
      obtain rfl | rfl := ht <;> rfl

theorem cost_violationProblem : ∀ c ∈ p.violationProblem.columns, c.cost.IsRat := by
  intro c hc
  obtain ⟨_, -, rfl⟩ | rfl := mem_columns_violationProblem hc <;> rfl

theorem proper_violationProblem (h : ∀ c ∈ p.columns, ProperBounds c.lower c.upper) :
    ∀ c ∈ p.violationProblem.columns, ProperBounds c.lower c.upper := by
  intro c hc
  obtain ⟨d, hd, rfl⟩ | rfl := mem_columns_violationProblem hc
  · exact h d hd
  · exact ⟨.inr rfl, .inl rfl⟩

/-- The problem of least total violation. -/
theorem Rational.violationProblem (hp : p.Rational) : p.violationProblem.Rational where
  constant := hp.constant
  cost := cost_violationProblem
  proper := proper_violationProblem hp.proper
  whole := by
    intro c hc hk
    obtain ⟨d, hd, rfl⟩ | rfl := mem_columns_violationProblem hc
    · exact hp.whole d hd hk
    · cases hk
  rows := rational_violationProblem hp.rows

end Problem

section
variable {σ : Type} {host : Host Extended σ} {p : Problem Extended} (hexact : host.IsExact)
  (hdecides : host.Decides) (hp : p.Rational)
include hexact hdecides hp

theorem infeasibilityRay_returns : Task.Returns (infeasibilityRay host p) fun _ => True := by
  unfold infeasibilityRay
  dsimp only
  split_ifs
  · exact .pure trivial
  refine (ask_returns hexact hdecides hp.violationProblem.linearProgram).bind fun a _ => ?_
  split_ifs
  · exact (Task.Returns.tell _).bind fun _ _ => .pure trivial
  · exact .pure trivial

end

end

end MixedInteger
