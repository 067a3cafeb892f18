import MixedInteger.Continuous.Simplex
import MixedInteger.Proofs.Solver.Answers
import MixedInteger.Proofs.Solver.Session

/-! The simplex method with an exact solver. It ends with an optimum of the relaxation, finds
that there is no point at all, or gives up. Where it stores that there is none it is right, and
stores no duals. -/

namespace MixedInteger

open Extended Finset

variable {σ : Type}

/-! ### Programs without their cost -/

namespace LinearProgram

variable {lp : LinearProgram Extended}

/-- The program whose points all cost nothing. -/
def costless {α : Type} [Scalar α] (lp : LinearProgram α) : LinearProgram α :=
  { lp with cost := lp.cost.map fun _ => 0 }

theorem length_costless : lp.costless.cost.length = lp.cost.length := List.length_map _

theorem Rational.costless (hlp : lp.Rational) : lp.costless.Rational := by
  have hlength : lp.costless.cost.length = lp.cost.length := length_costless
  refine { hlp with
    cost := fun c hc => ?_
    ubMatrix := hlength.symm ▸ hlp.ubMatrix
    eqMatrix := hlength.symm ▸ hlp.eqMatrix
    boundsLength := hlp.boundsLength.trans hlength.symm }
  obtain ⟨d, -, rfl⟩ := List.mem_map.1 hc
  exact isRat_rat 0

theorem satisfied_costless {x : ℕ → ℚ} : lp.costless.Satisfied x ↔ lp.Satisfied x := by
  have hvalues : lp.costless.values x = lp.values x := by rw [values, values, length_costless]
  constructor
  · intro h
    exact ⟨hvalues ▸ h.ub, hvalues ▸ h.eq, hvalues ▸ h.bounds⟩
  · intro h
    exact ⟨hvalues.symm ▸ h.ub, hvalues.symm ▸ h.eq, hvalues.symm ▸ h.bounds⟩

/-- Without a cost an infeasible program is still infeasible. -/
theorem Answers.costless {a : Answer Extended} (ha : lp.costless.Answers a)
    (hnone : ∀ y, ¬lp.Satisfied y) : a.status = 2 ∨ a.status = 3 := by
  cases ha with
  | optimum _ _ _ hsat _ => exact absurd (satisfied_costless.1 hsat) (hnone _)
  | infeasible hstatus _ => exact .inl hstatus
  | unbounded hstatus _ => exact .inr hstatus

end LinearProgram

/-! ### The simplex method -/

/-- The outcome of the primal simplex method. -/
inductive Problem.Solved (host : Host Extended σ) (p : Problem Extended) :
    Problem Extended × ReturnCode → Prop where
  | optimum {b : Solution Extended} {x : ℕ → ℚ} : b.status = .optimal →
      b.colPrimal = firstValues p.columnCount x → b.objective = rat (p.valueOf x) →
      (p.columns = [] ∨ host.Answered p x) → p.Relaxed x →
      (∀ y, p.Relaxed y → p.sign * p.valueOf x ≤ p.sign * p.valueOf y) →
      Solved host p (p.withBasic b, .done)
  | infeasible {b : Solution Extended} : b.status = .noFeasible → (∀ y, ¬p.Relaxed y) →
      Solved host p (p.withBasic b, .done)
  | presolved {b : Solution Extended} : (∀ y, ¬p.Relaxed y) →
      Solved host p (p.withBasic b, .noPrimal)
  | unbounded {b : Solution Extended} : b.status = .unbounded →
      Solved host p (p.withBasic b, .done)
  | stopped {b : Solution Extended} {code : ReturnCode} : code ≠ .done → code ≠ .noPrimal →
      Solved host p (p.withBasic b, code)

section
variable {host : Host Extended σ} {W : σ → Prop} {p : Problem Extended} (hp : p.Rational)

include hp in
/-- Without columns every row is zero. -/
theorem Problem.Rational.solved_empty (hempty : p.columns = []) :
    p.Solved host (p.withBasic p.emptySolution, .done) := by
  have hcount : p.columnCount = 0 := by rw [columnCount, hempty]; rfl
  have hrelaxed : ∀ x, p.Relaxed x ↔
      (p.rows.all fun r => decide (r.lower ≤ 0) && decide (0 ≤ r.upper)) = true := by
    intro x
    have hzero : ∀ r : Row Extended, r.activity 0 x = 0 := fun r => sum_range_zero _
    simp only [List.all_eq_true, Bool.and_eq_true, decide_eq_true_eq, zero_eq]
    constructor
    · intro h r hr
      have := h.holds r hr
      rwa [hcount, Row.Holds, hzero] at this
    · intro h
      refine ⟨fun hc => by simp [hempty] at hc, fun r hr => ?_⟩
      rw [hcount, Row.Holds, hzero]
      exact h r hr
  have hvalue : ∀ x, p.valueOf x = p.constant.value := by
    intro x
    rw [valueOf, hcount, sum_range_zero, add_zero]
  by_cases hall : (p.rows.all fun r => decide (r.lower ≤ 0) && decide (0 ≤ r.upper)) = true
  · refine .optimum (x := fun _ => 0) (if_pos hall) ?_ ?_ (.inl hempty) ((hrelaxed _).2 hall)
      fun y _ => ?_
    · rw [hcount]
      rfl
    · rw [hvalue]
      exact hp.constant
    · rw [hvalue, hvalue]
  · exact .infeasible (if_neg hall) fun y hy => hall ((hrelaxed y).1 hy)

/-- The outcome when the program has no optimum. -/
theorem noOptimum_keeps {params : Parameter.Simplex Extended} (hdual : params.isDual = false)
    (name : String) {unbounded : Bool} (h : unbounded = false → ∀ y, ¬p.Relaxed y) :
    Task.Keeps W (noOptimum (σ := σ) params name p unbounded) (p.Solved host) := by
  unfold noOptimum
  cases unbounded with
  | true =>
    simp only [Bool.not_true, Bool.false_and, Bool.false_eq_true, if_false, if_true]
    split_ifs
    · exact (Task.Keeps.tellAt _ _ _).bind fun _ _ => .pure (.stopped (by simp) (by simp))
    · exact (Task.Keeps.tellAt _ _ _).bind fun _ _ => .pure (.unbounded rfl)
  | false =>
    simp only [hdual, Bool.and_false, Bool.false_and, Bool.false_eq_true, if_false]
    split_ifs
    · exact (Task.Keeps.tellAt _ _ _).bind fun _ _ => .pure (.presolved (h rfl))
    · exact (Task.Keeps.tellAt _ _ _).bind fun _ _ => .pure (.infeasible rfl (h rfl))

variable (hhost : host.IsExact) (hW : host.Keeps W)

include hhost hW in
/-- An infeasible program stays infeasible without its cost. -/
theorem isUnbounded_keeps {r : Request Extended} (hr : r.program.Rational)
    (hnone : ∀ y, ¬r.program.Satisfied y) :
    Task.Keeps W (isUnbounded host r) fun b => b = false := by
  unfold isUnbounded
  refine (Task.Keeps.ask hW fun w a ha => hhost _ w a hr.costless ha).bind fun a ha => .pure ?_
  obtain hstatus | hstatus := LinearProgram.Answers.costless ha hnone <;> rw [hstatus] <;> rfl

theorem limited_keeps {α : Type} [Scalar α] (params : Parameter.Simplex α)
    (options : SolverOptions α) :
    Task.Keeps W (params.limited (σ := σ) options) fun _ => True := by
  unfold Parameter.Simplex.limited
  dsimp only
  split
  · exact (Task.Keeps.number _).bind fun _ _ => .pure trivial
  · exact .pure trivial

include hhost hW hp in
theorem solveBasic_keeps (params : Parameter.Simplex Extended) (hdual : params.isDual = false)
    (options : SolverOptions Extended) (name : String) :
    Task.Keeps W (solveBasic host params options name p) (p.Solved host) := by
  unfold solveBasic
  refine (Task.Keeps.now host).bind fun start _ => ?_
  refine (Task.Keeps.tellAt _ _ _).bind fun _ _ => ?_
  split_ifs with hempty
  · exact .pure (hp.solved_empty (List.isEmpty_iff.1 hempty))
  refine (limited_keeps params options).bind fun options _ => ?_
  have hask := Task.Keeps.ask hW (r := ⟨p.linearProgram, .simplex, options⟩)
    (P := fun a => p.linearProgram.Answers a ∧
      ∀ x, a.status = 0 → a.point = firstValues p.columnCount x → host.Answered p x)
    fun w a ha => ⟨hhost _ w a hp.linearProgram ha, fun x h h' => ⟨_, w, a, rfl, ha, h, h'⟩⟩
  refine hask.bind fun a ha => ?_
  obtain ⟨ha, hanswered⟩ := ha
  cases ha with
  | @optimum x hstatus hpoint hvalue hsat hbest =>
    have hlimit : ∀ z, objectiveLimit params p z = .done := by
      intro z
      rw [objectiveLimit, hdual]
      rfl
    have hlength : p.linearProgram.cost.length = p.columnCount := List.length_map _
    rw [LinearProgram.values, hlength] at hpoint
    have hrelaxed := hp.satisfied_iff.1 hsat
    simp only [hstatus, hlimit]
    refine (Task.Keeps.now host).bind fun now _ => ?_
    refine (Task.Keeps.tellAt _ _ _).bind fun _ _ => .pure (.optimum rfl hpoint ?_
      (.inr (hanswered x hstatus hpoint)) hrelaxed ?_)
    · change p.sense * a.value + p.constant = _
      rw [hvalue, hp.dot_cost, Problem.sense_eq, hp.constant.eq, rat_mul_rat, rat_add_rat,
        ← mul_assoc, Problem.sign_mul_sign, one_mul]
      simp [value]
    · intro y hy
      have := hbest y (hp.satisfied_iff.2 hy)
      rw [hp.dot_cost, hp.dot_cost, rat_le_rat] at this
      linarith
  | infeasible hstatus hnone =>
    simp only [hstatus]
    have hrelaxed : ∀ y, ¬p.Relaxed y := fun y hy => hnone y (hp.satisfied_iff.2 hy)
    refine (isUnbounded_keeps hhost hW hp.linearProgram hnone).bind fun b hb => ?_
    exact noOptimum_keeps hdual name fun _ => hrelaxed
  | unbounded hstatus _ =>
    simp only [hstatus]
    exact noOptimum_keeps hdual name (by rintro ⟨⟩)

include hhost hW hp in
theorem simplex_keeps (params : Parameter.Simplex Extended) (hdual : params.isDual = false) :
    Task.Keeps W (simplex host params p) (p.Solved host) := by
  unfold simplex
  cases p.badBounds with
  | some why => exact (Task.Keeps.tellAt _ _ _).bind fun _ _ => .pure (.stopped (by simp) (by simp))
  | none => exact solveBasic_keeps hp hhost hW params hdual _ _

end

/-! ### Problems without a point -/

/-- A solution that denies points is right about it and holds no duals. -/
def Solution.Rejects (s : Solution Extended) (p : Problem Extended) : Prop :=
  s.status = .noFeasible ∨ s.status = .infeasible → s.colDual = [] ∧ ∀ x, ¬p.Relaxed x

section
variable {host : Host Extended σ} {W : σ → Prop} {p : Problem Extended} (hp : p.Rational)

/-- What is stored when the program has no optimum. -/
theorem noOptimum_rejects (params : Parameter.Simplex Extended) (name : String) {unbounded : Bool}
    (h : unbounded = false → ∀ x, ¬p.Relaxed x) :
    Task.Keeps W (noOptimum (σ := σ) params name p unbounded) fun r =>
      ∃ s, r.1 = p.withBasic s ∧ s.Rejects p := by
  unfold noOptimum
  cases unbounded with
  | true =>
    simp only [Bool.not_true, Bool.false_and, Bool.false_eq_true, if_false, if_true]
    split_ifs <;> exact (Task.Keeps.tellAt _ _ _).bind fun _ _ =>
      .pure ⟨_, rfl, by simp [Solution.Rejects]⟩
  | false =>
    simp only [Bool.false_eq_true, if_false]
    split_ifs
    · exact (Task.Keeps.tellAt _ _ _).bind fun _ _ => .pure ⟨_, rfl, fun _ => ⟨rfl, h rfl⟩⟩
    · exact .pure ⟨_, rfl, fun _ => ⟨rfl, h rfl⟩⟩
    · exact (Task.Keeps.tellAt _ _ _).bind fun _ _ => .pure ⟨_, rfl, fun _ => ⟨rfl, h rfl⟩⟩

variable (hhost : host.IsExact) (hW : host.Keeps W)
include hp hhost hW

theorem solveBasic_rejects (hcolumns : p.columns ≠ []) (params : Parameter.Simplex Extended)
    (options : SolverOptions Extended) (name : String) :
    Task.Keeps W (solveBasic host params options name p) fun r =>
      ∃ s, r.1 = p.withBasic s ∧ s.Rejects p := by
  unfold solveBasic
  refine (Task.Keeps.now host).bind fun start _ => ?_
  refine (Task.Keeps.tellAt _ _ _).bind fun _ _ => ?_
  rw [if_neg (by rwa [List.isEmpty_iff])]
  refine (limited_keeps params options).bind fun options _ => ?_
  refine (Task.Keeps.ask hW fun w a ha => hhost _ w a hp.linearProgram ha).bind fun a ha => ?_
  cases ha with
  | optimum hstatus _ _ _ _ =>
    simp only [hstatus]
    exact (Task.Keeps.now host).bind fun now _ => (Task.Keeps.tellAt _ _ _).bind fun _ _ =>
      .pure ⟨_, rfl, by simp [Solution.Rejects, Solution.withBasis, Problem.optimum]⟩
  | infeasible hstatus hnone =>
    simp only [hstatus]
    refine (isUnbounded_keeps hhost hW hp.linearProgram hnone).bind fun b hb => ?_
    exact noOptimum_rejects params name fun _ x hx => hnone x (hp.satisfied_iff.2 hx)
  | unbounded hstatus _ =>
    simp only [hstatus]
    exact noOptimum_rejects params name (by rintro ⟨⟩)

theorem simplex_rejects (hcolumns : p.columns ≠ []) (params : Parameter.Simplex Extended) :
    Task.Keeps W (simplex host params p) fun r => ∃ s, r.1 = p.withBasic s ∧ s.Rejects p := by
  unfold simplex
  split
  · exact (Task.Keeps.tellAt _ _ _).bind fun _ _ => .pure ⟨{}, rfl, by simp [Solution.Rejects]⟩
  · exact solveBasic_rejects hp hhost hW hcolumns params _ _

theorem exact_rejects (hcolumns : p.columns ≠ []) (params : Parameter.Simplex Extended) :
    Task.Keeps W (exact host params p) fun r => ∃ s, r.1 = p.withBasic s ∧ s.Rejects p := by
  rw [exact_eq]
  split_ifs
  · exact (Task.Keeps.tellAt _ _ _).bind fun _ _ => .pure ⟨{}, rfl, by simp [Solution.Rejects]⟩
  split
  · exact (Task.Keeps.tellAt _ _ _).bind fun _ _ => .pure ⟨{}, rfl, by simp [Solution.Rejects]⟩
  · exact solveBasic_rejects hp hhost hW hcolumns _ _ _

end

end MixedInteger
