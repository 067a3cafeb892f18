import MixedInteger.Proofs.Continuous.Duals
import MixedInteger.Proofs.Model.Refutation

/-! Duals of rows at an optimum. The engine stores duals in the direction of the objective. They make
up its costs, and a row that is free or strictly inside its bounds has none. A model turns them once
more: it reports the duals of the problem as it is minimised, whichever sense it has. So constraints
that keep a function from falling have duals that are not negative, and constraints that keep it from
rising such that are not positive. -/

namespace MixedInteger

open Extended Finset

variable {σ : Type} {host : Host Extended σ}

/-! ### Stored duals -/

/-- The duals of a solution make up the costs, and rows that are free or strictly inside their bounds
have none. -/
def Solution.Complements (s : Solution Extended) (p : Problem Extended) : Prop :=
  ∃ x d e, s.colPrimal = firstValues p.columnCount x ∧ s.rowDual = firstValues p.rowCount d ∧
    s.colDual = firstValues p.columnCount e ∧
    (∀ j < p.columnCount,
      p.costAt j = ∑ i ∈ range p.rowCount, (p.rowAt i).coefAt j * d i + e j) ∧
    ∀ i r, p.rows[i]? = some r → r.bound = .free ∨ (r.lower < rat (r.activity p.columnCount x) ∧
      rat (r.activity p.columnCount x) < r.upper) → d i = 0

theorem Problem.eq_zero_of_sign_mul {p : Problem Extended} {q : ℚ} (h : p.sign * q = 0) : q = 0 := by
  have := congrArg (p.sign * ·) h
  simpa [← mul_assoc, sign_mul_sign] using this

theorem Solution.Priced.complements {s : Solution Extended} {p : Problem Extended} {x d e : ℕ → ℚ}
    (hp : p.Linear) (h : s.Priced p x d e) : s.Complements p := by
  refine ⟨x, d, e, h.colPrimal, h.rowDual, h.colDual, fun j hj => h.cost hj, fun i r hr hin => ?_⟩
  have hrow := hp.rows r (List.mem_of_getElem? hr)
  refine p.eq_zero_of_sign_mul ?_
  obtain hfree | ⟨hlower, hupper⟩ := hin
  · exact h.prices.row_free hr hrow hfree
  · exact h.prices.row_inside hr hrow hlower hupper

/-- What a method stores in one place, if it has a point, complements its problem. -/
theorem Task.Stores.complements {x : Task Extended σ (Problem Extended × ReturnCode)}
    {p : Problem Extended} {write : Problem Extended → Solution Extended → Problem Extended}
    (stored : Problem Extended → Solution Extended) (hp : p.Linear)
    (hwrite : ∀ s, stored (write p s) = s) (h : x.Stores p p.linearProgram.Priced write) :
    Task.Keeps (fun _ => True) x fun r =>
      (stored r.1).status = .optimal → (stored r.1).Complements p := by
  refine Task.Keeps.imp h ?_
  rintro r ⟨s, hr, hs⟩ hstatus
  rw [hr, hwrite] at hstatus ⊢
  obtain ⟨x, d, e, hpriced⟩ := hs.exists_priced hp hstatus
  exact hpriced.complements hp

/-! ### What a solve leaves behind -/

/-- A solution beside a problem has no part in prices. -/
theorem Solution.Priced.place {m : Model Extended} {s : Solution Extended} {x d e : ℕ → ℚ}
    (h : s.Priced m.problem x d e) (b : Solution Extended) : s.Priced (m.place b) x d e := by
  unfold Model.place
  cases m.method <;> exact ⟨h.colPrimal, h.rowPrimal, h.rowDual, h.colDual,
    h.prices.cost, h.prices.row, h.prices.column⟩

namespace Model

/-- A solve without a search has ended with a point and duals. -/
structure Priced (m : Model Extended) (x d e : ℕ → ℚ) : Prop where
  bySearch : m.last.bySearch = false
  ray : m.last.ray = none
  certificate : m.last.certificate = none
  solution : m.solution.Priced m.problem x d e

variable {m : Model Extended} {x d e : ℕ → ℚ}

theorem dualSign_eq (m : Model Extended) : m.dualSign = rat m.problem.sign := by
  unfold dualSign Problem.sign
  cases m.problem.direction <;> rfl

/-- Duals are promised of an optimum only. -/
theorem optimal_of_dualStatus (h : m.dualStatus = .ok .feasiblePoint) :
    m.solution.status = .optimal := by
  unfold dualStatus solutionVerdict at h
  cases hsearch : m.last.bySearch <;> cases hs : m.solution.status <;>
    cases hrays : m.mayHaveRays <;> rw [hsearch, hs] at h <;> simp_all [SolutionStatus.verdict?]

theorem dualStatus_of_optimal (hsearch : m.last.bySearch = false)
    (h : m.solution.status = .optimal) : m.dualStatus = .ok .feasiblePoint := by
  rw [dualStatus, solutionVerdict, hsearch, h]
  rfl

/-- The dual that is reported of a row is its price. -/
theorem Priced.constraintDual_row (h : m.Priced x d e) {c : ConstraintIndex}
    (hc : c.function = .scalarAffine) {i k : ℕ} {info : ConstraintInfo Extended} {r : Row Extended}
    (hat : m.RowAt i k info r) (hinfo : m.affineInfo c = .ok info) :
    m.constraintDual (.constraint c) = .ok (rat (m.problem.sign * d i)) := by
  have hi : i < m.problem.rowCount := hat.place_lt
  rw [hat.constraintDual hc hinfo fun _ => h.bySearch, h.certificate]
  dsimp only
  rw [h.solution.rowDual, getD_firstValues hi, dualSign_eq, rat_mul_rat]

/-- A row that is bounded below only has a price that is not negative, and one that is bounded above
only has one that is not positive. -/
theorem Priced.row_signs (h : m.Priced x d e) {i k : ℕ} {info : ConstraintInfo Extended}
    {r : Row Extended} (hat : m.RowAt i k info r) :
    (info.set.kind = .greaterThan → 0 ≤ m.problem.sign * d i) ∧
      (info.set.kind = .lessThan → m.problem.sign * d i ≤ 0) := by
  have hbounds := hat.bounds
  have hprices := h.solution.prices.row hat.row
  constructor <;> intro hkind <;> cases hset : info.set <;> rw [hset] at hkind hbounds <;>
    cases hkind
  · obtain ⟨hb, -, hupper⟩ : BoundKind.lower = r.bound ∧ _ = r.lower ∧ top = r.upper := by
      simpa [ScalarSet.rowBound?, Row.bounds, infinity_eq] using hbounds
    by_contra hneg
    rw [(hprices (by rw [← hb]; simp)).2 (not_le.1 hneg)] at hupper
    cases hupper
  · obtain ⟨hb, hlower, -⟩ : BoundKind.upper = r.bound ∧ bottom = r.lower ∧ _ = r.upper := by
      simpa [ScalarSet.rowBound?, Row.bounds, infinity_eq] using hbounds
    by_contra hpos
    rw [(hprices (by rw [← hb]; simp)).1 (not_le.1 hpos)] at hlower
    cases hlower

/-- A live affine constraint reports a number with the sign of its sense. -/
theorem Priced.exists_dual (h : m.Priced x d e) (hm : m.WellFormed) {c : ConstraintIndex}
    (hc : c.function = .scalarAffine) (hlive : m.isValid (.constraint c) = true) :
    ∃ q : ℚ, m.constraintDual (.constraint c) = .ok (rat q) ∧ (c.set = .greaterThan → 0 ≤ q) ∧
      (c.set = .lessThan → q ≤ 0) := by
  obtain ⟨i, k, info, r, -, hinfo, hat⟩ := hm.exists_rowAt hc hlive
  have hkind : info.set.kind = c.set := by
    rw [affineInfo_eq, if_pos hc] at hinfo
    split at hinfo
    · next heq =>
      cases hinfo
      simpa using (Option.filter_eq_some_iff.1 heq).2
    · cases hinfo
  rw [← hkind]
  exact ⟨_, h.constraintDual_row hc hat hinfo, h.row_signs hat⟩

end Model

namespace Solving

variable {w : Workbench Extended σ} {callback : Option (Callback Extended σ)} {fuel : ℕ}

/-- A solve that ends with a promise of duals has priced the model. -/
theorem optimize_prices (hhost : host.GivesMarginals) (hm : w.model.Sound)
    (hr : w.model.Rational) : Runs (optimize host callback fuel) w (fun _ w' =>
      w'.model.dualStatus = .ok .feasiblePoint → ∃ x d e, w'.model.Priced x d e) fun _ => True := by
  by_cases hmixed : w.model.IsMixed
  · refine (optimize_promises_mixed hm hmixed).imp fun _ _ hnone hdual => ?_
    cases hnone.symm.trans hdual
  have hp : w.model.problem.Linear := (hm.rational_problem hr hmixed).linear
  refine (optimize_settles hmixed (R := fun _ => True) (C := fun _ => True)
    (S := fun _ b => b.Stored w.model.problem w.model.problem.linearProgram.Priced)
    (w.model.attempt_stores (hhost.offers hp)).runs (fun _ _ _ _ => (Task.Keeps.any _).runs)
    fun _ _ _ _ => (Task.Keeps.any _).runs).imp ?_
  rintro _ w' ⟨code, b, ray, certificate, seconds, hstored, hray, hcertificate, hw'⟩ hdual
  have hnone : certificate = none := by
    rw [← Option.not_isSome_iff_eq_none, hcertificate.isSome, hdual]
    simp
  have hstatus := Model.optimal_of_dualStatus hdual
  have hnoray : ray = none := by
    rw [← Option.not_isSome_iff_eq_none, hray.isSome]
    intro hprimal
    cases hstatus.symm.trans ((Model.status_of_primalStatus hprimal).2 rfl)
  have hsolution : (w.model.settled code b ray certificate seconds).solution = b :=
    Model.solution_place b rfl
  rw [hw'] at hstatus ⊢
  rw [hsolution] at hstatus
  obtain ⟨x, d, e, hpriced⟩ := hstored.exists_priced hp hstatus
  exact ⟨x, d, e, rfl, hnoray, hnone, hsolution.symm ▸ hpriced.place b⟩

/-- A solve without a search that ends with an optimum promises duals. -/
theorem optimize_promises_duals (hmixed : ¬w.model.IsMixed) :
    Runs (optimize host callback fuel) w (fun _ w' => w'.model.terminationStatus = .ok .optimal →
      w'.model.dualStatus = .ok .feasiblePoint) fun _ => True := by
  have hstores : ∀ s, Runs (w.model.attempt host) s (fun r _ => ∃ b, r.1 = w.model.place b ∧
      b.status ≠ .feasible ∧ r.2.Agrees b.status) fun _ => True := by
    intro s
    refine (((w.model.attempt_stores (offers_anything host _)).runs s).and
      (w.model.attempt_agrees host s)).imp ?_ |>.weaken fun _ _ => trivial
    rintro r _ ⟨⟨b, hb, hstored⟩, hagrees⟩
    exact ⟨b, hb, hstored.status_ne_feasible, hagrees b hb⟩
  refine (optimize_settles hmixed (R := fun _ => True) (C := fun _ => True)
    (S := fun code b => b.status ≠ .feasible ∧ code.Agrees b.status) hstores
    (fun _ _ _ _ => (Task.Keeps.any _).runs) fun _ _ _ _ => (Task.Keeps.any _).runs).imp ?_
  rintro _ w' ⟨code, b, ray, certificate, seconds, ⟨hfeasible, hagrees⟩, -, -, hw'⟩ hoptimal
  have hsolution : (w.model.settled code b ray certificate seconds).solution = b :=
    Model.solution_place b rfl
  rw [hw'] at hoptimal ⊢
  rw [← hsolution] at hagrees hfeasible
  exact Model.dualStatus_of_optimal rfl
    ((Model.status_of_optimal hagrees hoptimal).resolve_right hfeasible)

end Solving

/-- With a solver that gives marginals, whatever a method stores with a point complements its
problem: the duals make up the costs, and rows that are free or strictly inside their bounds have
none. After a solve of a model that ends with duals, of either sense, affine constraints report
numbers with the signs of their own senses. -/
theorem duals_complement (hhost : host.GivesMarginals) :
    (∀ p : Problem Extended, p.Linear →
      (∀ params, Task.Keeps (fun _ => True) (simplex host params p) fun r =>
        r.1.basic.status = .optimal → r.1.basic.Complements p) ∧
      (∀ params, Task.Keeps (fun _ => True) (exact host params p) fun r =>
        r.1.basic.status = .optimal → r.1.basic.Complements p) ∧
      ∀ params, Task.Keeps (fun _ => True) (interior host params p) fun r =>
        r.1.interior.status = .optimal → r.1.interior.Complements p) ∧
    ∀ (m : Model Extended) (callback : Option (Callback Extended σ)) (fuel : ℕ)
      (session : Session Extended σ) (w : Workbench Extended σ), m.Reachable → m.Rational →
      Solving.optimize host callback fuel ⟨session, m⟩ = .ok () w →
      w.model.dualStatus = .ok .feasiblePoint →
      ∀ c : ConstraintIndex, c.function = .scalarAffine → w.model.isValid (.constraint c) = true →
        ∃ q : ℚ, w.model.constraintDual (.constraint c) = .ok (rat q) ∧
          (c.set = .greaterThan → 0 ≤ q) ∧ (c.set = .lessThan → q ≤ 0) := by
  refine ⟨fun p hp => ⟨fun params => ?_, fun params => ?_, fun params => ?_⟩,
    fun m callback fuel session w hm hr hrun hdual c hc hlive => ?_⟩
  · exact (simplex_stores (hhost.offers hp) params).complements (·.basic) hp fun _ => rfl
  · exact (exact_stores (hhost.offers hp) params).complements (·.basic) hp fun _ => rfl
  · exact (interior_stores (hhost.offers hp) params).complements (·.interior) hp fun _ => rfl
  · obtain ⟨x, d, e, hpriced⟩ := (Solving.optimize_prices hhost (w := ⟨session, m⟩) hm.sound hr).ok
      hrun hdual
    have hunsolved := hm.sound.unsolved_after host callback fuel session
    rw [after_ok hrun] at hunsolved
    exact hpriced.exists_dual (hm.sound.of_unsolved hunsolved).named.wf hc hlive

/-! ### At least three -/

/-- The optimum of `floored`, at its row. -/
def flooredOptimum : Answer Extended where
  point := [rat 3]
  value := rat 3
  ubMarginals := [rat (-1)]
  eqMarginals := []
  lowerMarginals := [rat 0]
  upperMarginals := [rat 0]

theorem flooredOptimum_answers : floored.problem.linearProgram.Answers flooredOptimum := by
  have hp := floored_continuous.rational
  have hcost : ∀ x, dot floored.problem.linearProgram.cost (floored.problem.linearProgram.values x) =
      rat (x 0) := by
    intro x
    have hconstant : floored.problem.constant.value = 0 := rfl
    rw [hp.dot_cost, hconstant, floored, fenced_valueOf, fenced_sign, sub_zero, one_mul]
  refine .optimum (x := fun _ => 3) rfl rfl ?_ ?_ fun y hy => ?_
  · rw [hcost]
    rfl
  · exact hp.satisfied_iff.2 (fenced_relaxed.2 ⟨(rat_le_rat _ _).2 le_rfl, rat_le_top _⟩)
  · rw [hcost, hcost]
    exact (fenced_relaxed.1 (hp.satisfied_iff.1 hy)).1

theorem flooredOptimum_marginal : floored.problem.linearProgram.Marginal flooredOptimum where
  ub := .cons ⟨-1, rfl, by norm_num, fun _ => eq_of_beq (by decide +kernel)⟩ .nil
  eq := .nil
  lower := .cons ⟨0, rfl, le_rfl, by simp⟩ .nil
  upper := .cons ⟨0, rfl, le_rfl, by simp⟩ .nil
  cost := by decide +kernel

theorem floored_rational : floored.Rational :=
  have hp := floored_continuous.rational
  ⟨hp.constant, hp.cost, hp.rows⟩

/-- A host that knows the optimum of `floored`. -/
def Host.flooring {σ : Type} : Host Extended σ :=
  .knowing floored.problem.linearProgram flooredOptimum .denying

theorem Host.flooring_givesMarginals {σ : Type} : (Host.flooring (σ := σ)).GivesMarginals :=
  (Host.knowing_isExact flooredOptimum_answers).givesMarginals
    (Host.knowing_hasMarginals flooredOptimum_marginal)

/-- The row of `floored` reports the dual that is stored for it. -/
theorem constraintDual_floored {m : Model Extended} (hm : m.Sound)
    (hunsolved : m.unsolved = floored.unsolved) (hsearch : m.last.bySearch = false)
    (hcertificate : m.last.certificate = none) {q : ℚ} (hdual : m.solution.rowDual = [rat q]) :
    m.constraintDual (.constraint (fenceIndex (.greaterThan (rat 3)))) = .ok (rat q) := by
  obtain ⟨-, -, hlive, -⟩ := fenced_reads rfl hm hunsolved
  obtain ⟨i, k, info, r, -, hinfo, hat⟩ := hm.named.wf.exists_rowAt rfl hlive
  have hrows : m.problem.rows = floored.problem.rows :=
    congrArg (fun m => m.problem.rows) hunsolved
  have hdirection : m.problem.direction = floored.problem.direction :=
    congrArg (fun m => m.problem.direction) hunsolved
  obtain rfl : i = 0 := by
    have hlt := (List.getElem?_eq_some_iff.1 hat.row).1
    rw [hrows] at hlt
    exact Nat.lt_one_iff.1 hlt
  have hsign : m.dualSign = rat 1 := by
    rw [m.dualSign_eq, Problem.sign, hdirection]
    rfl
  rw [hat.constraintDual rfl hinfo fun _ => hsearch, hcertificate]
  dsimp only
  rw [hdual, hsign]
  simp

/-- What a solve of `floored` leaves. -/
def solveFloored : Workbench Extended Unit :=
  after (Solving.optimize Host.flooring none 20) ⟨⟨(), #[]⟩, floored⟩

/-- The dual of the row makes up the cost of the variable at the bound of the row. The row keeps the
variable from falling, so its dual is not negative. -/
theorem duals_complement_floored :
    (∃ r s, simplex Host.flooring floored.stores.simplex floored.problem ⟨(), #[]⟩ = .ok r s ∧
      r.1.basic.Complements floored.problem ∧ r.1.basic.colPrimal = [rat 3] ∧
        r.1.basic.rowDual = [rat 1] ∧ r.1.basic.colDual = [rat 0]) ∧
    ∃ w q, Solving.optimize Host.flooring none 20 ⟨⟨(), #[]⟩, floored⟩ = .ok () w ∧
      w.model.constraintDual (.constraint (fenceIndex (.greaterThan (rat 3)))) = .ok (rat q) ∧
      0 ≤ q ∧ q = 1 := by
  obtain ⟨hengine, hmodel⟩ := duals_complement (Host.flooring_givesMarginals (σ := Unit))
  constructor
  · obtain ⟨r, s, hrun, htest⟩ := exists_of_passes
      (x := simplex (Host.flooring (σ := Unit)) floored.stores.simplex floored.problem)
      (s := ⟨(), #[]⟩) (fun r => r.1.basic.status == .optimal &&
        r.1.basic.colPrimal.map (· == rat 3) == [true] && r.1.basic.rowDual.map (· == rat 1) == [true] &&
        r.1.basic.colDual.map (· == rat 0) == [true]) (by decide +kernel)
    simp only [Bool.and_eq_true, beq_iff_eq] at htest
    obtain ⟨⟨⟨hoptimal, hprimal⟩, hrow⟩, hcolumn⟩ := htest
    have hcomplements := (hengine floored.problem floored_continuous.rational.linear).1
      floored.stores.simplex ⟨(), #[]⟩ trivial
    rw [Runs, hrun] at hcomplements
    exact ⟨r, s, hrun, hcomplements.1 hoptimal, eq_singleton_of_beq hprimal,
      eq_singleton_of_beq hrow, eq_singleton_of_beq hcolumn⟩
  · obtain ⟨_, w, hrun, -⟩ := exists_of_passes
      (x := Solving.optimize (Host.flooring (σ := Unit)) none 20) (s := ⟨⟨(), #[]⟩, floored⟩)
      (fun _ => true) (by decide +kernel)
    have hstatus : solveFloored.model.dualStatus.toOption = some .feasiblePoint := by
      decide +kernel
    have hsearch : solveFloored.model.last.bySearch = false := by decide +kernel
    have hcertificate : solveFloored.model.last.certificate.isNone = true := by decide +kernel
    have hone : solveFloored.model.solution.rowDual.map (· == rat 1) = [true] := by decide +kernel
    have hm : floored.Reachable := fenced_reachable rfl rfl
    have hunsolved := hm.sound.unsolved_after Host.flooring none 20 ⟨(), #[]⟩
    rw [solveFloored, after_ok hrun] at hstatus hsearch hcertificate hone
    rw [after_ok hrun] at hunsolved
    have hsound := hm.sound.of_unsolved hunsolved
    obtain ⟨-, -, hlive, -⟩ := fenced_reads rfl hsound hunsolved
    obtain ⟨q, hq, hpos, -⟩ := hmodel floored none 20 ⟨(), #[]⟩ w hm floored_rational hrun
      (ok_of_toOption hstatus) _ rfl hlive
    have hreported := constraintDual_floored hsound hunsolved hsearch
      (Option.isNone_iff_eq_none.1 hcertificate) (eq_singleton_of_beq hone)
    refine ⟨w, q, hrun, hq, hpos rfl, ?_⟩
    rw [hq] at hreported
    simpa using hreported

end MixedInteger
