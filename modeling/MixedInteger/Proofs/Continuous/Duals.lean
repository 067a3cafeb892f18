import MixedInteger.Proofs.Continuous.Multipliers
import MixedInteger.Proofs.Continuous.Stored
import MixedInteger.Proofs.Problem.Program

/-! The duals that continuous methods store. A solver that gives an optimum gives its marginals too:
multipliers of the inequalities, equations and bounds that the optimum is at. Gathered by rows and
columns, with the signs of inequalities and of the direction undone, they are duals of the problem
itself. Together with the coefficients they make up the costs, and they are for the sides that rows
and columns are at. -/

namespace MixedInteger

open Extended Finset

variable {σ : Type} {p : Problem Extended} {x y d e δ : ℕ → ℚ}

/-! ### What solvers give -/

/-- An answer to a rational program is an optimum with a point and its marginals, or one of the four
kinds of failures. -/
structure Host.GivesMarginals (host : Host Extended σ) : Prop where
  status : ∀ r w a, r.program.Rational → (host.solve r w).1 = .ok a →
    a.status ∈ ([0, 1, 2, 3, 4] : List ℤ)
  point : ∀ r w a, r.program.Rational → (host.solve r w).1 = .ok a → a.status = 0 →
    ∃ x, a.point = r.program.values x
  marginal : ∀ r w a, r.program.Rational → (host.solve r w).1 = .ok a → a.status = 0 →
    r.program.Marginal a

/-- A solver that is right, and gives marginals with its optima. -/
theorem Host.IsExact.givesMarginals {host : Host Extended σ} (hexact : host.IsExact)
    (hmarginals : host.HasMarginals) : host.GivesMarginals where
  status r w a hr ha := by
    cases hexact r w a hr ha with
    | optimum hstatus => simp [hstatus]
    | infeasible hstatus => simp [hstatus]
    | unbounded hstatus => simp [hstatus]
  point r w a hr ha hstatus := by
    cases hexact r w a hr ha with
    | optimum _ hpoint => exact ⟨_, hpoint⟩
    | infeasible h => simp [hstatus] at h
    | unbounded h => simp [hstatus] at h
  marginal := hmarginals

/-! ### Prices of a problem -/

namespace Problem

/-- A row that is strictly inside its bounds has no price. -/
theorem Prices.row_inside (h : p.Prices x y δ) {i : ℕ} {r : Row Extended}
    (hr : p.rows[i]? = some r) (hrational : r.Rational)
    (hlower : r.lower < rat (r.activity p.columnCount x))
    (hupper : rat (r.activity p.columnCount x) < r.upper) : y i = 0 := by
  by_cases hfixed : r.bound = .fixed
  · have hsides : r.lower = r.upper := by
      have := congrArg Prod.snd hrational.sides
      rwa [hfixed] at this
    have hrat := hrational.lower (by rw [hfixed]; rfl)
    rw [← hsides] at hupper
    rw [hrat.eq, rat_lt_rat] at hlower hupper
    exact absurd hupper hlower.not_gt
  · obtain hneg | hzero | hpos := lt_trichotomy (y i) 0
    · rw [(h.row hr hfixed).2 hneg, rat_lt_rat] at hupper
      exact absurd hupper (lt_irrefl _)
    · exact hzero
    · rw [(h.row hr hfixed).1 hpos, rat_lt_rat] at hlower
      exact absurd hlower (lt_irrefl _)

/-- A row without bounds is strictly inside them. -/
theorem Prices.row_free (h : p.Prices x y δ) {i : ℕ} {r : Row Extended}
    (hr : p.rows[i]? = some r) (hrational : r.Rational) (hfree : r.bound = .free) : y i = 0 := by
  have hsides := hrational.sides
  rw [hfree] at hsides
  obtain ⟨hlower, hupper⟩ := Prod.ext_iff.1 hsides
  refine h.row_inside hr hrational ?_ ?_
  · rw [← show bottom = r.lower from hlower]
    exact bottom_lt_rat _
  · rw [← show top = r.upper from hupper]
    exact rat_lt_top _

/-- The kinds of columns have no part in prices. -/
theorem Linear.prices_of_numeric (hp : p.Linear) (h : p.numeric.Prices x y δ) : p.Prices x y δ := by
  rw [hp.numeric_eq] at h
  have hcost : ∀ j, ({ p with columns := p.columns.map fun c => { c with kind := .continuous } } :
      Problem Extended).costAt j = p.costAt j := by
    intro j
    simp only [costAt, List.getElem?_map, Option.map_map]
    rfl
  have hcount : ({ p with columns := p.columns.map fun c => { c with kind := .continuous } } :
      Problem Extended).columnCount = p.columnCount := List.length_map _
  refine ⟨fun j hj => ?_, fun {i r} hr hfixed => ?_, fun {j c} hc => ?_⟩
  · rw [← hcost]
    exact h.cost j (hcount ▸ hj)
  · rw [← hcount]
    exact h.row hr hfixed
  · refine h.column (c := { c with kind := .continuous }) ?_
    simp [hc]

end Problem

/-! ### Stored duals -/

theorem scaled_firstValues (s : ℚ) (n : ℕ) (x : ℕ → ℚ) :
    scaled (rat s) (firstValues n x) = firstValues n fun j => s * x j := by
  rw [scaled, firstValues, List.map_map]
  rfl

/-- A solution holds a point with duals. In the direction of the objective they are prices. -/
structure Solution.Priced (s : Solution Extended) (p : Problem Extended) (x d e : ℕ → ℚ) : Prop where
  colPrimal : s.colPrimal = firstValues p.columnCount x
  rowPrimal : s.rowPrimal = p.rows.map fun r => rat (r.activity p.columnCount x)
  rowDual : s.rowDual = firstValues p.rowCount d
  colDual : s.colDual = firstValues p.columnCount e
  prices : p.Prices x (fun i => p.sign * d i) fun j => p.sign * e j

namespace Solution.Priced

variable {s : Solution Extended}

/-- In the direction of the objective or against it, duals make up the costs. -/
theorem cost (h : s.Priced p x d e) {j : ℕ} (hj : j < p.columnCount) :
    p.costAt j = ∑ i ∈ range p.rowCount, (p.rowAt i).coefAt j * d i + e j := by
  have hcost := h.prices.cost j hj
  simp only [mul_assoc] at hcost
  rw [← mul_sum, ← mul_add] at hcost
  have hscaled := congrArg (p.sign * ·) hcost
  simp only [← mul_assoc, Problem.sign_mul_sign, one_mul] at hscaled
  rw [← hscaled]
  simp only [mul_comm]

theorem withBasis (h : s.Priced p x d e) : (s.withBasis p).Priced p x d e :=
  ⟨h.colPrimal, h.rowPrimal, h.rowDual, h.colDual, h.prices⟩

end Solution.Priced

/-- The marginals of an answer are prices at its point, whatever the kinds of columns. -/
theorem Problem.Linear.exists_prices (hp : p.Linear) {a : Answer Extended}
    (hpoint : a.point = p.linearProgram.values x) (ha : p.linearProgram.Marginal a) :
    ∃ y δ, p.linearProgram.rowMarginals a p.rowCount = firstValues p.rowCount y ∧
      a.boundMarginals = firstValues p.columnCount δ ∧ p.Prices x y δ := by
  have hpoint' : a.point = firstValues p.columnCount x := hpoint.trans (p.values_linearProgram x)
  obtain ⟨y, δ, hrows, hbounds, hprices⟩ := hp.rational_numeric.exists_prices
    (by rw [hp.linearProgram_numeric]; exact ha) (by rw [columnCount_numeric]; exact hpoint')
  have hcount : p.numeric.rowCount = p.rowCount := List.length_map _
  rw [hp.linearProgram_numeric, hcount] at hrows
  rw [columnCount_numeric] at hbounds
  exact ⟨y, δ, hrows, hbounds, hp.prices_of_numeric hprices⟩

/-- An answer with marginals is read back as a point with duals. -/
theorem Problem.Linear.priced_optimum (hp : p.Linear) {a : Answer Extended}
    (hpoint : a.point = p.linearProgram.values x) (ha : p.linearProgram.Marginal a) :
    ∃ d e, (p.optimum p.linearProgram a).Priced p x d e := by
  have hpoint' : a.point = firstValues p.columnCount x := hpoint.trans (p.values_linearProgram x)
  obtain ⟨y, δ, hrows, hbounds, hprices⟩ := hp.exists_prices hpoint ha
  have hsign : ∀ z : ℕ → ℚ, (fun i => p.sign * (p.sign * z i)) = z := by
    intro z
    funext i
    rw [← mul_assoc, sign_mul_sign, one_mul]
  refine ⟨fun i => p.sign * y i, fun j => p.sign * δ j, hpoint',
    rowPrimal_optimum (fun r hr => (hp.rows r hr).coefs) hpoint', ?_, ?_, ?_⟩
  · change scaled p.sense (p.linearProgram.rowMarginals a p.rowCount) = _
    rw [hrows, sense_eq, scaled_firstValues]
  · change scaled p.sense a.boundMarginals = _
    rw [hbounds, sense_eq, scaled_firstValues]
  · rw [hsign, hsign]
    exact hprices

/-- Without columns nothing has a dual but zero. -/
theorem Problem.priced_emptySolution (hempty : p.columns = []) :
    p.emptySolution.Priced p (fun _ => 0) (fun _ => 0) fun _ => 0 := by
  have hcount : p.columnCount = 0 := by rw [columnCount, hempty]; rfl
  have hnone : ∀ x : ℕ → ℚ, [] = firstValues p.columnCount x := fun x => by rw [hcount]; rfl
  have hzeros : List.replicate p.rowCount (0 : Extended) = firstValues p.rowCount fun _ => 0 := by
    rw [firstValues, List.map_const', List.length_range]
    rfl
  refine ⟨hnone _, p.rowPrimal_emptySolution hempty _, hzeros, hnone _, fun j hj => ?_, by simp,
    by simp⟩
  rw [hcount] at hj
  exact absurd hj (Nat.not_lt_zero j)

/-- An answer that has a point with its marginals. -/
def LinearProgram.Priced (lp : LinearProgram Extended) (a : Answer Extended) : Prop :=
  (∃ x, a.point = lp.values x) ∧ lp.Marginal a

theorem Solution.Stored.exists_priced {s : Solution Extended} (hp : p.Linear)
    (h : s.Stored p p.linearProgram.Priced) (hstatus : s.status = .optimal) :
    ∃ x d e, s.Priced p x d e := by
  cases h with
  | blank hoptimal => exact absurd hstatus hoptimal
  | empty hempty => exact ⟨_, _, _, p.priced_emptySolution hempty⟩
  | optimum ha =>
    obtain ⟨⟨x, hpoint⟩, hmarginal⟩ := ha
    exact ⟨x, hp.priced_optimum hpoint hmarginal⟩
  | basis ha =>
    obtain ⟨⟨x, hpoint⟩, hmarginal⟩ := ha
    obtain ⟨d, e, hpriced⟩ := hp.priced_optimum hpoint hmarginal
    exact ⟨x, d, e, hpriced.withBasis⟩

theorem Host.GivesMarginals.offers {host : Host Extended σ} (hhost : host.GivesMarginals)
    (hp : p.Linear) : host.Offers p.linearProgram p.linearProgram.Priced := by
  rintro r w a hr ha hstatus
  have hrational : r.program.Rational := hr ▸ hp.linearProgram
  have hzero : a.status = 0 := by
    have := hhost.status r w a hrational ha
    simp only [List.mem_cons, List.not_mem_nil, or_false] at this hstatus
    tauto
  exact hr ▸ ⟨hhost.point r w a hrational ha hzero, hhost.marginal r w a hrational ha hzero⟩

end MixedInteger
