import MixedInteger.Proofs.Continuous.Farkas
import MixedInteger.Proofs.Model.Atomicity
import MixedInteger.Proofs.Model.Combination
import MixedInteger.Proofs.Model.Integral
import MixedInteger.Proofs.Model.PointValues

/-! Duals of a model without a point. A certificate is kept for the rows, and they read their duals
from it. The bounds of variables have a part in the certificate too, but their duals are read from a
solution that has none. So the duals of rows are the part of a certificate, while the duals of
bounds are zero, whether the bounds have a part or not. What is found of the rows alone separates
them from their bounds, whenever their least violation is more than the tolerance. -/

namespace MixedInteger

open Extended Finset

namespace Model

variable {m : Model Extended} {i j k : ℕ}

/-! ### Duals of a model without a point -/

/-- Of a certificate, if one is held, all entries are numbers. -/
def HasNumericCertificate (m : Model Extended) : Prop :=
  ∀ ys, m.last.certificate = some ys → ∀ y ∈ ys, Scalar.isNaN y = false

/-- What a solve leaves behind that denies all points. -/
structure Denies (m : Model Extended) : Prop where
  bySearch : m.last.bySearch = false
  colDual : m.solution.colDual = []
  nowhere : ∀ x, ¬m.problem.Relaxed x
  certificate : ∃ ys, m.last.certificate = some ys ∧
    (ys = List.replicate m.problem.rowCount nan ∨
      ∃ y δ, ys = firstValues m.problem.rowCount y ∧ m.problem.Refutes y δ)

/-- A bound has no dual where there are none of columns, whether the column is at it or not. -/
theorem VariableAt.constraintDual_of_nil {info : VariableInfo} {c : Column Extended}
    (hat : m.VariableAt j k info c) (hsearch : m.last.bySearch = false)
    (hnil : m.solution.colDual = []) (hm : m.WellFormed) {kind : Kind}
    (hkind : kind ∈ info.bound.kinds) :
    m.constraintDual (.constraint ⟨.singleVariable, kind, k⟩) = .ok 0 := by
  have hzero : m.dualSign * m.solution.colDual.getD j 0 = (0 : Extended) := by
    rw [hnil]
    unfold dualSign
    split_ifs
    · exact (rat_mul_rat 1 0).trans (congrArg rat (mul_zero 1))
    · exact (rat_mul_rat (-1) 0).trans (congrArg rat (mul_zero (-1)))
  obtain ⟨hcarries, hbound⟩ := info.mem_kinds.1 hkind
  rw [hat.constraintDual hsearch hbound (hat.liveInfo hm hcarries), hzero]
  cases kind <;> simp [Column.boundDual]

/-- Rows have the duals that refute the problem, and bounds have none. -/
theorem Sound.exists_certificate (hm : m.Sound) (hr : ∀ r ∈ m.problem.rows, r.IsNumeric)
    (h : m.Denies) (hnumeric : m.HasNumericCertificate)
    (hrows : m.problem.rowCount = 0 → ∃ x, m.problem.Relaxed x) :
    ∃ y, m.IsCertificate y ∧ ∀ c ∈ m.bounding, m.constraintDual (.constraint c) =
      .ok (if c.function = .scalarAffine then rat (y c) else 0) := by
  obtain ⟨L, hL, -⟩ := hm.ledger
  have hwf := hm.named.wf
  obtain ⟨ys, hys, hcases⟩ := h.certificate
  obtain ⟨y, δ, rfl, hrefutes⟩ : ∃ y δ, ys = firstValues m.problem.rowCount y ∧
      m.problem.Refutes y δ := by
    obtain rfl | hrefutes := hcases
    · cases hcount : m.problem.rowCount with
      | zero =>
        obtain ⟨x, hx⟩ := hrows hcount
        exact absurd hx (h.nowhere x)
      | succ n =>
        have hnan := hnumeric _ hys nan (List.mem_replicate.2 ⟨by omega, rfl⟩)
        cases hnan
    · exact hrefutes
  refine ⟨m.multiplier y δ, hm.isCertificate hrefutes hr, fun c hc => ?_⟩
  obtain ⟨i, k, info, r, hat, rfl⟩ | ⟨j, k, info, d, kind, hat, hkind, rfl⟩ :=
    bounding_cases hL hc
  · have hi : i < m.problem.rowCount := hat.place_lt
    have hentry : (firstValues m.problem.rowCount y)[i]? = some (rat (y i)) := by
      simp [firstValues, hi]
    rw [hat.constraintDual rfl (hat.affineInfo hwf) (fun hnone =>
      absurd (hys.symm.trans hnone) (Option.some_ne_none _)), hys,
      hat.multiplier hwf, if_pos rfl]
    exact component_of_getElem hentry
  · rw [hat.constraintDual_of_nil h.bySearch h.colDual hwf hkind, if_neg Kind.noConfusion]

end Model

/-! ### Solves without a point -/

namespace Model

variable {m : Model Extended}

/-- Every column is the one of a variable. -/
theorem WellFormed.exists_variableAt_of_mem (hm : m.WellFormed) {c : Column Extended}
    (hc : c ∈ m.problem.columns) : ∃ j k info, m.VariableAt j k info c := by
  obtain ⟨j, hj⟩ := List.mem_iff_getElem?.1 hc
  obtain ⟨k, info, d, hat⟩ := hm.variableAt_of_lt (List.getElem?_eq_some_iff.1 hj).1
  cases hj.symm.trans hat.column
  exact ⟨j, k, info, hat⟩

theorem Sound.proper_column (hm : m.Sound) {c : Column Extended} (hc : c ∈ m.problem.columns) :
    Problem.ProperBounds c.lower c.upper := by
  obtain ⟨j, k, info, hat⟩ := hm.named.wf.exists_variableAt_of_mem hc
  obtain ⟨hl, hu⟩ := hm.bounds_column hat
  exact ⟨hl.bottom_or_isRat, hu.top_or_isRat⟩

/-- A model without integer variables has no integer columns. -/
theorem Sound.kind_of_unmixed (hm : m.Sound) (hmixed : ¬m.IsMixed) {c : Column Extended}
    (hc : c ∈ m.problem.columns) : c.kind ≠ .integer := by
  obtain ⟨L, hL, -⟩ := hm.ledger
  obtain ⟨j, k, info, hat⟩ := hm.named.wf.exists_variableAt_of_mem hc
  have hcount : 0 < m.typed info.type :=
    List.countP_pos_iff.2 ⟨_, List.mem_of_getElem? hat.entry, by simp⟩
  rw [IsMixed, not_or, hL.binaries, hL.integers] at hmixed
  rw [ne_eq, hm.kind_column hat, not_not]
  cases htype : info.type with
  | continuous => rfl
  | binary => exact absurd (htype ▸ Int.natCast_pos.2 hcount) hmixed.1
  | integer => exact absurd (htype ▸ Int.natCast_pos.2 hcount) hmixed.2

/-- A model without integer variables has a rational problem when its numbers are rational. -/
theorem Sound.rational_problem (hm : m.Sound) (hr : m.Rational) (hmixed : ¬m.IsMixed) :
    m.problem.Rational where
  constant := hr.constant
  cost := hr.cost
  proper _ hc := hm.proper_column hc
  whole _ hc hkind := absurd hkind (hm.kind_of_unmixed hmixed hc)
  rows := hr.rows

end Model

/-- A solution beside a problem has no part in what refutes it. -/
theorem Problem.Refutes.place {m : Model Extended} {y δ : ℕ → ℚ} (h : m.problem.Refutes y δ)
    (b : Solution Extended) : (m.place b).Refutes y δ := by
  unfold Model.place
  cases m.method <;> exact ⟨h.balance, h.row, h.column, h.positive⟩

theorem Problem.Relaxed.of_place {m : Model Extended} {b : Solution Extended} {x : ℕ → ℚ}
    (h : (m.place b).Relaxed x) : m.problem.Relaxed x := by
  unfold Model.place at h
  cases hmethod : m.method <;> rw [hmethod] at h <;> exact ⟨h.within, h.holds⟩

/-- Without rows the bounds alone decide. -/
theorem Problem.exists_relaxed {p : Problem Extended}
    (hproper : ∀ c ∈ p.columns, ProperBounds c.lower c.upper)
    (huncrossed : ∀ c ∈ p.columns, c.lower ≤ c.upper) (hrows : p.rowCount = 0) :
    ∃ x, p.Relaxed x := by
  obtain ⟨x, hx⟩ := exists_encloses hproper huncrossed
  refine ⟨x, fun {j c} hc => hx j c hc, fun r hr => ?_⟩
  rw [List.length_eq_zero_iff.1 hrows] at hr
  cases hr

namespace Solving

variable {σ : Type} {host : Host Extended σ} (hexact : host.IsExact)
  (hmarginals : host.HasMarginals) {w : Workbench Extended σ}

include hexact in
theorem attempt_rejects {m : Model Extended} (hp : m.problem.Rational)
    (hcolumns : m.problem.columns ≠ []) : Task.Keeps (fun _ => True) (m.attempt host) fun r =>
      ∃ b, r.1 = m.place b ∧ (m.method ≠ .interior → b.Rejects m.problem) := by
  unfold Model.attempt Model.place
  cases m.method with
  | simplex =>
    refine (simplex_rejects hp hexact host.keeps_true hcolumns _).imp ?_
    exact fun _ ⟨b, hb, h⟩ => ⟨b, hb, fun _ => h⟩
  | exact =>
    refine (exact_rejects hp hexact host.keeps_true hcolumns _).imp ?_
    exact fun _ ⟨b, hb, h⟩ => ⟨b, hb, fun _ => h⟩
  | interior =>
    refine Task.Keeps.imp (interior_writes host m.problem m.stores.interior) ?_
    exact fun _ ⟨b, hb⟩ => ⟨b, hb, fun h => absurd rfl h⟩

variable {callback : Option (Callback Extended σ)} {fuel : ℕ}

/-- After a search there are no duals. -/
theorem optimize_promises_mixed (hm : w.model.Sound) (hmixed : w.model.IsMixed) :
    Runs (optimize host callback fuel) w (fun _ w' => w'.model.dualStatus = .ok .noSolution)
      fun _ => True := by
  have hfinds : Finds (w.model.begun.withColumns w.model.innerColumns) host callback fuel
      fun _ _ _ => True := fun _ _ _ => .anything
  refine ((optimize_searches hm.roundable hmixed hfinds).imp ?_).weaken fun _ _ => trivial
  rintro _ w' ⟨b, v, code, s, seconds, -, hagrees, hw'⟩
  rw [hw']
  exact (Model.statuses_of_search rfl hagrees.known).2.2

include hexact hmarginals in
/-- When a solve ends with a promise of certified duals, no point is left and a certificate is
held. -/
theorem optimize_denies (hm : w.model.Sound) (hr : w.model.Rational)
    (hcolumns : w.model.problem.columns ≠ []) :
    Runs (optimize host callback fuel) w (fun _ w' =>
      w'.model.dualStatus = .ok .certificate → w'.model.Denies) fun _ => True := by
  by_cases hmixed : w.model.IsMixed
  · refine (optimize_promises_mixed hm hmixed).imp fun _ _ hnone hdual => ?_
    cases hnone.symm.trans hdual
  have hp : w.model.problem.Rational := hm.rational_problem hr hmixed
  have hray : ∀ b, Task.Keeps (fun _ => True) (infeasibilityRay host (w.model.place b)) fun ys =>
      ys = List.replicate w.model.problem.rowCount nan ∨ ∃ y δ,
        ys = firstValues w.model.problem.rowCount y ∧ w.model.problem.Refutes y δ := by
    intro b
    have hplace : infeasibilityRay host (w.model.place b) = infeasibilityRay host w.model.problem := by
      unfold Model.place
      cases w.model.method <;> rfl
    rw [hplace]
    exact infeasibilityRay_refutes hexact hmarginals hp.linear
  refine (optimize_settles hmixed (R := fun _ => True)
    (S := fun _ b => w.model.method ≠ .interior → b.Rejects w.model.problem)
    (attempt_rejects hexact hp hcolumns).runs (fun _ _ _ _ => (Task.Keeps.any _).runs)
    fun _ b _ _ => (hray b).runs).imp ?_
  rintro _ w' ⟨code, b, ray, certificate, seconds, hrejects, -, hcertificate, hw'⟩ hdual
  obtain ⟨ys, hys⟩ := Option.isSome_iff_exists.1 (hcertificate.isSome.2 hdual)
  rw [hw'] at hdual ⊢
  obtain ⟨-, hmethod, hstatus⟩ := Model.status_of_dualStatus hdual
  have hsolution : (w.model.settled code b ray certificate seconds).solution = b :=
    Model.solution_place b rfl
  rw [hsolution] at hstatus
  obtain ⟨hnil, hnowhere⟩ := hrejects hmethod hstatus
  have hcount : (w.model.place b).rowCount = w.model.problem.rowCount := by
    unfold Model.place
    cases w.model.method <;> rfl
  refine ⟨rfl, (congrArg (·.colDual) hsolution).trans hnil, fun x hx => hnowhere x hx.of_place,
    ys, hys, ?_⟩
  dsimp only [Model.settled]
  rw [hcount]
  obtain hnan | ⟨y, δ, hy, hrefutes⟩ := hcertificate.holds ys hys
  · exact .inl hnan
  · exact .inr ⟨y, δ, hy, hrefutes.place b⟩

end Solving

/-- With an exact solver that gives marginals, whatever the model and the method: when a solve ends
with a promise of certified duals and the duals of rows are numbers, there are multipliers that
certify that nothing satisfies the model. Rows have their part of them for duals. Bounds have no
part in what is reported: their duals are all zero. -/
theorem optimize_certifies_rows {σ : Type} {host : Host Extended σ} (hexact : host.IsExact)
    (hmarginals : host.HasMarginals) {callback : Option (Callback Extended σ)} {m : Model Extended}
    (hm : m.Reachable) (hr : m.Rational) (hcolumns : m.problem.columns ≠ [])
    (huncrossed : ∀ c ∈ m.problem.columns, c.lower ≤ c.upper) {fuel : ℕ}
    {session : Session Extended σ} {w : Workbench Extended σ}
    (hrun : Solving.optimize host callback fuel ⟨session, m⟩ = .ok () w)
    (hdual : w.model.dualStatus = .ok .certificate) (hnumeric : w.model.HasNumericCertificate) :
    (∃ y, w.model.IsCertificate y ∧
      ∀ c ∈ w.model.bounding, w.model.constraintDual (.constraint c) =
        .ok (if c.function = .scalarAffine then rat (y c) else 0)) ∧
    ∀ z, ¬w.model.Satisfied z := by
  have hunsolved : w.model.unsolved = m.unsolved := by
    have := hm.sound.unsolved_after host callback fuel session
    rwa [after_ok hrun] at this
  have hsound : w.model.Sound := hm.sound.of_unsolved hunsolved
  have hcolumns' : w.model.problem.columns = m.problem.columns :=
    congrArg (fun m => m.problem.columns) hunsolved
  have hrows : w.model.problem.rows = m.problem.rows :=
    congrArg (fun m => m.problem.rows) hunsolved
  have hdenies := (Solving.optimize_denies hexact hmarginals (w := ⟨session, m⟩) hm.sound hr
    hcolumns).ok hrun hdual
  have hnumbers : ∀ r ∈ w.model.problem.rows, r.IsNumeric :=
    fun r hr' => (hr.rows r (hrows ▸ hr')).coefs
  obtain ⟨y, hy, hduals⟩ := hsound.exists_certificate hnumbers hdenies hnumeric
    (Problem.exists_relaxed (fun c hc => hsound.proper_column hc)
      fun c hc => huncrossed c (hcolumns' ▸ hc))
  exact ⟨⟨y, hy, hduals⟩, fun _ => hsound.not_satisfied hy hnumbers⟩

/-! ### Hosts that know an answer -/

deriving instance DecidableEq for LinearProgram

/-- Whether two are the same, which is not what `==` says of values that are no numbers. -/
def Extended.decEq : DecidableEq Extended := fun x y =>
  decidable_of_iff ((x == y) = true ∨ (Scalar.isNaN x && Scalar.isNaN y) = true) (by
    constructor
    · rintro (h | h)
      · exact eq_of_beq h
      · cases x <;> cases y <;> first | rfl | cases h
    · rintro rfl
      cases x with
      | nan => exact .inr rfl
      | rat q => exact .inl (by simp [rat_beq_rat])
      | _ => exact .inl rfl)

def LinearProgram.decEq : DecidableEq (LinearProgram Extended) :=
  letI := Extended.decEq
  inferInstance

/-- A host that knows the answer to one program, and asks another one else. -/
def Host.knowing {σ : Type} (lp : LinearProgram Extended) (a : Answer Extended)
    (host : Host Extended σ) : Host Extended σ where
  solve r w :=
    letI := Extended.decEq
    if r.program = lp then (.ok a, w) else host.solve r w
  now := host.now

/-- A host that says of programs with one column when they have no optimum. -/
def Host.denying {σ : Type} : Host Extended σ where
  solve r w := (r.program.solveSingle.bind fun a =>
    if a.status = 0 then .error .exhausted else .ok a, w)
  now _ := 0

theorem Host.knowing_cases {σ : Type} {lp : LinearProgram Extended} {a b : Answer Extended}
    {host : Host Extended σ} {r : Request Extended} {w : σ}
    (h : ((Host.knowing lp a host).solve r w).1 = .ok b) :
    r.program = lp ∧ b = a ∨ (host.solve r w).1 = .ok b := by
  unfold Host.knowing at h
  dsimp only at h
  split_ifs at h with heq
  · cases h
    exact .inl ⟨heq, rfl⟩
  · exact .inr h

theorem Host.knowing_solve {σ : Type} {lp : LinearProgram Extended} {a : Answer Extended}
    {host : Host Extended σ} {r : Request Extended} {w : σ} (h : r.program = lp) :
    ((Host.knowing lp a host).solve r w).1 = .ok a := by
  unfold Host.knowing
  dsimp only
  rw [if_pos h]

theorem Host.of_denying {σ : Type} {r : Request Extended} {w : σ} {a : Answer Extended}
    (h : ((Host.denying (σ := σ)).solve r w).1 = .ok a) :
    r.program.solveSingle = .ok a ∧ a.status ≠ 0 := by
  obtain ⟨b, hb, h⟩ := except_bind_eq_ok.1 h
  split_ifs at h with hstatus
  cases h
  exact ⟨hb, hstatus⟩

section
variable {σ : Type} {lp : LinearProgram Extended} {a : Answer Extended}

theorem Host.knowing_isExact (h : lp.Answers a) : (Host.knowing (σ := σ) lp a .denying).IsExact := by
  intro r w b hr hb
  obtain ⟨rfl, rfl⟩ | hb := Host.knowing_cases hb
  · exact h
  · exact LinearProgram.solveSingle_answers hr (Host.of_denying hb).1

theorem Host.knowing_hasMarginals (h : lp.Marginal a) :
    (Host.knowing (σ := σ) lp a .denying).HasMarginals := by
  intro r w b _ hb hstatus
  obtain ⟨rfl, rfl⟩ | hb := Host.knowing_cases hb
  · exact h
  · exact absurd hstatus (Host.of_denying hb).2

end

/-! ### A bound below a row -/

/-- The variable is given a bound. -/
theorem Model.WellFormed.after_bound {m : Model Extended} (hm : m.WellFormed) {info : VariableInfo}
    {c : Column Extended} (hvars : m.vars.entries = [(1, info)]) (hcolumns : m.problem.columns = [c])
    (hindex : info.index = ⟨1⟩) (hnumber : info.column = 1) {s : ScalarSet Extended} {b : BoundState}
    (hb : info.addBound s.kind = .ok b) {l u : Extended} (hlower : s.change.lower.getD c.lower = l)
    (hupper : s.change.upper.getD c.upper = u) (hl : LowerBound l) (hu : UpperBound u)
    {kind : BoundKind} (hkind : boundKind l u = kind) :
    Call.after m (.edit (.addConstraint (.single ⟨1⟩) (.set s))) =
      m.solo { info with bound := b } { c with bound := kind, lower := l, upper := u } := by
  subst hlower hupper hkind
  rw [hm.after_addBound hvars hcolumns hindex hnumber hb
    (Modelling.refusesChange_eq_false _ hl.isNaN hu.isNaN), Column.rebound,
    storedBounds_eq ⟨hl.eq_bottom, hu.eq_top⟩]

/-- A variable that is at most one. -/
def ceiled : Model Extended :=
  { lone with
    vars := { lone.vars with entries := [(1, { index := ⟨1⟩, column := 1, bound := .lessThan })] }
    problem := { lone.problem with columns := [{ bound := .upper, upper := rat 1 }] } }

theorem ceiled_reachable : ceiled.Reachable := by
  have hcall := lone_reachable.call
    (c := .edit (.addConstraint (.single ⟨1⟩) (.set (.lessThan (rat 1))))) (by decide +kernel)
  have hkind : boundKind bottom (rat 1) = .upper := by decide +kernel
  rw [lone_wellFormed.after_bound (c := {}) rfl rfl rfl rfl (s := .lessThan (rat 1))
    (b := .lessThan) rfl rfl rfl (.inl rfl) (by decide +kernel) hkind] at hcall
  exact hcall

/-- It also has a row, by which it is at least two. -/
def cramped : Model Extended :=
  ceiled.withRow (.greaterThan (rat 2))
    (({ coefs := [(1, 1)] } : Row Extended).within (.lower, rat 2, top))

theorem cramped_reachable : cramped.Reachable := by
  have hm := ceiled_reachable.sound.named.wf
  have hinfo : ceiled.vars.get? 1 = some { index := ⟨1⟩, column := 1, bound := .lessThan } :=
    hm.vars.get?_of_getElem (i := 0) rfl
  have hcall := ceiled_reachable.call (c := fence (.greaterThan (rat 2)))
    (by rintro _ ⟨⟩ _ ⟨⟩)
  rwa [hm.after_fence (by decide) hinfo rfl rfl rfl] at hcall

theorem cramped_rational : cramped.Rational where
  constant := rfl
  cost c hc := by
    cases List.mem_singleton.1 hc
    rfl
  rows r hr := by
    cases List.mem_singleton.1 hr
    refine ⟨fun e he => ?_, rfl, fun _ => rfl, (fun h => nomatch h)⟩
    cases List.mem_singleton.1 he
    rfl

theorem cramped_uncrossed : ∀ c ∈ cramped.problem.columns, c.lower ≤ c.upper := by
  intro c hc
  cases List.mem_singleton.1 hc
  exact bottom_le_rat 1

/-- The program of the least violation of `cramped`. The second and the third column measure what
the row lacks and what it has too much. -/
def leastViolation : LinearProgram Extended where
  cost := [rat 0, rat 1, rat 1]
  matrix := [[rat 1, rat 1, rat (-1)]]
  ubMatrix := some [[rat (-1), rat (-1), rat 1]]
  ubBound := some [rat (-2)]
  eqMatrix := none
  eqBound := none
  bounds := [(none, some (rat 1)), (some (rat 0), none), (some (rat 0), none)]
  ubRows := [(0, rat (-1))]
  eqRows := []
  sense := rat 1

/-- The row lacks one at least. -/
def violated : Answer Extended where
  point := [rat 1, rat 1, rat 0]
  value := rat 1
  ubMarginals := [rat (-1)]
  eqMarginals := []
  lowerMarginals := [rat 0, rat 0, rat 2]
  upperMarginals := [rat (-1), rat 0, rat 0]

theorem dot_three (a b c x y z : ℚ) :
    dot [rat a, rat b, rat c] [rat x, rat y, rat z] = rat (0 + a * x + b * y + c * z) := rfl

theorem leastViolation_values (x : ℕ → ℚ) :
    leastViolation.values x = [rat (x 0), rat (x 1), rat (x 2)] := rfl

theorem leastViolation_satisfied {x : ℕ → ℚ} : leastViolation.Satisfied x ↔
    -x 0 - x 1 + x 2 ≤ -2 ∧ x 0 ≤ 1 ∧ 0 ≤ x 1 ∧ 0 ≤ x 2 := by
  have hrow : 0 + -1 * x 0 + -1 * x 1 + 1 * x 2 = -x 0 - x 1 + x 2 := by ring
  constructor
  · intro h
    have hub := h.ub ([rat (-1), rat (-1), rat 1], rat (-2)) (by simp [leastViolation])
    have hbounds := h.bounds
    rw [leastViolation_values, dot_three, rat_le_rat, hrow] at hub
    rw [leastViolation_values] at hbounds
    exact ⟨hub, by simpa [leastViolation] using hbounds⟩
  · rintro ⟨hub, hbounds⟩
    refine ⟨fun e he => ?_, fun e he => ?_, fun e he => ?_⟩
    · simp only [leastViolation, Option.getD_some, List.zip_cons_cons, List.zip_nil_left,
        List.mem_singleton] at he
      subst he
      rw [leastViolation_values, dot_three, rat_le_rat, hrow]
      exact hub
    · cases he
    · rw [leastViolation_values] at he
      obtain rfl | rfl | rfl : e = ((none, some (rat 1)), rat (x 0)) ∨
          e = ((some (rat 0), none), rat (x 1)) ∨ e = ((some (rat 0), none), rat (x 2)) := by
        simpa [leastViolation] using he
      all_goals simp [hbounds]

theorem leastViolation_answers : leastViolation.Answers violated := by
  refine .optimum (x := fun j => [1, 1, 0].getD j 0) rfl rfl ?_ ?_ fun y hy => ?_
  · exact congrArg rat (by norm_num)
  · exact leastViolation_satisfied.2 (by norm_num)
  · have hy := leastViolation_satisfied.1 hy
    rw [leastViolation_values, leastViolation_values, leastViolation, dot_three, dot_three,
      rat_le_rat]
    norm_num
    linarith

theorem leastViolation_marginal : leastViolation.Marginal violated where
  ub := by
    refine .cons ⟨-1, rfl, by norm_num, fun _ => ?_⟩ .nil
    exact (dot_three ..).trans (congrArg rat (by norm_num))
  eq := .nil
  lower := by
    refine .cons ⟨0, rfl, le_rfl, by simp⟩ (.cons ⟨0, rfl, le_rfl, by simp⟩ (.cons ?_ .nil))
    exact ⟨2, rfl, by norm_num, fun _ => rfl⟩
  upper := by
    refine .cons ?_ (.cons ⟨0, rfl, le_rfl, by simp⟩ (.cons ⟨0, rfl, le_rfl, by simp⟩ .nil))
    exact ⟨-1, rfl, by norm_num, fun _ => rfl⟩
  cost := by
    intro j hj
    have hlt : j < 3 := hj
    interval_cases j <;> norm_num [leastViolation, violated, value]

/-- A host that knows the least violation of `cramped`. -/
def Host.violating {σ : Type} : Host Extended σ := .knowing leastViolation violated .denying

theorem Host.violating_isExact {σ : Type} : (Host.violating (σ := σ)).IsExact :=
  Host.knowing_isExact leastViolation_answers

theorem Host.violating_hasMarginals {σ : Type} : (Host.violating (σ := σ)).HasMarginals :=
  Host.knowing_hasMarginals leastViolation_marginal

/-- The bound of the variable of `cramped`. -/
def crampedBound : ConstraintIndex := ⟨.singleVariable, .lessThan, 1⟩

/-- A solve of `cramped`, as it is when it returns. -/
structure SolvedCramped (w : Workbench Extended Unit) : Prop where
  run : Solving.optimize Host.violating none 20 ⟨⟨(), #[]⟩, cramped⟩ = .ok () w
  dualStatus : w.model.dualStatus = .ok .certificate
  certificate : w.model.last.certificate = some [rat 1]
  bySearch : w.model.last.bySearch = false
  colDual : w.model.solution.colDual = []
  sound : w.model.Sound
  unsolved : w.model.unsolved = cramped.unsolved

theorem exists_solvedCramped : ∃ w, SolvedCramped w := by
  obtain ⟨_, w, hrun, -⟩ := exists_of_passes
    (x := Solving.optimize (Host.violating (σ := Unit)) none 20) (s := ⟨⟨(), #[]⟩, cramped⟩)
    (fun _ => true) (by decide +kernel)
  have hdual : (after (Solving.optimize (Host.violating (σ := Unit)) none 20)
      ⟨⟨(), #[]⟩, cramped⟩).model.dualStatus.toOption = some .certificate := by decide +kernel
  have hcertificate : (after (Solving.optimize (Host.violating (σ := Unit)) none 20)
      ⟨⟨(), #[]⟩, cramped⟩).model.last.certificate.map (·.map (· == rat 1)) = some [true] := by
    decide +kernel
  have hsearch : (after (Solving.optimize (Host.violating (σ := Unit)) none 20)
      ⟨⟨(), #[]⟩, cramped⟩).model.last.bySearch = false := by decide +kernel
  have hnil : (after (Solving.optimize (Host.violating (σ := Unit)) none 20)
      ⟨⟨(), #[]⟩, cramped⟩).model.solution.colDual.isEmpty = true := by decide +kernel
  have hm := cramped_reachable.sound
  have hunsolved := hm.unsolved_after Host.violating none 20 ⟨(), #[]⟩
  rw [after_ok hrun] at hdual hcertificate hsearch hnil hunsolved
  obtain ⟨ys, hsome, hys⟩ := Option.map_eq_some_iff.1 hcertificate
  exact ⟨w, hrun, ok_of_toOption hdual, hsome.trans (congrArg some (eq_singleton_of_beq hys)),
    hsearch, List.isEmpty_iff.1 hnil, hm.of_unsolved hunsolved, hunsolved⟩

namespace SolvedCramped

variable {w : Workbench Extended Unit} (h : SolvedCramped w)
include h

theorem variableAt : w.model.VariableAt 0 1 { index := ⟨1⟩, column := 1, bound := .lessThan }
    { bound := .upper, upper := rat 1 } := by
  have hvars : w.model.vars = cramped.vars := congrArg (fun m => m.vars) h.unsolved
  have hcolumns : w.model.problem.columns = cramped.problem.columns :=
    congrArg (fun m => m.problem.columns) h.unsolved
  exact ⟨by rw [hvars]; rfl, by rw [hcolumns]; rfl, rfl, rfl⟩

theorem rowAt : w.model.RowAt 0 1 ⟨1, .greaterThan (rat 2), ""⟩
    (({ coefs := [(1, 1)] } : Row Extended).within (.lower, rat 2, top)) := by
  have haffine : w.model.affine = cramped.affine := congrArg (fun m => m.affine) h.unsolved
  have hrows : w.model.problem.rows = cramped.problem.rows :=
    congrArg (fun m => m.problem.rows) h.unsolved
  exact ⟨by rw [haffine]; rfl, by rw [hrows]; rfl, rfl, rfl⟩

theorem numeric : w.model.HasNumericCertificate := by
  intro ys hys y hy
  cases h.certificate.symm.trans hys
  rw [List.mem_singleton.1 hy]
  rfl

theorem mem_bounding : fenceIndex (.greaterThan (rat 2)) ∈ w.model.bounding ∧
    crampedBound ∈ w.model.bounding := by
  obtain ⟨L, hL, -⟩ := h.sound.ledger
  exact ⟨Model.mem_bounding_rowIndex hL h.rowAt,
    Model.mem_bounding_single hL h.variableAt (List.mem_singleton_self _)⟩

/-- The bound has no dual. -/
theorem constraintDual_bound : w.model.constraintDual (.constraint crampedBound) = .ok 0 :=
  h.variableAt.constraintDual_of_nil h.bySearch h.colDual h.sound.named.wf
    (List.mem_singleton_self _)

theorem constraintDual_row :
    w.model.constraintDual (.constraint (fenceIndex (.greaterThan (rat 2)))) = .ok (rat 1) := by
  have hinfo : w.model.affineInfo (fenceIndex (.greaterThan (rat 2))) =
      .ok ⟨1, .greaterThan (rat 2), ""⟩ := h.rowAt.affineInfo h.sound.named.wf
  rw [h.rowAt.constraintDual rfl hinfo (fun hnone => nomatch h.certificate.symm.trans hnone),
    h.certificate]
  rfl

/-- A certificate weighs the row and the bound against each other. -/
theorem multipliers {y : ConstraintIndex → ℚ} (hy : w.model.IsCertificate y) :
    y (fenceIndex (.greaterThan (rat 2))) + y crampedBound = 0 ∧
      0 < y (fenceIndex (.greaterThan (rat 2))) * 2 + y crampedBound := by
  have hrows : w.model.problem.rows = cramped.problem.rows :=
    congrArg (fun m => m.problem.rows) h.unsolved
  have hrowCount : w.model.problem.rowCount = 1 := congrArg List.length hrows
  have hcolumnCount : w.model.problem.columnCount = 1 :=
    congrArg (fun m : Model Extended => m.problem.columnCount) h.unsolved
  have hnumeric : ∀ r ∈ w.model.problem.rows, r.IsNumeric :=
    fun r hr => (cramped_rational.rows r (hrows ▸ hr)).coefs
  have hrow : w.model.rowIndex 0 = fenceIndex (.greaterThan (rat 2)) := h.rowAt.rowIndex
  have hbounds : w.model.boundsOn 0 = [crampedBound] := h.variableAt.boundsOn
  constructor
  · have hcoef : (({ coefs := [(1, 1)] } : Row Extended).within (.lower, rat 2, top)).coefAt 0 = 1 :=
      rfl
    have hbalance := hy.balance _ (h.variableAt.isValid h.sound.named.wf)
    rw [h.sound.sum_coefficients hnumeric h.variableAt, hrowCount, sum_range_one, hrow, hbounds,
      Problem.rowAt_of_getElem h.rowAt.row, hcoef] at hbalance
    simpa using hbalance
  · have hfloor : ∀ q, w.model.boundIn (fenceIndex (.greaterThan (rat 2))) q = rat 2 :=
      h.sound.boundIn_row h.rowAt
    have hroof : ∀ q, w.model.boundIn crampedBound q = rat 1 :=
      h.sound.boundIn_single h.variableAt (List.mem_singleton_self _)
    have hpositive := hy.positive
    rw [h.sound.sum_bounding, hrowCount, hcolumnCount, sum_range_one, sum_range_one, hrow, hbounds,
      hfloor] at hpositive
    simpa [hroof, value] using hpositive

end SolvedCramped

/-- The row of `cramped` has the dual of a certificate. The bound has a part of it too, but reads
zero. Nothing satisfies `cramped`. -/
theorem optimize_certifies_rows_cramped : ∃ w y,
    Solving.optimize Host.violating none 20 ⟨⟨(), #[]⟩, cramped⟩ = .ok () w ∧
      w.model.IsCertificate y ∧ y (fenceIndex (.greaterThan (rat 2))) = 1 ∧ y crampedBound = -1 ∧
      w.model.constraintDual (.constraint (fenceIndex (.greaterThan (rat 2)))) = .ok (rat 1) ∧
      w.model.constraintDual (.constraint crampedBound) = .ok 0 ∧
      ∀ z, ¬w.model.Satisfied z := by
  obtain ⟨w, h⟩ := exists_solvedCramped
  obtain ⟨⟨y, hy, hduals⟩, hnone⟩ := optimize_certifies_rows Host.violating_isExact
    Host.violating_hasMarginals cramped_reachable cramped_rational (List.cons_ne_nil _ _)
    cramped_uncrossed h.run h.dualStatus h.numeric
  have hrow := hduals _ h.mem_bounding.1
  rw [h.constraintDual_row] at hrow
  have hone : 1 = y (fenceIndex (.greaterThan (rat 2))) := (rat_inj _ _).1 (Except.ok.inj hrow)
  have hsum := (h.multipliers hy).1
  exact ⟨w, y, h.run, hy, hone.symm, by linarith, h.constraintDual_row, h.constraintDual_bound,
    hnone⟩

/-- Not always are the duals that are reported a certificate. -/
theorem not_forall_duals_certify : ¬∀ (host : Host Extended Unit) (m : Model Extended)
    (session : Session Extended Unit) (w : Workbench Extended Unit), host.IsExact →
      host.HasMarginals → m.Reachable → m.Rational → m.problem.columns ≠ [] →
      (∀ c ∈ m.problem.columns, c.lower ≤ c.upper) →
      Solving.optimize host none 20 ⟨session, m⟩ = .ok () w →
      w.model.dualStatus = .ok .certificate → w.model.HasNumericCertificate →
      ∃ y, w.model.IsCertificate y ∧
        ∀ c ∈ w.model.bounding, w.model.constraintDual (.constraint c) = .ok (rat (y c)) := by
  intro hall
  obtain ⟨w, h⟩ := exists_solvedCramped
  obtain ⟨y, hy, hduals⟩ := hall Host.violating cramped ⟨(), #[]⟩ w Host.violating_isExact
    Host.violating_hasMarginals cramped_reachable cramped_rational (List.cons_ne_nil _ _)
    cramped_uncrossed h.run h.dualStatus h.numeric
  have hbound := hduals _ h.mem_bounding.2
  rw [h.constraintDual_bound] at hbound
  have hzero : 0 = y crampedBound := (rat_inj _ _).1 (Except.ok.inj hbound)
  obtain ⟨hsum, hpositive⟩ := h.multipliers hy
  linarith

/-! ### Certificates of rows -/

/-- With an exact solver that gives marginals, for columns and rows of any kind without crossed
bounds: numbers are found just when the least violation of the rows is more than the tolerance. They
have the signs of their rows, and between the bounds of the columns they keep the rows together
below their bounds, so no point there satisfies them all. Whatever is found, the model is left as it
was. -/
theorem infeasibilityRay_separates {σ : Type} {host : Host Extended σ} (hexact : host.IsExact)
    (hmarginals : host.HasMarginals) {w : Workbench Extended σ} (hp : w.model.problem.Tidy)
    (hanswers : ∀ s, ∃ a, (host.solve
      ⟨w.model.problem.violationProblem.linearProgram, .simplex, {}⟩ s).1 = .ok a) :
    Runs (Solving.ofTask (infeasibilityRay host w.model.problem)) w
      (fun ys w' => w'.model = w.model ∧ ∃ v, w.model.problem.Certified v ys) fun _ => False :=
  ((Solving.ofTask_runs (infeasibilityRay_certifies hexact hmarginals hp hanswers w.session)).imp
    fun _ _ h => h.symm).weaken fun _ h => h.1

theorem cramped_tidy : cramped.problem.Tidy where
  proper c hc := cramped_reachable.sound.proper_column hc
  columns := cramped_uncrossed
  rational := cramped_rational.rows
  placed r hr := by
    cases List.mem_singleton.1 hr
    exact ⟨List.nodup_singleton _, by decide +kernel⟩
  rows r hr := by
    cases List.mem_singleton.1 hr
    exact rat_le_top 2

theorem cramped_asks : cramped.problem.violationProblem.linearProgram = leastViolation :=
  @of_decide_eq_true _ (LinearProgram.decEq _ _) (by decide +kernel)

theorem cramped_violation (x : ℕ → ℚ) : cramped.problem.violation x = max 0 (2 - x 0) := by
  have hsum : cramped.problem.violation x = max 0 (2 - (1 * x 0 + 0)) + 0 + 0 := rfl
  rw [hsum, one_mul, add_zero, add_zero, add_zero]

/-- The row of `cramped` lacks one at least, so it gets a multiplier. -/
theorem infeasibilityRay_separates_cramped :
    Runs (Solving.ofTask (infeasibilityRay Host.violating cramped.problem)) ⟨⟨(), #[]⟩, cramped⟩
      (fun ys w' => w'.model = cramped ∧
        ∃ y, ys = firstValues 1 y ∧ cramped.problem.Separates y) fun _ => False := by
  refine (infeasibilityRay_separates Host.violating_isExact Host.violating_hasMarginals
    (w := ⟨⟨(), #[]⟩, cramped⟩) cramped_tidy fun s =>
      ⟨violated, Host.knowing_solve cramped_asks⟩).imp ?_
  rintro ys w' ⟨hw', v, hcertified⟩
  obtain ⟨x, hx, rfl⟩ := hcertified.least.1
  have hroof : x 0 ≤ 1 := (rat_le_rat _ _).1 (hx 0 _ rfl).2
  have hlack : 1 ≤ cramped.problem.violation x := by
    rw [cramped_violation]
    exact le_max_of_le_right (by linarith)
  obtain ⟨y, hys, hy, -⟩ := hcertified.multipliers (lt_of_lt_of_le (by norm_num) hlack)
  exact ⟨hw', y, hys, hy⟩

end MixedInteger
