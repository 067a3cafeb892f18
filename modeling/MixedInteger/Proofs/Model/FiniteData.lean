import MixedInteger.Proofs.Model.CrossedBounds
import MixedInteger.Proofs.Model.Questions
import MixedInteger.Proofs.Search.Recording

/-! What numbers the solver is asked about. In a model with finite coefficients, whose rows lie in
sets that are finite or infinite on their own side, all costs, coefficients and right-hand sides of
equations of every question are finite, and right-hand sides of inequalities are finite or
infinite on their own side. The latter are only those of rows that lie in an infinite set, for a row
becomes an inequality whatever its set. Without such rows every question is about finite numbers,
so a solver that refuses others alone never refuses. -/

namespace MixedInteger

open Scalar ValuedScalar

/-! ### Finite numbers -/

def IsFinite (x : Float) : Prop := isFinite x = true

/-- A bound from above, which may be infinite. -/
def IsCeiling (x : Float) : Prop := IsFinite x ∨ x = infinity

namespace IsFinite

theorem zero : IsFinite 0 := isFinite_zero (α := Float)

theorem one : IsFinite 1 := by
  unfold IsFinite
  decide

theorem neg {x : Float} (h : IsFinite x) : IsFinite (-x) := isFinite_neg h

theorem ne_infinity {x : Float} (h : IsFinite x) : x ≠ infinity := by
  rintro rfl
  revert h
  unfold IsFinite
  decide

end IsFinite

theorem neg_neg_infinity : -(-infinity) = (infinity : Float) := by decide

/-! ### Programs and problems -/

/-- Costs, coefficients and right-hand sides of equations are finite, and right-hand sides of
inequalities have `U`. -/
structure LinearProgram.Numeric (U : Float → Prop) (lp : LinearProgram Float) : Prop where
  cost : ∀ x ∈ lp.cost, IsFinite x
  ubMatrix : ∀ xs ∈ lp.ubMatrix.getD [], ∀ x ∈ xs, IsFinite x
  ubBound : ∀ x ∈ lp.ubBound.getD [], U x
  eqMatrix : ∀ xs ∈ lp.eqMatrix.getD [], ∀ x ∈ xs, IsFinite x
  eqBound : ∀ x ∈ lp.eqBound.getD [], IsFinite x

/-- Coefficients are finite, and the sides that count have `U` in the inequalities of the row. -/
structure Row.Numeric (U : Float → Prop) (r : Row Float) : Prop where
  coefs : ∀ e ∈ r.coefs, IsFinite e.2
  upper : r.bound.hasUpper = true → r.bound ≠ .fixed → U r.upper
  lower : r.bound.hasLower = true → r.bound ≠ .fixed → U (-r.lower)
  fixed : r.bound = .fixed → IsFinite r.lower

structure Problem.Numeric (U : Float → Prop) (p : Problem Float) : Prop where
  cost : ∀ c ∈ p.columns, IsFinite c.cost
  rows : ∀ r ∈ p.rows, r.Numeric U

section
variable {U : Float → Prop}

theorem Row.Numeric.dense {r : Row Float} (h : r.Numeric U) (n : ℕ) :
    ∀ x ∈ r.dense n, IsFinite x := by
  intro x hx
  obtain ⟨j, -, rfl⟩ := List.mem_map.1 hx
  unfold Row.coef
  cases hlookup : r.coefs.lookup (j + 1) with
  | none =>
    rw [Option.getD_none]
    exact IsFinite.zero
  | some v =>
    obtain ⟨before, rest, heq, -⟩ := List.lookup_eq_some_iff.1 hlookup
    rw [Option.getD_some]
    exact h.coefs (j + 1, v) (by simp [heq])

theorem Row.Numeric.inequalities {r : Row Float} (h : r.Numeric U) (i n : ℕ)
    {e : Inequality Float} (he : e ∈ r.inequalities i (r.dense n)) :
    (∀ x ∈ e.coefs, IsFinite x) ∧ U e.bound := by
  have hdense := h.dense n
  have hnegated : ∀ x ∈ negated (r.dense n), IsFinite x := by
    intro x hx
    obtain ⟨y, hy, rfl⟩ := List.mem_map.1 hx
    exact (hdense y hy).neg
  have hupper := h.upper
  have hlower := h.lower
  unfold Row.inequalities at he
  cases hb : r.bound <;> rw [hb] at he hupper hlower <;>
    simp only [List.not_mem_nil, List.mem_cons, or_false] at he
  · subst he
    exact ⟨hnegated, hlower rfl (by decide)⟩
  · subst he
    exact ⟨hdense, hupper rfl (by decide)⟩
  · obtain rfl | rfl := he
    · exact ⟨hdense, hupper rfl (by decide)⟩
    · exact ⟨hnegated, hlower rfl (by decide)⟩

namespace Problem.Numeric

variable {p q : Problem Float} (h : p.Numeric U)
include h

theorem linearProgram : p.linearProgram.Numeric U := by
  have hrow : ∀ e ∈ p.numberedRows, e.2.Numeric U := fun e he => h.rows _ (List.of_mem_zip he).2
  have hinequality : ∀ e ∈ p.inequalities, (∀ x ∈ e.coefs, IsFinite x) ∧ U e.bound := by
    intro e he
    obtain ⟨f, hf, he⟩ := List.mem_flatMap.1 he
    exact (hrow f hf).inequalities _ _ he
  have hequality : ∀ e ∈ p.equalities, (∀ x ∈ e.2.dense p.columnCount, IsFinite x) ∧
      IsFinite e.2.lower := by
    intro e he
    obtain ⟨he, hfixed⟩ := List.mem_filter.1 he
    exact ⟨(hrow e he).dense _, (hrow e he).fixed (of_decide_eq_true hfixed)⟩
  constructor <;> simp only [Problem.linearProgram, getD_someUnlessEmpty, List.forall_mem_map]
  · intro c hc
    unfold Problem.sense
    split_ifs
    · exact DoubleValue.isFinite_neg_one_mul (h.cost c hc)
    · exact DoubleValue.isFinite_one_mul (h.cost c hc)
  · exact fun e he => (hinequality e he).1
  · exact fun e he => (hinequality e he).2
  · exact fun e he => (hequality e he).1
  · exact fun e he => (hequality e he).2

/-- What is added to measure violations is finite. -/
theorem violationProblem : p.violationProblem.Numeric U where
  cost c hc := by
    rcases List.mem_append.1 hc with hc | hc
    · obtain ⟨c, -, rfl⟩ := List.mem_map.1 hc
      exact IsFinite.zero
    · rw [List.eq_of_mem_replicate hc]
      exact IsFinite.one
  rows r hr := by
    obtain ⟨e, he, rfl⟩ := List.mem_map.1 hr
    have hrow := h.rows _ (List.of_mem_zip he).2
    dsimp only
    split
    · exact hrow
    · refine ⟨fun e he => ?_, hrow.upper, hrow.lower, hrow.fixed⟩
      rcases List.mem_append.1 he with he | he
      · exact hrow.coefs e he
      · simp only [List.mem_cons, List.not_mem_nil, or_false] at he
        rcases he with rfl | rfl
        · exact IsFinite.one
        · exact IsFinite.one.neg

end Problem.Numeric

/-- Every form of a program that is asked about has numbers of the same sort. -/
theorem Problem.regime_numeric (hzero : U 0) :
    Problem.Regime (Problem.Numeric U) (LinearProgram.Numeric U) where
  congr h hrows hcosts := by
    refine ⟨fun c hc => ?_, fun r hr => h.rows r (hrows ▸ hr)⟩
    have hcost := List.mem_map_of_mem (f := (·.cost)) hc
    rw [hcosts] at hcost
    obtain ⟨c', hc', hcost⟩ := List.mem_map.1 hcost
    exact hcost ▸ h.cost c' hc'
  program h := h.linearProgram
  costless h := { h.linearProgram with
    cost := fun x hx => by
      obtain ⟨_, -, rfl⟩ := List.mem_map.1 hx
      exact IsFinite.zero }
  recession {p} h := { h.linearProgram with
    ubBound := fun x hx => by
      change x ∈ (p.linearProgram.ubBound.map _).getD [] at hx
      cases hb : p.linearProgram.ubBound with
      | none =>
        rw [hb] at hx
        cases hx
      | some bs =>
        rw [hb] at hx
        obtain ⟨_, -, rfl⟩ := List.mem_map.1 hx
        exact hzero
    eqBound := fun x hx => by
      change x ∈ (p.linearProgram.eqBound.map _).getD [] at hx
      cases hb : p.linearProgram.eqBound with
      | none =>
        rw [hb] at hx
        cases hx
      | some bs =>
        rw [hb] at hx
        obtain ⟨_, -, rfl⟩ := List.mem_map.1 hx
        exact IsFinite.zero }
  violation h := h.violationProblem.linearProgram

end

/-! ### Models -/

namespace ScalarSet

/-- The value of a row's set is finite, or infinite on its own side. -/
def Sided : ScalarSet Float → Prop
  | lessThan u => IsFinite u ∨ u = infinity
  | greaterThan l => IsFinite l ∨ l = -infinity
  | equalTo v => IsFinite v
  | _ => True

/-- The value of a row's set is finite. -/
def Finite : ScalarSet Float → Prop
  | lessThan u => IsFinite u
  | greaterThan l => IsFinite l
  | equalTo v => IsFinite v
  | _ => True

/-- The value of a row's set has `U` with the sign that it gets in an inequality. -/
def Within (U : Float → Prop) : ScalarSet Float → Prop
  | lessThan u => U u
  | greaterThan l => U (-l)
  | equalTo v => IsFinite v
  | _ => True

variable {s : ScalarSet Float}

theorem Sided.within (h : s.Sided) : s.Within IsCeiling := by
  cases s with
  | greaterThan l =>
    rcases h with h | rfl
    · exact .inl h.neg
    · exact .inr neg_neg_infinity
  | _ => exact h

theorem Finite.within (h : s.Finite) : s.Within IsFinite := by
  cases s with
  | greaterThan l => exact IsFinite.neg h
  | _ => exact h

/-- Rows in such sets. -/
theorem Within.numeric {U : Float → Prop} (h : s.Within U) {r : Row Float}
    (hr : s.rowBound? = some r.bounds) (hcoefs : ∀ e ∈ r.coefs, IsFinite e.2) : r.Numeric U := by
  obtain ⟨name, bound, lower, upper, coefs⟩ := r
  cases s with
  | lessThan u =>
    cases hr
    exact ⟨hcoefs, fun _ _ => h, (fun hlower => nomatch hlower), fun hfixed => nomatch hfixed⟩
  | greaterThan l =>
    cases hr
    exact ⟨hcoefs, (fun hupper => nomatch hupper), fun _ _ => h, fun hfixed => nomatch hfixed⟩
  | equalTo v =>
    cases hr
    exact ⟨hcoefs, fun _ hne => absurd rfl hne, fun _ hne => absurd rfl hne, fun _ => h⟩
  | _ => cases hr

end ScalarSet

namespace Model

variable {m : Model Float}

/-- Coefficients of the objective and of rows are finite. -/
structure FiniteCoefficients (m : Model Float) : Prop where
  cost : ∀ c ∈ m.problem.columns, IsFinite c.cost
  row : ∀ r ∈ m.problem.rows, ∀ e ∈ r.coefs, IsFinite e.2

/-- The sets of all rows have a property. -/
def RowsIn (m : Model Float) (P : ScalarSet Float → Prop) : Prop :=
  ∀ e ∈ m.affine.entries, P e.2.set

theorem WellFormed.numeric (hm : m.WellFormed) (hcoefs : m.FiniteCoefficients)
    {U : Float → Prop} (hsets : m.RowsIn (·.Within U)) : m.problem.Numeric U where
  cost := hcoefs.cost
  rows r hr := by
    obtain ⟨i, hi⟩ := List.mem_iff_getElem?.1 hr
    have hlt : i < m.affine.entries.length := by
      rw [← hm.rowCount]
      exact (List.getElem?_eq_some_iff.1 hi).1
    have hentry : m.affine.entries[i]? = some m.affine.entries[i] := List.getElem?_eq_getElem hlt
    exact (hsets _ (List.getElem_mem hlt)).numeric (hm.row hentry hi).2 (hcoefs.row r hr)

end Model

/-! ### Solves -/

/-- The solver refuses numbers that are not finite, and no others. -/
def Host.Refuses {σ : Type} (host : Host Float σ) : Prop :=
  ∀ r w, (host.solve r w).1 = .error .nonFinite → ¬r.program.Numeric IsFinite

/-- A callback that asks the solver nothing, does not fail as it does, and leaves problems with
numbers of some sort with such numbers. -/
def Callback.Sober {σ : Type} (call : Callback Float σ) : Prop :=
  ∀ (U : Float → Prop) (W : σ → Prop), U 0 → ∀ d,
    SearchTask.Upholds (fun t => t.problem.Numeric U) W (· ≠ .solver .nonFinite) (call d)

/-- The programs that the solver was asked about. -/
def Recorded.Asked {σ : Type} (w : Recorded Float σ) (lp : LinearProgram Float) : Prop :=
  ∃ r, .asked r ∈ w.log ∧ r.program = lp

theorem CallbackData.terminate_sober {σ : Type} :
    Callback.Sober (CallbackData.terminate (α := Float) (σ := σ)) := by
  intro U W _ d
  have hmodel : SearchTask.Upholds (fun t => t.problem.Numeric U) W (· ≠ .solver .nonFinite)
      (CallbackData.ofExcept d.model? : SearchTask Float σ (Model Float)) := by
    unfold CallbackData.model?
    split_ifs
    · exact .pure _
    · exact Lasts.throw fun h => nomatch h
  exact (SearchTask.Upholds.bind hmodel fun _ => .tree fun t _ => .pure t).bind fun _ =>
    .modifyTree fun _ h => h

theorem innocent_ne_nonFinite : Innocent fun e : Fault Float => e ≠ .solver .nonFinite :=
  fun _ h => h _

theorem Host.recorded_bears {σ : Type} (host : Host Float σ) (U : Float → Prop)
    {F : Fault Float → Prop}
    (hF : ∀ r w refusal, r.program.Numeric U → (host.solve r w).1 = .error refusal →
      F (.solver refusal)) :
    host.recorded.Bears (LinearProgram.Numeric U) (fun w => ∀ lp, w.Asked lp → lp.Numeric U) F := by
  intro r w hr hw
  refine ⟨?_, fun refusal hrefusal => hF r w.world refusal hr hrefusal⟩
  rintro lp ⟨r', hr', rfl⟩
  rcases List.mem_append.1 hr' with hlog | hlast
  · exact hw _ ⟨r', hlog, rfl⟩
  · cases List.mem_singleton.1 hlast
    exact hr

theorem Row.upper_mem_inequalities {r : Row Float} (hr : r.bound = .upper) (i : ℕ)
    (dense : List Float) : ⟨i, 1, dense, r.upper⟩ ∈ r.inequalities i dense := by
  rw [Row.inequalities, hr]
  exact List.mem_singleton_self _

theorem Row.lower_mem_inequalities {r : Row Float} (hr : r.bound = .lower) (i : ℕ)
    (dense : List Float) : ⟨i, -1, negated dense, -r.lower⟩ ∈ r.inequalities i dense := by
  rw [Row.inequalities, hr]
  exact List.mem_singleton_self _

/-- A row in a set with an infinite value makes the program infinite. -/
theorem Model.WellFormed.rowsIn_finite_iff {m : Model Float} (hm : m.WellFormed)
    (hcoefs : m.FiniteCoefficients) (hsets : m.RowsIn ScalarSet.Sided) :
    m.RowsIn ScalarSet.Finite ↔ m.problem.linearProgram.Numeric IsFinite := by
  refine ⟨fun h => (hm.numeric hcoefs fun e he => (h e he).within).linearProgram, ?_⟩
  intro hlp e he
  obtain ⟨i, hi⟩ := List.mem_iff_getElem?.1 he
  obtain ⟨r, hat⟩ := hm.rowAt_of_getElem hi
  have hnumbered : (i + 1, r) ∈ m.problem.numberedRows := by
    refine List.mem_iff_getElem?.2 ⟨i, List.getElem?_zip_eq_some.2 ⟨?_, hat.row⟩⟩
    simp [Problem.rowCount, hat.place_lt]
  have hbound : ∀ q ∈ r.inequalities i (r.dense m.problem.columnCount), IsFinite q.bound := by
    intro q hq
    refine hlp.ubBound _ ?_
    simp only [Problem.linearProgram, getD_someUnlessEmpty]
    exact List.mem_map_of_mem (List.mem_flatMap.2 ⟨_, hnumbered, hq⟩)
  have hsided := hsets e he
  have hset := hat.bounds
  cases hs : e.2.set with
  | lessThan u =>
    simp only [hs, ScalarSet.rowBound?, Row.bounds, Option.some.injEq, Prod.mk.injEq] at hset
    have hu := hbound _ (Row.upper_mem_inequalities hset.1.symm _ _)
    exact hset.2.2 ▸ hu
  | greaterThan l =>
    simp only [hs, ScalarSet.rowBound?, Row.bounds, Option.some.injEq, Prod.mk.injEq] at hset
    have hl := hbound _ (Row.lower_mem_inequalities hset.1.symm _ _)
    rw [hs] at hsided
    refine hsided.resolve_right fun hinfinite => hl.ne_infinity ?_
    rw [← hset.2.1, hinfinite, neg_neg_infinity]
  | equalTo v =>
    rw [hs] at hsided
    exact hsided
  | _ => trivial

/-- Nothing has been asked before. -/
theorem Session.not_asked {σ : Type} (s : Session Float σ) (lp : LinearProgram Float) :
    ¬s.recorded.world.Asked lp := by
  rintro ⟨r, hr, -⟩
  cases hr

section
variable {σ : Type} {host : Host Float σ} {callback : Option (Callback Float (Recorded Float σ))}
  {U : Float → Prop} {F : Fault Float → Prop}

/-- What a solve asks has the numbers that its problem has. -/
theorem optimize_upholds_numeric (hzero : U 0) (hF : Innocent F)
    (hcall : ∀ call, callback = some call → ∀ d, SearchTask.Upholds (fun t => t.problem.Numeric U)
      (fun w => ∀ lp, w.Asked lp → lp.Numeric U) F (call d))
    (hrefuses : ∀ r w refusal, r.program.Numeric U → (host.solve r w).1 = .error refusal →
      F (.solver refusal)) (fuel : ℕ) :
    Solving.Upholds (fun m => m.problem.Numeric U) (fun s => ∀ lp, s.world.Asked lp → lp.Numeric U)
      F (Solving.optimize host.recorded callback fuel) :=
  ((Problem.regime_numeric hzero).sustains (host.recorded_bears _ hrefuses) hF hcall).optimize fuel

variable (hcall : ∀ call, callback = some call → call.Sober) {m : Model Float}
  (hnumeric : m.problem.Numeric U) (fuel : ℕ) (s : Session Float σ)
include hcall hnumeric

theorem optimize_asks_numeric (hzero : U 0) (lp : LinearProgram Float)
    (hlp : (after (Solving.optimize host.recorded callback fuel)
      ⟨s.recorded, m⟩).session.world.Asked lp) : lp.Numeric U := by
  have hupholds : Solving.Upholds (fun m => m.problem.Numeric U)
      (fun s => ∀ lp, s.world.Asked lp → lp.Numeric U) (fun _ => True)
      (Solving.optimize host.recorded callback fuel) := optimize_upholds_numeric hzero
    (fun _ _ => trivial) (fun call hcallback d =>
      Lasts.weaken (hcall call hcallback U _ hzero d) fun _ _ => trivial)
    (fun _ _ _ _ _ => trivial) fuel
  exact hupholds.after_session hnumeric (fun lp hlp => absurd hlp (s.not_asked lp)) lp hlp

end

/-- Questions about finite numbers are not refused. -/
theorem optimize_not_refused {σ : Type} {host : Host Float σ} (hrefuses : host.Refuses)
    {callback : Option (Callback Float (Recorded Float σ))}
    (hcall : ∀ call, callback = some call → call.Sober) {m : Model Float}
    (hnumeric : m.problem.Numeric IsFinite) (fuel : ℕ) (s : Session Float σ)
    {w : Workbench Float (Recorded Float σ)} {e : Fault Float}
    (hrun : Solving.optimize host.recorded callback fuel ⟨s.recorded, m⟩ = .error e w) :
    e ≠ .solver .nonFinite := by
  have hupholds : Solving.Upholds (fun m => m.problem.Numeric IsFinite)
      (fun s => ∀ lp, s.world.Asked lp → lp.Numeric IsFinite) (· ≠ .solver .nonFinite)
      (Solving.optimize host.recorded callback fuel) := optimize_upholds_numeric
    IsFinite.zero innocent_ne_nonFinite
    (fun call hcallback d => hcall call hcallback _ _ IsFinite.zero d)
    (fun r w refusal hr hrefusal heq => hrefuses r w (hrefusal.trans (by cases heq; rfl)) hr) fuel
  exact hupholds.fault hnumeric (fun lp hlp => absurd hlp (s.not_asked lp)) hrun

open Solving in
/-- In a model with finite coefficients whose rows lie in sets that are finite or infinite on their
own side, every program that a solve asks about is finite but for right-hand sides of inequalities
that are infinite. If no row lies in an infinite set there are none of these either, and a solver
that refuses only what is not finite never does so; if one does, the program of the model has
one. -/
theorem optimize_asks_finite {m : Model Float} (h : m.Attained) (hcoefs : m.FiniteCoefficients)
    (hsets : m.RowsIn ScalarSet.Sided) {σ : Type} (host : Host Float σ)
    {callback : Option (Callback Float (Recorded Float σ))}
    (hcall : ∀ call, callback = some call → call.Sober) (fuel : ℕ) (s : Session Float σ) :
    (∀ lp, (after (optimize host.recorded callback fuel) ⟨s.recorded, m⟩).session.world.Asked lp →
      lp.Numeric IsCeiling) ∧
    (m.RowsIn ScalarSet.Finite →
      (∀ lp, (after (optimize host.recorded callback fuel)
        ⟨s.recorded, m⟩).session.world.Asked lp → lp.Numeric IsFinite) ∧
      (host.Refuses → ∀ w, optimize host.recorded callback fuel ⟨s.recorded, m⟩ ≠
        .error (.solver .nonFinite) w)) ∧
    (¬m.RowsIn ScalarSet.Finite → ¬m.problem.linearProgram.Numeric IsFinite) := by
  have hm := h.wellFormed
  have hceiling := hm.numeric hcoefs fun e he => (hsets e he).within
  refine ⟨optimize_asks_numeric hcall hceiling fuel s (.inl IsFinite.zero), fun hfinite => ?_,
    fun hinfinite hlp => hinfinite ((hm.rowsIn_finite_iff hcoefs hsets).2 hlp)⟩
  have hnumeric := hm.numeric hcoefs fun e he => (hfinite e he).within
  exact ⟨optimize_asks_numeric hcall hnumeric fuel s IsFinite.zero,
    fun hrefuses w hrun => optimize_not_refused hrefuses hcall hnumeric fuel s hrun rfl⟩

/-! ### A row without a limit -/

/-- One variable, that is at most infinity. -/
def unlimited : Model Float :=
  freeModel.withRow (.lessThan infinity)
    (({ coefs := [(1, 1)] } : Row Float).within (.upper, -infinity, infinity))

theorem unlimited_attained : unlimited.Attained := by
  have hm := freeModel_attained.wellFormed
  have hinfo : freeModel.vars.get? 1 = some { index := ⟨1⟩, column := 1 } :=
    hm.vars.get?_of_getElem (i := 0) rfl
  have hcall := freeModel_attained.call (fence (.lessThan infinity))
  rwa [hm.after_fence (by decide) hinfo rfl rfl rfl] at hcall

theorem unlimited_coefficients : unlimited.FiniteCoefficients where
  cost c hc := by
    cases List.mem_singleton.1 hc
    exact IsFinite.zero
  row r hr e he := by
    cases List.mem_singleton.1 hr
    cases List.mem_singleton.1 he
    exact IsFinite.one

theorem unlimited_sided : unlimited.RowsIn ScalarSet.Sided := by
  intro e he
  cases List.mem_singleton.1 he
  exact .inr rfl

theorem unlimited_infinite : ¬unlimited.RowsIn ScalarSet.Finite := fun h =>
  IsFinite.ne_infinity (h _ (List.mem_singleton_self _)) rfl

theorem optimize_asks_finite_unlimited :
    (∀ lp, (after (Solving.optimize (Host.barren (σ := Unit)).recorded
      (some fun d => d.terminate) 0) ⟨Session.recorded ⟨(), #[]⟩, unlimited⟩).session.world.Asked lp →
        lp.Numeric IsCeiling) ∧ ¬unlimited.problem.linearProgram.Numeric IsFinite := by
  have hcall : ∀ call : Callback Float (Recorded Float Unit),
      some (fun d => d.terminate) = some call → call.Sober := by
    rintro _ ⟨⟩
    exact CallbackData.terminate_sober
  have hasks := optimize_asks_finite unlimited_attained unlimited_coefficients unlimited_sided
    Host.barren hcall 0 ⟨(), #[]⟩
  exact ⟨hasks.1, hasks.2.2 unlimited_infinite⟩

/-- Questions are not always about finite numbers. -/
theorem not_forall_asks_finite : ¬∀ (host : Host Float Unit) (m : Model Float)
    (s : Session Float Unit) (lp : LinearProgram Float), m.Attained → m.FiniteCoefficients →
      m.RowsIn ScalarSet.Sided →
      (after (Solving.optimize host.recorded none 0) ⟨s.recorded, m⟩).session.world.Asked lp →
      lp.Numeric IsFinite := by
  intro hall
  have hlog : (after (Solving.optimize (Host.barren (σ := Unit)).recorded none 0)
      ⟨Session.recorded ⟨(), #[]⟩, unlimited⟩).session.world.log.any (fun
        | .asked r => (r.program.ubBound.getD []).any fun x => !isFinite x
        | .heard _ => false) = true := by
    decide +kernel
  obtain ⟨r | _, hr, hinfinite⟩ := List.any_eq_true.1 hlog
  · obtain ⟨x, hx, hnot⟩ := List.any_eq_true.1 hinfinite
    have hfinite := (hall Host.barren unlimited ⟨(), #[]⟩ r.program unlimited_attained
      unlimited_coefficients unlimited_sided ⟨r, hr, rfl⟩).ubBound x hx
    rw [hfinite] at hnot
    cases hnot
  · cases hinfinite

end MixedInteger
