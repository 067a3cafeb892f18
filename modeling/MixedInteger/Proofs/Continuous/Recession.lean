import MixedInteger.Proofs.Continuous.Finding
import MixedInteger.Proofs.Problem.Program

/-! Directions of recession. A problem is left for ever along a direction that keeps to every finite
bound of its columns and rows. The question that is asked for such a direction is the program of
another problem, its cone: right-hand sides are zero, rows with two sides become equations in fact,
and columns take at most one step. Its optimum is a direction that improves the objective, or else
there is none that improves it by more than the tolerance. -/

namespace MixedInteger

open Extended Finset

/-! ### Bounds and their kinds -/

/-- Bounds are finite on the sides that their kind uses, and infinite elsewhere. -/
inductive BoundKind.Matches : BoundKind → Extended → Extended → Prop
  | free : Matches .free bottom top
  | lower (l : ℚ) : Matches .lower (rat l) top
  | upper (u : ℚ) : Matches .upper bottom (rat u)
  | double (l u : ℚ) : Matches .double (rat l) (rat u)
  | fixed (q : ℚ) : Matches .fixed (rat q) (rat q)

theorem Row.Rational.matches {r : Row Extended} (h : r.Rational) :
    r.bound.Matches r.lower r.upper := by
  obtain ⟨-, hsides, hlower, hupper⟩ := h
  cases hb : r.bound <;> rw [hb] at hsides hlower hupper <;>
    obtain ⟨hl, hu⟩ := Prod.ext_iff.1 hsides <;> dsimp only [BoundKind.sides] at hl hu
  · rw [← hl, ← hu]
    exact .free
  · rw [← hu, (hlower rfl).eq]
    exact .lower _
  · rw [← hl, (hupper rfl).eq]
    exact .upper _
  · rw [(hlower rfl).eq, (hupper rfl).eq]
    exact .double _ _
  · rw [← hu, (hlower rfl).eq]
    exact .fixed _

/-- What changes at this rate keeps to finite bounds. -/
def KeepsTo (lower upper : Extended) (rate : ℚ) : Prop :=
  (lower.IsRat → 0 ≤ rate) ∧ (upper.IsRat → rate ≤ 0)

namespace BoundKind.Matches

variable {kind : BoundKind} {lower upper : Extended} (h : kind.Matches lower upper) {q : ℚ}
include h

theorem proper : Problem.ProperBounds lower upper := by
  cases h <;> simp [Problem.ProperBounds, isRat_rat]

/-- With sides at zero a bound is one for rates. -/
theorem level_iff : (kind.sides 0 0).1 ≤ rat q ∧ rat q ≤ (kind.sides 0 0).2 ↔
    KeepsTo lower upper q := by
  cases h <;> simp [sides, KeepsTo, isRat_rat, not_isRat_bottom, not_isRat_top, zero_eq,
    infinity_eq, neg_top]

/-- The steps that are asked for are those of rates of at most one. -/
theorem cone_iff : kind.coneBounds.1.getD 0 ≤ rat q ∧ rat q ≤ kind.coneBounds.2.getD 0 ↔
    KeepsTo lower upper q ∧ |q| ≤ 1 := by
  cases h <;> simp [coneBounds, KeepsTo, isRat_rat, not_isRat_bottom, not_isRat_top, zero_eq,
    one_eq, neg_rat, abs_le] <;> grind

end BoundKind.Matches

/-! ### The cone of a problem -/

/-- A row with zero for its finite sides. -/
def Row.level (r : Row Extended) : Row Extended :=
  { r with lower := (r.bound.sides 0 0).1, upper := (r.bound.sides 0 0).2 }

/-- A column with the steps that it may take. -/
def Column.step (c : Column Extended) : Column Extended :=
  { c with lower := c.bound.coneBounds.1.getD 0, upper := c.bound.coneBounds.2.getD 0 }

theorem Row.Rational.level {r : Row Extended} (h : r.Rational) : r.level.Rational where
  coefs := h.coefs
  sides := by
    unfold Row.level
    cases r.bound <;> rfl
  lower hb := by
    unfold Row.level at hb ⊢
    cases hkind : r.bound <;> rw [hkind] at hb <;> first | rfl | cases hb
  upper hb := by
    unfold Row.level at hb ⊢
    cases hkind : r.bound <;> rw [hkind] at hb <;> first | rfl | cases hb

namespace Problem

variable (p : Problem Extended)

/-- The problem of which the points are the steps to take in a direction. -/
def cone : Problem Extended :=
  { p with columns := p.columns.map Column.step, rows := p.rows.map Row.level }

theorem columnCount_cone : p.cone.columnCount = p.columnCount := List.length_map _

theorem numberedRows_cone :
    p.cone.numberedRows = p.numberedRows.map fun e => (e.1, e.2.level) := by
  have hcount : p.cone.rowCount = p.rowCount := List.length_map _
  rw [numberedRows, hcount, cone, List.zip_map_right]
  rfl

theorem inequalities_cone :
    p.cone.inequalities = p.inequalities.map fun e => { e with bound := 0 } := by
  have hzero : -(0 : Extended) = 0 := rfl
  have hrow : ∀ (r : Row Extended) (i : ℕ) (dense : List Extended),
      r.level.inequalities i dense = (r.inequalities i dense).map fun e => { e with bound := 0 } := by
    intro r i dense
    unfold Row.inequalities Row.level
    cases r.bound <;> simp [BoundKind.sides, hzero]
  rw [inequalities, columnCount_cone, numberedRows_cone, List.flatMap_map, inequalities,
    List.map_flatMap]
  exact List.flatMap_congr fun e _ => hrow e.2 _ _

theorem equalities_cone : p.cone.equalities = p.equalities.map fun e => (e.1, e.2.level) := by
  rw [equalities, numberedRows_cone, List.filter_map]
  rfl

/-- The question for a direction is the program of the cone. -/
theorem recessionProgram_eq : p.recessionProgram = p.cone.linearProgram := by
  have hsome : ∀ xs : List Extended,
      (someUnlessEmpty xs).map (fun bs => bs.map fun _ => (0 : Extended)) =
        someUnlessEmpty (xs.map fun _ => 0) := fun xs => by
    cases xs <;> rfl
  have hbounds : p.cone.columns.map (fun c => (finite? c.lower, finite? c.upper)) =
      p.columns.map fun c => c.bound.coneBounds := by
    rw [cone, List.map_map]
    refine List.map_congr_left fun c _ => ?_
    change (finite? (c.bound.coneBounds.1.getD 0), finite? (c.bound.coneBounds.2.getD 0)) = _
    cases c.bound <;> rfl
  have hmatrix : p.cone.matrix = p.matrix := by
    rw [matrix, columnCount_cone, cone, List.map_map]
    rfl
  have hcost : p.cone.columns.map (fun c => p.cone.sense * c.cost) =
      p.columns.map fun c => p.sense * c.cost := by
    rw [cone, List.map_map]
    rfl
  have hfixed : (p.equalities.map fun e => (e.1, e.2.level)).map (fun e => e.2.lower) =
      (p.equalities.map fun e => e.2.lower).map fun _ => (0 : Extended) := by
    rw [List.map_map, List.map_map]
    refine List.map_congr_left fun e he => ?_
    have hbound : e.2.bound = .fixed := by simpa [equalities] using (List.mem_filter.1 he).2
    change (e.2.bound.sides 0 0).1 = 0
    rw [hbound]
    rfl
  unfold recessionProgram linearProgram
  dsimp only
  rw [hbounds, hmatrix, hcost, hsome, hsome, inequalities_cone, equalities_cone, columnCount_cone,
    hfixed]
  simp only [List.map_map]
  rfl

/-- Costs, and what they make of a direction. -/
theorem costAt_cone (j : ℕ) : p.cone.costAt j = p.costAt j := by
  simp only [costAt, cone, List.getElem?_map, Option.map_map]
  rfl

variable {p}

theorem Linear.cone (hp : p.Linear) : p.cone.Linear where
  constant := hp.constant
  cost c hc := by
    obtain ⟨d, hd, rfl⟩ := List.mem_map.1 hc
    exact hp.cost d hd
  proper c hc := by
    obtain ⟨d, -, rfl⟩ := List.mem_map.1 hc
    change ProperBounds (d.bound.coneBounds.1.getD 0) (d.bound.coneBounds.2.getD 0)
    cases d.bound <;> exact ⟨.inr rfl, .inr rfl⟩
  rows r hr := by
    obtain ⟨r', hr', rfl⟩ := List.mem_map.1 hr
    exact (hp.rows r' hr').level

theorem Linear.recessionProgram (hp : p.Linear) : p.recessionProgram.Rational :=
  p.recessionProgram_eq ▸ hp.cone.linearProgram

end Problem

/-! ### Directions -/

namespace Problem

/-- The bounds of columns are of their kinds, and the data are rational. -/
structure Matched (p : Problem Extended) : Prop where
  constant : p.constant.IsRat
  cost : ∀ c ∈ p.columns, c.cost.IsRat
  columns : ∀ c ∈ p.columns, c.bound.Matches c.lower c.upper
  rows : ∀ r ∈ p.rows, r.Rational

theorem Matched.linear {p : Problem Extended} (hp : p.Matched) : p.Linear :=
  ⟨hp.constant, hp.cost, fun c hc => (hp.columns c hc).proper, hp.rows⟩

variable (p : Problem Extended)

/-- What a direction adds to the objective with each step. -/
def slope (d : ℕ → ℚ) : ℚ := ∑ j ∈ range p.columnCount, p.costAt j * d j

/-- Along the direction every finite bound of a column or a row is kept to. -/
structure Recedes (d : ℕ → ℚ) : Prop where
  column : ∀ {j c}, p.columns[j]? = some c → KeepsTo c.lower c.upper (d j)
  row : ∀ r ∈ p.rows, KeepsTo r.lower r.upper (r.activity p.columnCount d)

/-- A direction of steps of at most one that improves the objective for ever. -/
structure Improves (d : ℕ → ℚ) : Prop where
  recedes : p.Recedes d
  small : ∀ j < p.columnCount, |d j| ≤ 1
  falls : p.sign * p.slope d ≤ -(1 / 10 ^ 7)

variable {p} {d x : ℕ → ℚ} {t : ℚ}

/-- The points of the cone are the small steps that recede. -/
theorem Matched.relaxed_cone (hp : p.Matched) :
    p.cone.Relaxed d ↔ p.Recedes d ∧ ∀ j < p.columnCount, |d j| ≤ 1 := by
  have hcolumn : ∀ {j c}, p.columns[j]? = some c →
      (c.step.lower ≤ rat (d j) ∧ rat (d j) ≤ c.step.upper ↔
        KeepsTo c.lower c.upper (d j) ∧ |d j| ≤ 1) :=
    fun {j c} hc => (hp.columns c (List.mem_of_getElem? hc)).cone_iff
  have hrow : ∀ r ∈ p.rows, r.level.Holds p.cone.columnCount d ↔
      KeepsTo r.lower r.upper (r.activity p.columnCount d) := fun r hr => by
    rw [columnCount_cone]
    exact (hp.rows r hr).matches.level_iff
  constructor
  · intro h
    have hsteps : ∀ {j c}, p.columns[j]? = some c → KeepsTo c.lower c.upper (d j) ∧ |d j| ≤ 1 :=
      fun {j c} hc => (hcolumn hc).1 (h.within (by simp [cone, hc]))
    refine ⟨⟨fun hc => (hsteps hc).1, fun r hr => ?_⟩, fun j hj => ?_⟩
    · exact (hrow r hr).1 (h.holds _ (List.mem_map_of_mem hr))
    · exact (hsteps (List.getElem?_eq_getElem hj)).2
  · rintro ⟨hd, hsmall⟩
    refine ⟨fun {j c} hc => ?_, fun r hr => ?_⟩
    · obtain ⟨c', hc', rfl⟩ : ∃ c', p.columns[j]? = some c' ∧ c'.step = c := by
        simpa [cone] using hc
      have hj : j < p.columnCount := (List.getElem?_eq_some_iff.1 hc').1
      exact (hcolumn hc').2 ⟨hd.column hc', hsmall j hj⟩
    · obtain ⟨r', hr', rfl⟩ := List.mem_map.1 hr
      exact (hrow r' hr').2 (hd.row r' hr')

/-- Its cost is what a step adds to the objective, as it is minimised. -/
theorem Linear.dot_cost_cone (hp : p.Linear) : dot p.cone.linearProgram.cost
    (p.cone.linearProgram.values d) = rat (p.sign * p.slope d) := by
  have hsign : p.cone.sign = p.sign := rfl
  have hslope : p.cone.valueOf d - p.cone.constant.value = p.slope d := by
    simp only [valueOf, slope, columnCount_cone, costAt_cone, add_sub_cancel_left]
  rw [hp.cone.dot_cost, hsign, hslope]

theorem valueOf_along : p.valueOf (fun j => x j + t * d j) = p.valueOf x + t * p.slope d := by
  simp only [valueOf, slope, mul_sum, mul_add, sum_add_distrib]
  simp only [mul_left_comm, add_assoc]

end Problem

theorem Row.activity_along (r : Row Extended) (n : ℕ) (x d : ℕ → ℚ) (t : ℚ) :
    r.activity n (fun j => x j + t * d j) = r.activity n x + t * r.activity n d := by
  simp only [Row.activity, mul_sum, mul_add, sum_add_distrib]
  simp only [mul_left_comm]

/-- What keeps to bounds stays between them. -/
theorem KeepsTo.between {lower upper : Extended} {v rate t : ℚ} (h : KeepsTo lower upper rate)
    (hv : lower ≤ rat v ∧ rat v ≤ upper) (ht : 0 ≤ t) :
    lower ≤ rat (v + t * rate) ∧ rat (v + t * rate) ≤ upper := by
  obtain ⟨hlower, hupper⟩ := hv
  constructor
  · cases lower with
    | rat l =>
      rw [rat_le_rat] at hlower ⊢
      exact hlower.trans (le_add_of_nonneg_right (mul_nonneg ht (h.1 rfl)))
    | bottom => exact bottom_le_rat _
    | top => cases hlower
    | nan => cases hlower
  · cases upper with
    | rat u =>
      rw [rat_le_rat] at hupper ⊢
      exact (add_le_of_nonpos_right (mul_nonpos_of_nonneg_of_nonpos ht (h.2 rfl))).trans hupper
    | top => exact rat_le_top _
    | bottom => cases hupper
    | nan => cases hupper

/-- However far one goes in a direction that recedes, one stays in the relaxation. -/
theorem Problem.Recedes.relaxed {p : Problem Extended} {d x : ℕ → ℚ} {t : ℚ} (hd : p.Recedes d)
    (hx : p.Relaxed x) (ht : 0 ≤ t) : p.Relaxed fun j => x j + t * d j where
  within hc := (hd.column hc).between (hx.within hc) ht
  holds r hr := by
    rw [Row.Holds, r.activity_along]
    exact (hd.row r hr).between (hx.holds r hr) ht

/-! ### The question for a direction -/

namespace Problem

variable {p : Problem Extended} {d : ℕ → ℚ}

/-- No step at all is one to take. -/
theorem recedes_zero (p : Problem Extended) : p.Recedes fun _ => 0 where
  column _ := ⟨fun _ => le_rfl, fun _ => le_rfl⟩
  row r _ := by simp [KeepsTo, Row.activity]

/-- Small steps do not improve the objective for ever. -/
theorem neg_sum_le_slope (h : ∀ j < p.columnCount, |d j| ≤ 1) :
    -∑ j ∈ range p.columnCount, |p.costAt j| ≤ p.sign * p.slope d := by
  have hterm : ∀ j ∈ range p.columnCount, |p.costAt j * d j| ≤ |p.costAt j| := by
    intro j hj
    rw [abs_mul]
    exact mul_le_of_le_one_right (abs_nonneg _) (h j (mem_range.1 hj))
  refine neg_le_of_abs_le ?_
  calc |p.sign * p.slope d| = |p.slope d| := abs_sign_mul _
    _ ≤ ∑ j ∈ range p.columnCount, |p.costAt j * d j| := abs_sum_le_sum_abs ..
    _ ≤ ∑ j ∈ range p.columnCount, |p.costAt j| := sum_le_sum hterm

/-- A right answer to the question is a best small step. -/
theorem Matched.exists_of_answers (hp : p.Matched) {a : Answer Extended}
    (ha : p.recessionProgram.Answers a) : a.status = 0 ∧ ∃ r,
      a.point = firstValues p.columnCount r ∧ a.value = rat (p.sign * p.slope r) ∧
      p.Recedes r ∧ (∀ j < p.columnCount, |r j| ≤ 1) ∧
      ∀ d, p.Recedes d → (∀ j < p.columnCount, |d j| ≤ 1) →
        p.sign * p.slope r ≤ p.sign * p.slope d := by
  rw [recessionProgram_eq] at ha
  have hsat : ∀ {d}, p.cone.linearProgram.Satisfied d ↔
      p.Recedes d ∧ ∀ j < p.columnCount, |d j| ≤ 1 := fun {d} => by
    rw [hp.linear.cone.satisfied_iff, hp.relaxed_cone]
  cases ha with
  | @optimum r hstatus hpoint hvalue hr hbest =>
    obtain ⟨hrecedes, hsmall⟩ := hsat.1 hr
    rw [values_linearProgram, columnCount_cone] at hpoint
    rw [hp.linear.dot_cost_cone] at hvalue
    refine ⟨hstatus, r, hpoint, hvalue, hrecedes, hsmall, fun d hd hsmall => ?_⟩
    have hle := hbest d (hsat.2 ⟨hd, hsmall⟩)
    rwa [hp.linear.dot_cost_cone, hp.linear.dot_cost_cone, rat_le_rat] at hle
  | infeasible _ hnone =>
    exact absurd (hsat.2 ⟨p.recedes_zero, fun _ _ => by simp⟩) (hnone fun _ => 0)
  | unbounded _ hfall =>
    obtain ⟨d, hd, hlt⟩ := hfall (-∑ j ∈ range p.columnCount, |p.costAt j|)
    rw [hp.linear.dot_cost_cone, rat_lt_rat] at hlt
    exact absurd (neg_sum_le_slope (hsat.1 hd).2) hlt.not_ge

end Problem

/-- Along such a direction the objective is improved by as much as the tolerance with each step. -/
theorem Problem.Improves.value_along {p : Problem Extended} {d x : ℕ → ℚ} {t : ℚ}
    (hd : p.Improves d) (ht : 0 ≤ t) :
    p.sign * p.valueOf (fun j => x j + t * d j) ≤ p.sign * p.valueOf x - t * (1 / 10 ^ 7) := by
  have hstep := mul_le_mul_of_nonneg_left hd.falls ht
  rw [valueOf_along, mul_add, mul_left_comm]
  linarith

section
variable {σ : Type} {host : Host Extended σ} {p : Problem Extended} (hexact : host.IsExact)
  (hdecides : host.Decides)
include hexact hdecides

theorem unboundedRay_returns (hp : p.Linear) :
    Task.Returns (unboundedRay host p) fun _ => True := by
  unfold unboundedRay
  refine (ask_returns hexact hdecides hp.recessionProgram).bind fun a _ => ?_
  split_ifs
  · exact (Task.Returns.tell _).bind fun _ _ => .pure trivial
  · exact .pure trivial

/-- With an exact solver that answers, and any mix of rows and columns and either direction: if there
is a direction that improves the objective for ever, one is found, and otherwise nothing but values
that are no numbers. From any point of the relaxation and as far as one likes, what is found leads
to points of the relaxation, and the objective is improved with each step. -/
theorem unboundedRay_finds (hp : p.Matched) : Task.Returns (unboundedRay host p) fun ray =>
    ((∃ d, p.Improves d) → ∃ r, ray = firstValues p.columnCount r ∧ p.Improves r ∧
      ∀ x t, p.Relaxed x → 0 ≤ t → p.Relaxed (fun j => x j + t * r j) ∧
        p.sign * p.valueOf (fun j => x j + t * r j) ≤ p.sign * p.valueOf x - t * (1 / 10 ^ 7)) ∧
    ((¬∃ d, p.Improves d) → ray = List.replicate p.columnCount nan) := by
  unfold unboundedRay
  refine (ask_returns hexact hdecides hp.linear.recessionProgram).bind fun a ha => ?_
  obtain ⟨hstatus, r, hpoint, hvalue, hrecedes, hsmall, hbest⟩ := hp.exists_of_answers ha
  have htolerance : -(activeTolerance : Extended) = rat (-(1 / 10 ^ 7)) := by
    have hrat : (activeTolerance : Extended) = rat (1 * 10 ^ (-7 : ℤ)) := rfl
    rw [hrat, neg_rat]
    norm_num
  have htest : (a.status ≠ 0 ∨ -activeTolerance < a.value) ↔
      -(1 / 10 ^ 7) < p.sign * p.slope r := by
    rw [hvalue, htolerance, rat_lt_rat]
    simp [hstatus]
  split_ifs with hnone
  · refine (Task.Returns.tell _).bind fun _ _ => .pure ⟨?_, fun _ => rfl⟩
    rintro ⟨d, hd⟩
    exact absurd (hbest d hd.recedes hd.small) (hd.falls.trans_lt (htest.1 hnone)).not_ge
  · have himproves : p.Improves r := ⟨hrecedes, hsmall, not_lt.1 fun hlt => hnone (htest.2 hlt)⟩
    exact .pure ⟨fun _ => ⟨r, hpoint, himproves, fun x t hx ht =>
      ⟨hrecedes.relaxed hx ht, himproves.value_along ht⟩⟩, fun hno => absurd ⟨r, himproves⟩ hno⟩

end

/-! ### Side by side -/

/-- Two columns that stay within one of each other, to maximise. -/
def climbing : Problem Extended where
  direction := .maximize
  columns := [{ bound := .lower, lower := rat 0, cost := rat 1 }, { cost := rat 1 }]
  rows := [{ bound := .double, lower := rat (-1), upper := rat 1,
             coefs := [(1, rat 1), (2, rat (-1))] }]

theorem climbing_matched : climbing.Matched where
  constant := rfl
  cost := by
    simp only [climbing, List.forall_mem_cons]
    exact ⟨rfl, rfl, by simp⟩
  columns := by
    simp only [climbing, List.forall_mem_cons]
    exact ⟨.lower 0, .free, by simp⟩
  rows := by
    simp only [climbing, List.forall_mem_cons]
    exact ⟨⟨by simp [isRat_rat], rfl, fun _ => rfl, fun _ => rfl⟩, by simp⟩

/-- Both of them may grow. -/
theorem climbing_improves : climbing.Improves fun _ => 1 where
  recedes :=
    { column := fun {j c} hc => by
        rcases j with _ | _ | j <;> cases hc
        · exact ⟨fun _ => zero_le_one, fun h => absurd h not_isRat_top⟩
        · exact ⟨fun h => absurd h not_isRat_bottom, fun h => absurd h not_isRat_top⟩
      row := fun r hr => by
        have hzero : r.activity climbing.columnCount (fun _ => 1) = 0 := by
          cases List.mem_singleton.1 hr
          decide +kernel
        rw [hzero]
        exact ⟨fun _ => le_rfl, fun _ => le_rfl⟩ }
  small := by simp
  falls := by decide +kernel

theorem unboundedRay_finds_climbing :
    Task.Returns (unboundedRay (Host.eliminating (σ := Unit)) climbing) fun ray =>
      ∃ r, ray = firstValues 2 r ∧ climbing.Improves r :=
  (unboundedRay_finds Host.eliminating_isExact Host.eliminating_decides climbing_matched).imp
    fun _ h => (h.1 ⟨_, climbing_improves⟩).imp fun _ hr => ⟨hr.1, hr.2.1⟩

end MixedInteger
