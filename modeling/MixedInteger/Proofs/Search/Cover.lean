import MixedInteger.Proofs.Search.Choice
import MixedInteger.Proofs.Search.Node

/-! The cover that a search keeps. Every feasible point lies in the box of an active node, or
the incumbent is as good up to a margin. A node may be dropped when the incumbent makes up for
all points of its box, and the margin survives every change of the incumbent, since what the
tolerance takes off the objective grows no faster than the objective. The root covers all feasible
points, and the two children of a node cover those of the node, as no integer lies between the
floor and the ceiling of a number. -/

namespace MixedInteger

/-! ### Rounding

A column whose value is too far from integers is listed. When none is, the integer columns are
rounded; the point then keeps to the bounds, which are whole, and rows and objective move no more
than the tolerance allows. -/

section
open Extended Finset

namespace Problem

variable (p : Problem Extended) (x : ℕ → ℚ)

/-- The point with its integer columns rounded. -/
def rounded (j : ℕ) : ℚ := if j ∈ p.integers then nearestTo (x j) else x j

/-- No integer column is farther from integers than the tolerance. -/
def NearIntegral (τ : ℚ) : Prop := ∀ j ∈ p.integers, |x j - nearestTo (x j)| ≤ τ

/-- The activity of a row leaves its bounds by no more than `slack`. -/
def RowHoldsUpTo (r : Row Extended) (slack : ℚ) : Prop :=
  r.lower ≤ rat (r.activity p.columnCount x + slack) ∧
    rat (r.activity p.columnCount x - slack) ≤ r.upper

/-- A point within the bounds that is integral where it has to be, and that no row misses by
more than the tolerance times the integer coefficients of the row. -/
structure NearlyFeasible (τ : ℚ) : Prop where
  within : InBox p.columnCount p.rootBox x
  integral : p.Integral x
  rows : ∀ r ∈ p.rows, p.RowHoldsUpTo x r (τ * ∑ j ∈ p.integers, |r.coefAt j|)

variable {p x} {τ : ℚ}

theorem integral_rounded : p.Integral (p.rounded x) := by
  intro j hj
  exact ⟨nearestTo (x j), if_pos hj⟩

/-- Whole bounds of a value are bounds of the integer nearest to it. -/
theorem WholeBounds.nearestTo {lower upper : Extended} (h : WholeBounds lower upper) {q : ℚ}
    (hl : lower ≤ rat q) (hu : rat q ≤ upper) :
    lower ≤ rat (nearestTo q) ∧ rat (nearestTo q) ≤ upper := by
  constructor
  · obtain rfl | ⟨k, rfl⟩ := h.1
    · exact bottom_le_rat _
    · rw [rat_le_rat] at hl ⊢
      have hfloor : k ≤ ⌊q⌋ := Int.le_floor.2 hl
      exact_mod_cast hfloor.trans (floor_le_nearestTo q)
  · obtain rfl | ⟨k, rfl⟩ := h.2
    · exact rat_le_top _
    · rw [rat_le_rat] at hu ⊢
      have hceil : ⌈q⌉ ≤ k := Int.ceil_le.2 hu
      exact_mod_cast (nearestTo_le_ceil q).trans hceil

theorem drift_nonneg (hτ : 0 ≤ τ) : 0 ≤ τ * ∑ j ∈ p.integers, |p.costAt j| :=
  mul_nonneg hτ (sum_nonneg fun _ _ => abs_nonneg _)

variable (hnear : p.NearIntegral x τ)
include hnear

theorem abs_sum_rounded_le (a : ℕ → ℚ) :
    |∑ j ∈ range p.columnCount, a j * p.rounded x j - ∑ j ∈ range p.columnCount, a j * x j| ≤
      τ * ∑ j ∈ p.integers, |a j| := by
  refine abs_sum_sub_le (fun j hj => ?_) fun j hj => if_neg hj
  rw [rounded, if_pos hj, abs_sub_comm]
  exact hnear j hj

theorem abs_valueOf_rounded_le :
    |p.valueOf (p.rounded x) - p.valueOf x| ≤ τ * ∑ j ∈ p.integers, |p.costAt j| := by
  unfold valueOf
  rw [add_sub_add_left_eq_sub]
  exact abs_sum_rounded_le hnear p.costAt

theorem nearlyFeasible_rounded (hp : p.Rational) (hbox : InBox p.columnCount p.rootBox x)
    (hrows : ∀ r ∈ p.rows, r.Holds p.columnCount x) : p.NearlyFeasible (p.rounded x) τ where
  within j hj := by
    unfold rounded
    split_ifs with hint
    · exact WholeBounds.nearestTo (hp.whole_rootBox hint) (hbox j hj).1 (hbox j hj).2
    · exact hbox j hj
  integral := integral_rounded
  rows r hr := by
    have hmove := abs_le.1 (abs_sum_rounded_le hnear r.coefAt)
    obtain ⟨hl, hu⟩ := hrows r hr
    unfold RowHoldsUpTo
    unfold Row.activity at hl hu ⊢
    constructor
    · refine le_trans hl ((rat_le_rat _ _).2 ?_)
      linarith [hmove.1]
    · refine le_trans ((rat_le_rat _ _).2 ?_) hu
      linarith [hmove.2]

end Problem

theorem mapM_eq_ok {ε β γ : Type} {f : β → Except ε γ} {g : β → γ} {xs : List β}
    (h : ∀ x ∈ xs, f x = .ok (g x)) : xs.mapM f = .ok (xs.map g) := by
  induction xs with
  | nil => rfl
  | cons x xs ih =>
    rw [List.mapM_cons, h x List.mem_cons_self,
      ih fun y hy => h y (List.mem_cons_of_mem _ hy)]
    rfl

namespace Problem

/-- A function of columns by number lists the values of a point. -/
theorem map_numberedColumns {q : Problem Extended} {g : ℕ × Column Extended → Extended}
    {x : ℕ → ℚ} (hg : ∀ j c, q.columns[j]? = some c → g (j + 1, c) = rat (x j)) :
    q.numberedColumns.map g = firstValues q.columnCount x := by
  refine List.ext_getElem (by simp [numberedColumns, columnCount]) fun j hj hj' => ?_
  rw [length_firstValues] at hj'
  have hc : q.columns[j]? = some q.columns[j] := List.getElem?_eq_getElem hj'
  simp only [numberedColumns, firstValues, List.getElem_map, List.getElem_zip,
    List.getElem_range]
  exact hg j _ hc

end Problem

namespace Tree

variable {t : Tree Extended} {x : ℕ → ℚ}
  (hpoint : t.problem.basic.colPrimal = firstValues t.problem.columnCount x)
include hpoint

theorem valueAt_colPrimal {j : ℕ} {c : Column Extended} (hc : t.problem.columns[j]? = some c) :
    valueAt t.problem.basic.colPrimal ((j + 1 : ℕ) : ℤ) = rat (x j) := by
  rw [hpoint]
  exact valueAt_firstValues (List.getElem?_eq_some_iff.1 hc).1 x

theorem roundedPoint_eq : t.roundedPoint =
    .ok (firstValues t.problem.columnCount (t.problem.rounded x)) := by
  rw [← Problem.map_numberedColumns (g := fun e => rat (t.problem.rounded x (e.1 - 1)))
    fun j c _ => rfl]
  refine mapM_eq_ok fun e he => ?_
  obtain ⟨j, c, hc, rfl⟩ := Problem.mem_numberedColumns.1 he
  simp only [valueAt_colPrimal hpoint hc, Nat.add_sub_cancel, Problem.rounded]
  by_cases hk : c.kind = .integer
  · rw [if_pos hk, if_pos (Problem.mem_integers.2 ⟨c, hc, hk⟩), nearest_rat]
  · have hnot : j ∉ t.problem.integers := by
      intro hj
      obtain ⟨d, hd, hkd⟩ := Problem.mem_integers.1 hj
      rw [hc, Option.some.injEq] at hd
      exact hk (hd ▸ hkd)
    rw [if_neg hk, if_neg hnot]

/-- The columns that are listed are those too far from integers. -/
theorem fractional_eq {τ : ℚ} (hτ : t.params.integerTolerance = rat τ) :
    ∃ fs, t.fractional = .ok fs ∧ ∀ f, f ∈ fs ↔
      ∃ j ∈ t.problem.integers, f = ⟨j + 1, rat (x j)⟩ ∧ τ < |x j - nearestTo (x j)| := by
  let found (e : ℕ × Column Extended) : Option (Fraction Extended) :=
    if τ < |x (e.1 - 1) - nearestTo (x (e.1 - 1))| then some ⟨e.1, rat (x (e.1 - 1))⟩ else none
  refine ⟨((t.problem.numberedColumns.filter fun e => e.2.kind = .integer).map found).filterMap id,
    ?_, fun f => ?_⟩
  · unfold fractional
    refine except_bind_eq_ok.2 ⟨_, mapM_eq_ok (g := found) fun e he => ?_, rfl⟩
    obtain ⟨j, c, hc, rfl⟩ := Problem.mem_numberedColumns.1 (List.mem_filter.1 he).1
    simp only [valueAt_colPrimal hpoint hc, nearest_rat, hτ, found]
    simp
  · rw [List.filterMap_map, List.mem_filterMap]
    constructor
    · rintro ⟨e, he, hf⟩
      obtain ⟨he, hk⟩ := List.mem_filter.1 he
      obtain ⟨j, c, hc, rfl⟩ := Problem.mem_numberedColumns.1 he
      simp only [Function.comp_apply, id, found] at hf
      split_ifs at hf with hfar
      cases hf
      exact ⟨j, Problem.mem_integers.2 ⟨c, hc, by simpa using hk⟩, rfl, hfar⟩
    · rintro ⟨j, hj, rfl, hfar⟩
      obtain ⟨c, hc, hk⟩ := Problem.mem_integers.1 hj
      refine ⟨(j + 1, c), ?_, if_pos hfar⟩
      exact List.mem_filter.2 ⟨Problem.mem_numberedColumns.2 ⟨j, c, hc, rfl⟩, by simpa using hk⟩

/-- The rounded point is kept when there is nothing yet, or only something worse. -/
theorem candidate_eq (hq : t.problem.Rational) :
    (t.candidate = .ok (some ⟨rat (t.problem.valueOf (t.problem.rounded x)),
        firstValues t.problem.columnCount (t.problem.rounded x)⟩) ∧
      ∀ i, t.incumbent = some i →
        ¬t.sense * i.objective ≤ t.sense * rat (t.problem.valueOf (t.problem.rounded x))) ∨
    t.candidate = .ok none ∧ ∃ i, t.incumbent = some i ∧
      t.sense * i.objective ≤ t.sense * rat (t.problem.valueOf (t.problem.rounded x)) := by
  unfold candidate
  simp only [roundedPoint_eq hpoint, bind_ok, Problem.objectiveAt_firstValues hq]
  cases t.incumbent with
  | none => exact .inl ⟨rfl, fun i hi => by cases hi⟩
  | some i =>
    by_cases hle : t.sense * i.objective ≤
        t.sense * rat (t.problem.valueOf (t.problem.rounded x))
    · exact .inr ⟨by simp [hle], i, rfl, hle⟩
    · refine .inl ⟨by simp [hle], fun i' hi' => ?_⟩
      cases hi'
      exact hle

end Tree

end

/-! ### Covers -/

section

open Extended Finset

/-- What a search is after: a point that is nearly best or any point, the tolerances, how far
rounding moves the objective of a point at most, and what holds of the point of every incumbent. -/
structure Aim where
  /-- No point is to be much better than the one that is found. -/
  Ranks : Prop
  integer : ℚ
  objective : ℚ
  gap : Extended
  shift : ℚ
  Kept : (ℕ → ℚ) → Prop
  objective_nonneg : 0 ≤ objective
  objective_le_one : objective ≤ 1
  shift_nonneg : 0 ≤ shift

namespace Aim

variable (aim : Aim)

/-- By how much a feasible point may be better than an incumbent with objective `o`. -/
def margin (o : ℚ) : ℚ := max (aim.objective * (1 + |o|)) aim.shift

end Aim

namespace Problem

variable (p : Problem Extended) (aim : Aim)

/-- Where points are ranked, this one is not better than `o` by more than the margin. -/
def Dominated (o : ℚ) (z : ℕ → ℚ) : Prop :=
  aim.Ranks → p.sign * o ≤ p.sign * p.valueOf z + aim.margin o

/-- An incumbent is a point worth keeping, with its objective. -/
def IsIncumbent (i : Incumbent Extended) : Prop :=
  ∃ x, i = ⟨rat (p.valueOf x), firstValues p.columnCount x⟩ ∧ aim.Kept x

variable {p aim}

/-- A better incumbent dominates what a worse one does. -/
theorem Dominated.mono {o o' : ℚ} {z : ℕ → ℚ} (h : p.Dominated aim o z)
    (ho : p.sign * o' ≤ p.sign * o) : p.Dominated aim o' z := by
  intro hranks
  replace h := h hranks
  unfold Aim.margin at h ⊢
  rw [← sub_le_iff_le_add'] at h ⊢
  rcases le_max_iff.1 h with htol | hint
  · refine le_max_of_le_left ?_
    have habs : |o| - |o'| ≤ p.sign * o - p.sign * o' := by
      rw [← abs_sign_mul o (p := p), ← abs_sign_mul o' (p := p)]
      refine (abs_sub_abs_le_abs_sub _ _).trans_eq (abs_of_nonneg ?_)
      linarith
    have hscaled : aim.objective * (|o| - |o'|) ≤ p.sign * o - p.sign * o' :=
      calc aim.objective * (|o| - |o'|) ≤ aim.objective * (p.sign * o - p.sign * o') :=
            mul_le_mul_of_nonneg_left habs aim.objective_nonneg
        _ ≤ 1 * (p.sign * o - p.sign * o') :=
            mul_le_mul_of_nonneg_right aim.objective_le_one (by linarith)
        _ = p.sign * o - p.sign * o' := one_mul _
    linarith
  · exact le_max_of_le_right (by linarith)

end Problem

/-- A node whose bound is one for the points of the relaxation in its box. -/
structure Node.Sound (p : Problem Extended) (n : Node Extended) : Prop extends Node.Valid p n where
  proper : p.sense * n.bound = bottom ∨ (p.sense * n.bound).IsRat
  below : ∀ z, p.Relaxed z → InBox p.columnCount (n.box p) z →
    p.sense * n.bound ≤ rat (p.sign * p.valueOf z)

namespace Tree

variable (p : Problem Extended) (aim : Aim) (t : Tree Extended)

/-- The problem with the rows that the search has by now. -/
def base : Problem Extended := t.original.withRows t.problem.rows

/-- The tree searches the problem with these tolerances; where points are not ranked the tolerance
for objectives may be anything. -/
structure Fits : Prop where
  base : t.base = p
  integerTolerance : t.params.integerTolerance = rat aim.integer
  objectiveTolerance : aim.Ranks → t.params.objectiveTolerance = rat aim.objective
  gap : t.params.gap = aim.gap
  works : t.Works p

/-- The incumbent makes up for the point. -/
def Dominates (z : ℕ → ℚ) : Prop :=
  ∃ i, t.incumbent = some i ∧ p.Dominated aim i.objective.value z

/-- Some active node has the point in its box. -/
def Covers (z : ℕ → ℚ) : Prop := ∃ n ∈ t.active, InBox p.columnCount (n.box p) z

/-- The invariant of a search: active nodes are sound and known by their numbers, and every
feasible point that is not among the `missing` ones is covered or dominated. -/
structure Sound (missing : Set (ℕ → ℚ)) : Prop extends Fits p aim t where
  fresh : ∀ n ∈ t.active, n.number < t.nextNumber
  unique : ∀ n ∈ t.active, ∀ m ∈ t.active, n.number = m.number → n = m
  nodes : ∀ n ∈ t.active, n.Sound p
  incumbent : ∀ i, t.incumbent = some i → p.IsIncumbent aim i
  cover : ∀ z, p.Feasible z → z ∉ missing → t.Covers p z ∨ t.Dominates p aim z

/-- A tree without what its soundness does not depend on. -/
def core : Tree Extended :=
  { t with
    current := none
    stopped := false
    began := 0
    rootBound := 0
    rootInfeasibility := 0
    histories := []
    reason := none
    solved := 0 }

variable {p aim t} {missing : Set (ℕ → ℚ)}

theorem Fits.sense_eq (h : t.Fits p aim) : t.sense = p.sense := by
  rw [← h.base]
  rfl

theorem Fits.rows_eq (h : t.Fits p aim) : t.problem.rows = p.rows := by
  rw [← h.base]
  rfl

/-- Whether a tree fits is told by these parts. -/
theorem Fits.of_parts {t' : Tree Extended} (h : t.Fits p aim)
    (heq : (t'.original, t'.params, t'.rootBounds, t'.touched, t'.problem) =
      (t.original, t.params, t.rootBounds, t.touched, t.problem)) : t'.Fits p aim := by
  simp only [Prod.mk.injEq] at heq
  obtain ⟨horiginal, hparams, hroot, htouched, hproblem⟩ := heq
  refine ⟨?_, hparams ▸ h.integerTolerance, fun hranks => hparams ▸ h.objectiveTolerance hranks,
    hparams ▸ h.gap, hroot ▸ h.works.rootBounds, htouched ▸ h.works.touched, ?_⟩
  · rw [← h.base, Tree.base, horiginal, hproblem]
    rfl
  · rw [hproblem, htouched]
    exact h.works.boxed

theorem sound_core : t.core.Sound p aim missing ↔ t.Sound p aim missing := by
  constructor
  · exact fun h => ⟨h.toFits.of_parts rfl, h.fresh, h.unique, h.nodes, h.incumbent, h.cover⟩
  · exact fun h => ⟨h.toFits.of_parts rfl, h.fresh, h.unique, h.nodes, h.incumbent, h.cover⟩

theorem Sound.congr {t' : Tree Extended} (h : t.Sound p aim missing) (heq : t'.core = t.core) :
    t'.Sound p aim missing := by
  rw [← sound_core, heq]
  exact sound_core.2 h

/-- Another working problem whose bounds fit. -/
theorem Fits.withProblem (h : t.Fits p aim) {q : Problem Extended} {touched : List ℕ}
    (htouched : ∀ i ∈ touched, ∃ j ∈ p.integers, i = j + 1)
    (hq : ∃ box, q.Boxed p box ∧ ∀ j, j + 1 ∉ touched → box j = p.rootBox j) :
    Fits p aim { t with problem := q, touched := touched } where
  base := by
    obtain ⟨box, hbox, -⟩ := hq
    change t.original.withRows q.rows = p
    rw [hbox.rows, ← h.rows_eq]
    exact h.base
  integerTolerance := h.integerTolerance
  objectiveTolerance := h.objectiveTolerance
  gap := h.gap
  works := ⟨h.works.rootBounds, htouched, hq⟩

namespace Sound

variable (h : t.Sound p aim missing)
include h

theorem withProblem {q : Problem Extended} {touched : List ℕ}
    (htouched : ∀ i ∈ touched, ∃ j ∈ p.integers, i = j + 1)
    (hq : ∃ box, q.Boxed p box ∧ ∀ j, j + 1 ∉ touched → box j = p.rootBox j) :
    Sound p aim { t with problem := q, touched := touched } missing :=
  ⟨h.toFits.withProblem htouched hq, h.fresh, h.unique, h.nodes, h.incumbent, h.cover⟩

/-- Points that turn out to be covered or dominated are not missing. -/
theorem fill {missing' : Set (ℕ → ℚ)}
    (hfill : ∀ z ∈ missing, p.Feasible z → z ∉ missing' → t.Covers p z ∨ t.Dominates p aim z) :
    t.Sound p aim missing' := by
  refine { h with cover := fun z hz hmissing => ?_ }
  by_cases hin : z ∈ missing
  · exact hfill z hin hz hmissing
  · exact h.cover z hz hin

/-! ### Dropping nodes -/

/-- Without a node the points of its box are missing. -/
theorem fathom {n : Node Extended} (hn : n ∈ t.active) :
    (t.fathom n).Sound p aim (missing ∪ {z | InBox p.columnCount (n.box p) z}) where
  toFits := h.toFits.of_parts rfl
  fresh m hm := h.fresh m (List.mem_filter.1 hm).1
  unique a ha b hb := h.unique a (List.mem_filter.1 ha).1 b (List.mem_filter.1 hb).1
  nodes m hm := h.nodes m (List.mem_filter.1 hm).1
  incumbent := h.incumbent
  cover z hz hmissing := by
    rw [Set.mem_union, not_or] at hmissing
    refine (h.cover z hz hmissing.1).imp_left ?_
    rintro ⟨m, hm, hbox⟩
    refine ⟨m, List.mem_filter.2 ⟨hm, ?_⟩, hbox⟩
    rw [bne_iff_ne]
    intro heq
    rw [h.unique m hm n hn heq] at hbox
    exact hmissing.2 hbox

/-- What lies under a bound without hope is dominated. -/
theorem dominates_of_hopeless {bound : Extended} (hhope : t.hopeful bound = false) {z : ℕ → ℚ}
    (hbound : p.sense * bound ≤ rat (p.sign * p.valueOf z)) : t.Dominates p aim z := by
  unfold hopeful at hhope
  cases hi : t.incumbent with
  | none => simp [hi] at hhope
  | some i =>
    obtain ⟨x, rfl, -⟩ := h.incumbent i hi
    refine ⟨_, hi, fun hranks => ?_⟩
    simp only [hi, h.sense_eq, h.objectiveTolerance hranks, Problem.sense_eq, one_eq, abs_rat,
      rat_add_rat, rat_mul_rat, rat_sub_rat, decide_eq_false_iff_not] at hhope
    rw [Problem.sense_eq] at hbound
    have hle := le_of_not_lt hhope hbound
    unfold Aim.margin value
    have hmax := le_max_left (aim.objective * (1 + |p.valueOf x|)) aim.shift
    simp only
    linarith

/-- Nodes without hope are dropped. -/
theorem prune : t.prune.Sound p aim missing where
  toFits := h.toFits.of_parts rfl
  fresh m hm := h.fresh m (List.mem_filter.1 hm).1
  unique a ha b hb := h.unique a (List.mem_filter.1 ha).1 b (List.mem_filter.1 hb).1
  nodes m hm := h.nodes m (List.mem_filter.1 hm).1
  incumbent := h.incumbent
  cover z hz hmissing := by
    rcases h.cover z hz hmissing with ⟨m, hm, hbox⟩ | hdom
    · cases hhope : t.hopeful m.bound with
      | true =>
        refine .inl ⟨m, List.mem_filter.2 ⟨hm, ?_⟩, hbox⟩
        rw [hhope, Bool.or_true]
      | false => exact .inr (h.dominates_of_hopeless hhope ((h.nodes m hm).below z hz.relaxed hbox))
    · exact .inr hdom

/-! ### Bounds and incumbents -/

/-- A node that was solved gets its own bound. -/
theorem settle {n : Node Extended} (hn : n ∈ t.active) {bound : Extended}
    (hproper : p.sense * bound = bottom ∨ (p.sense * bound).IsRat)
    (hbelow : ∀ z, p.Relaxed z → InBox p.columnCount (n.box p) z →
      p.sense * bound ≤ rat (p.sign * p.valueOf z)) :
    (t.settle { n with bound := bound }).Sound p aim missing ∧
      { n with bound := bound } ∈ (t.settle { n with bound := bound }).active := by
  have hmem : ∀ m' ∈ (t.settle { n with bound := bound }).active, ∃ m ∈ t.active,
      m' = if m.number = n.number then { n with bound := bound } else m := by
    intro m' hm'
    obtain ⟨m, hm, rfl⟩ := List.mem_map.1 hm'
    exact ⟨m, hm, rfl⟩
  have hnumber : ∀ m : Node Extended,
      (if m.number = n.number then { n with bound := bound } else m).number = m.number := by
    intro m
    split_ifs with heq
    · exact heq.symm
    · rfl
  constructor
  · refine ⟨h.toFits.of_parts rfl, ?_, ?_, ?_, h.incumbent, fun z hz hmissing => ?_⟩
    · intro m' hm'
      obtain ⟨m, hm, rfl⟩ := hmem m' hm'
      rw [hnumber]
      exact h.fresh m hm
    · intro a' ha' b' hb' heq
      obtain ⟨a, ha, rfl⟩ := hmem a' ha'
      obtain ⟨b, hb, rfl⟩ := hmem b' hb'
      rw [hnumber, hnumber] at heq
      rw [h.unique a ha b hb heq]
    · intro m' hm'
      obtain ⟨m, hm, rfl⟩ := hmem m' hm'
      split_ifs
      · have hvalid := (h.nodes n hn).toValid
        exact ⟨⟨hvalid.columns, hvalid.nodup, hvalid.whole, hvalid.ordered, hvalid.inside⟩, hproper,
          hbelow⟩
      · exact h.nodes m hm
    · refine (h.cover z hz hmissing).imp_left ?_
      rintro ⟨m, hm, hbox⟩
      refine ⟨_, List.mem_map.2 ⟨m, hm, rfl⟩, ?_⟩
      split_ifs with heq
      · rw [h.unique m hm n hn heq] at hbox
        exact hbox
      · exact hbox
  · exact List.mem_map.2 ⟨n, hn, if_pos rfl⟩

/-- A better incumbent. -/
theorem improve {i : Incumbent Extended} (hi : p.IsIncumbent aim i)
    (hbetter : ∀ i', t.incumbent = some i' →
      p.sign * i.objective.value ≤ p.sign * i'.objective.value) :
    Sound p aim { t with incumbent := some i } missing where
  toFits := h.toFits.of_parts rfl
  fresh := h.fresh
  unique := h.unique
  nodes := h.nodes
  incumbent i' hi' := by
    cases hi'
    exact hi
  cover z hz hmissing := by
    refine (h.cover z hz hmissing).imp_right ?_
    rintro ⟨i', hi', hdom⟩
    exact ⟨i, rfl, hdom.mono (hbetter i' hi')⟩

/-! ### New nodes -/

/-- A new node covers what lies in its box. -/
theorem push {m : Node Extended} (hm : m.Sound p) (hnumber : m.number = t.nextNumber) :
    Sound p aim { t with nextNumber := t.nextNumber + 1, active := t.active ++ [m] }
      (missing \ {z | InBox p.columnCount (m.box p) z}) where
  toFits := h.toFits.of_parts rfl
  fresh a ha := by
    rcases List.mem_append.1 ha with ha | ha
    · exact (h.fresh a ha).trans (Nat.lt_succ_self _)
    · rw [List.mem_singleton.1 ha, hnumber]
      exact Nat.lt_succ_self _
  unique a ha b hb heq := by
    rcases List.mem_append.1 ha with ha | ha <;> rcases List.mem_append.1 hb with hb | hb
    · exact h.unique a ha b hb heq
    · have hlt := h.fresh a ha
      rw [heq, List.mem_singleton.1 hb, hnumber] at hlt
      exact absurd hlt (lt_irrefl _)
    · have hlt := h.fresh b hb
      rw [← heq, List.mem_singleton.1 ha, hnumber] at hlt
      exact absurd hlt (lt_irrefl _)
    · rw [List.mem_singleton.1 ha, List.mem_singleton.1 hb]
  nodes a ha := by
    rcases List.mem_append.1 ha with ha | ha
    · exact h.nodes a ha
    · rw [List.mem_singleton.1 ha]
      exact hm
  incumbent := h.incumbent
  cover z hz hmissing := by
    by_cases hbox : InBox p.columnCount (m.box p) z
    · exact .inl ⟨m, List.mem_append_right _ (List.mem_singleton_self m), hbox⟩
    · refine (h.cover z hz fun hin => hmissing ⟨hin, hbox⟩).imp_left ?_
      rintro ⟨a, ha, hin⟩
      exact ⟨a, List.mem_append_left _ ha, hin⟩

end Sound

end Tree

end

section

open Extended Finset

variable {p : Problem Extended} {aim : Aim} {t : Tree Extended}

/-! ### The root -/

theorem Tree.fits_ofProblem {params : Parameter.Search Extended}
    (hint : params.integerTolerance = rat aim.integer)
    (hobj : aim.Ranks → params.objectiveTolerance = rat aim.objective) (hgap : params.gap = aim.gap)
    (now : Extended) :
    (Tree.ofProblem params p now).Fits p aim where
  base := rfl
  integerTolerance := hint
  objectiveTolerance := hobj
  gap := hgap
  works :=
    { rootBounds := rfl
      touched := fun _ hi => nomatch hi
      boxed := ⟨p.rootBox, Problem.Boxed.refl p, fun _ _ => rfl⟩ }

/-- The bound of the root promises everything. -/
theorem Problem.sense_mul_rootBound (p : Problem Extended) :
    p.sense * (-p.sense * Scalar.infinity) = bottom := by
  unfold Problem.sense
  split_ifs <;> rfl

theorem Tree.Fits.plant (h : t.Fits p aim) (hactive : t.active = []) (hincumbent : t.incumbent = none)
    (hbound : t.rootBound = -p.sense * Scalar.infinity) : t.plant.Sound p aim ∅ := by
  have hempty : t.Sound p aim Set.univ :=
    { toFits := h
      fresh := by simp [hactive]
      unique := by simp [hactive]
      nodes := by simp [hactive]
      incumbent := by simp [hincumbent]
      cover := fun z _ hz => absurd (Set.mem_univ z) hz }
  let root : Node Extended :=
    { number := t.nextNumber, level := 0, parent := 0, bound := t.rootBound }
  have hbottom : p.sense * root.bound = bottom := by
    change p.sense * t.rootBound = bottom
    rw [hbound, p.sense_mul_rootBound]
  have hroot : root.Sound p :=
    { toValid := Node.valid_root rfl
      proper := .inl hbottom
      below := fun z _ _ => by
        rw [hbottom]
        exact bottom_le_rat _ }
  refine (hempty.push hroot rfl).fill fun z hz hfeasible _ => absurd ?_ hz.2
  have hbox : root.box p = p.rootBox := funext fun j => Node.box_of_notMem List.not_mem_nil
  change InBox p.columnCount (root.box p) z
  rw [hbox]
  exact (Problem.relaxed_iff.1 hfeasible.relaxed).1

/-! ### Splitting -/

/-- The points in the box of a node that keep to further bounds in one column. -/
def Node.part (n : Node Extended) (p : Problem Extended) (j : ℕ) (b : Extended × Extended) :
    Set (ℕ → ℚ) :=
  {z | InBox p.columnCount (n.box p) z ∧ b.1 ≤ rat (z j) ∧ rat (z j) ≤ b.2}

/-- A child covers its part of the box. -/
theorem Tree.Sound.grow {missing : Set (ℕ → ℚ)} (h : t.Sound p aim missing) {n : Node Extended}
    (hn : n.Sound p) {j : ℕ} (hj : j ∈ p.integers) {d : Decision Extended} (hd : d.column = j + 1)
    {b : Extended × Extended} (hb : Problem.WholeBounds b.1 b.2) (hordered : b.1 ≤ b.2)
    (hinside : ∀ x : ℕ → ℚ, b.1 ≤ rat (x j) → rat (x j) ≤ b.2 →
      (n.box p j).1 ≤ rat (x j) ∧ rat (x j) ≤ (n.box p j).2) (infeasibility : Extended) :
    (t.grow n d b infeasibility).Sound p aim (missing \ n.part p j b) := by
  let child : Node Extended :=
    { number := t.nextNumber
      level := n.level + 1
      parent := n.number
      bound := n.bound
      boxes := (n.boxes.filter fun e => e.1 != d.column) ++ [(d.column, b)]
      infeasibility := infeasibility
      decision := some d }
  have hboxes : child.boxes = (n.boxes.filter fun e => e.1 != j + 1) ++ [(j + 1, b)] := by
    rw [← hd]
  obtain ⟨hvalid, hparent⟩ := Node.valid_child hboxes hn.toValid hj hb hordered hinside
  have hchild : child.Sound p := ⟨hvalid, hn.proper, fun z hz hin => hn.below z hz (hparent z hin)⟩
  refine (h.push hchild rfl).fill fun z hz _ hout => absurd ?_ hz.2
  have hin : z ∈ n.part p j b := by
    by_contra hnot
    exact hout ⟨hz.1, hnot⟩
  change InBox p.columnCount (child.box p) z
  rw [Node.box_child hboxes]
  intro i hi
  by_cases hij : i = j
  · subst hij
    rw [Function.update_self]
    exact hin.2
  · rw [Function.update_of_ne hij]
    exact hin.1 i hi

/-- Whole bounds of a number are bounds of the integers beside it. -/
theorem WholeBounds.le_floor {l u : Extended} (h : Problem.WholeBounds l u) {v : ℚ}
    (hv : l ≤ rat v) : l ≤ rat ⌊v⌋ := by
  obtain rfl | ⟨k, rfl⟩ := h.1
  · exact bottom_le_rat _
  · rw [rat_le_rat] at hv ⊢
    exact_mod_cast Int.le_floor.2 hv

theorem WholeBounds.ceil_le {l u : Extended} (h : Problem.WholeBounds l u) {v : ℚ}
    (hv : rat v ≤ u) : rat ⌈v⌉ ≤ u := by
  obtain rfl | ⟨k, rfl⟩ := h.2
  · exact rat_le_top _
  · rw [rat_le_rat] at hv ⊢
    exact_mod_cast Int.ceil_le.2 hv

section
variable {missing : Set (ℕ → ℚ)} (hp : p.Rational) {n : Node Extended} (hn : n.Sound p) {j : ℕ}
  (hj : j ∈ p.integers) {v : ℚ} (hv : (n.box p j).1 ≤ rat v ∧ rat v ≤ (n.box p j).2)
  {d : Decision Extended}
include hj

include hp hn hv in
theorem Tree.Sound.growDown (h : t.Sound p aim missing)
    (hd : d.column = j + 1) (infeasibility : Extended) :
    (t.grow n d ((n.box p j).1, rat ⌊v⌋) infeasibility).Sound p aim
      (missing \ n.part p j ((n.box p j).1, rat ⌊v⌋)) := by
  have hfloor : rat ⌊v⌋ ≤ rat v := (rat_le_rat _ _).2 (Int.floor_le v)
  have hwhole : Problem.WholeBounds (n.box p j).1 (rat ⌊v⌋) :=
    ⟨(hn.whole_box hp hj).1, .inr ⟨⌊v⌋, rfl⟩⟩
  refine h.grow (b := ((n.box p j).1, rat ⌊v⌋)) hn hj hd hwhole
    (WholeBounds.le_floor (hn.whole_box hp hj) hv.1) (fun x hl hu => ⟨hl, ?_⟩) infeasibility
  exact Extended.le_trans hu (Extended.le_trans hfloor hv.2)

include hp hn hv in
theorem Tree.Sound.growUp (h : t.Sound p aim missing)
    (hd : d.column = j + 1) (infeasibility : Extended) :
    (t.grow n d (rat ⌈v⌉, (n.box p j).2) infeasibility).Sound p aim
      (missing \ n.part p j (rat ⌈v⌉, (n.box p j).2)) := by
  have hceil : rat v ≤ rat ⌈v⌉ := (rat_le_rat _ _).2 (Int.le_ceil v)
  have hwhole : Problem.WholeBounds (rat ⌈v⌉) (n.box p j).2 :=
    ⟨.inr ⟨⌈v⌉, rfl⟩, (hn.whole_box hp hj).2⟩
  refine h.grow (b := (rat ⌈v⌉, (n.box p j).2)) hn hj hd hwhole
    (WholeBounds.ceil_le (hn.whole_box hp hj) hv.2) (fun x hl hu => ⟨?_, hu⟩) infeasibility
  exact Extended.le_trans (Extended.le_trans hv.1 hceil) hl

/-- No integer lies between floor and ceiling. -/
theorem Problem.Feasible.mem_parts {z : ℕ → ℚ} (hz : p.Feasible z)
    (hin : InBox p.columnCount (n.box p) z) (v : ℚ) :
    z ∈ n.part p j ((n.box p j).1, rat ⌊v⌋) ∨ z ∈ n.part p j (rat ⌈v⌉, (n.box p j).2) := by
  obtain ⟨k, hk⟩ := hz.integral j hj
  obtain ⟨hl, hu⟩ := hin j (mem_range.1 (mem_filter.1 hj).1)
  have hceil := Int.ceil_le_floor_add_one v
  by_cases hle : k ≤ ⌊v⌋
  · refine .inl ⟨hin, hl, ?_⟩
    rw [hk, rat_le_rat]
    exact_mod_cast hle
  · refine .inr ⟨hin, ?_, hu⟩
    have hge : ⌈v⌉ ≤ k := by omega
    rw [hk, rat_le_rat]
    exact_mod_cast hge

end

/-- The children of a node cover the feasible points of its box. -/
theorem Tree.Sound.split (h : t.Sound p aim ∅) (hp : p.Rational) {n : Node Extended}
    (hn : n ∈ t.active) {j : ℕ} (hj : j ∈ p.integers) {v : ℚ}
    (hv : (n.box p j).1 ≤ rat v ∧ rat v ≤ (n.box p j).2) (fs : List (Fraction Extended)) :
    (t.split n ⟨j + 1, rat v⟩ fs).Sound p aim ∅ := by
  have hsound := h.nodes n hn
  have hbox : (n.boxes.lookup (j + 1)).getD (t.rootBounds.getD (j + 1 - 1) (0, 0)) = n.box p j := by
    rw [h.works.rootBound_eq]
    rfl
  have hbelow : (⟨j + 1, rat v⟩ : Fraction Extended).below = rat ⌊v⌋ := rfl
  have habove : (⟨j + 1, rat v⟩ : Fraction Extended).above = rat ⌈v⌉ := by
    rw [Fraction.above, ceilInt_rat, ofInt_eq]
  have hmissing : ∀ z ∈ (∅ ∪ {z | InBox p.columnCount (n.box p) z} : Set (ℕ → ℚ)), p.Feasible z →
      z ∈ n.part p j ((n.box p j).1, rat ⌊v⌋) ∨ z ∈ n.part p j (rat ⌈v⌉, (n.box p j).2) := by
    rintro z (hz | hz) hfeasible
    · exact absurd hz (Set.notMem_empty z)
    · exact hfeasible.mem_parts hj hz v
  unfold Tree.split
  simp only [hbox, hbelow, habove]
  split_ifs
  · have hdown := (h.fathom hn).growDown (d := ⟨j + 1, false, rat v - rat ⌊v⌋⟩)
      hp hsound hj hv rfl (infeasibility fs)
    refine (hdown.growUp hp hsound hj hv rfl _).fill fun z hz hfeasible _ => ?_
    rcases hmissing z hz.1.1 hfeasible with hpart | hpart
    · exact absurd hpart hz.1.2
    · exact absurd hpart hz.2
  · have hup := (h.fathom hn).growUp (d := ⟨j + 1, true, rat ⌈v⌉ - rat v⟩)
      hp hsound hj hv rfl (infeasibility fs)
    refine (hup.growDown hp hsound hj hv rfl _).fill fun z hz hfeasible _ => ?_
    rcases hmissing z hz.1.1 hfeasible with hpart | hpart
    · exact absurd hpart hz.2
    · exact absurd hpart hz.1.2

end

end MixedInteger
