import MixedInteger.Proofs.Problem.Row
import MixedInteger.Proofs.Solver.Answers

/-! The program of a problem describes it. A row gives none, one or two inequalities or one
equation, some of them with their signs changed, and infinite bounds are left out; still the program
has the points of the problem, where rows are summed up over the entries that they store. To
minimise its cost is to optimise the objective in its own direction. Integer columns may have
fractional bounds here: a program knows nothing of integrality. Solvers refuse costs, coefficients
and right-hand sides that are not numbers, so the program that a solver takes is the one of a
problem with rational data, which has the same points. -/

namespace MixedInteger

open Extended Finset

/-! ### Numbers from their negatives -/

theorem Extended.isRat_neg_iff {x : Extended} : (-x).IsRat ↔ x.IsRat := by
  cases x with
  | rat q => exact ⟨fun _ => isRat_rat q, fun _ => isRat_rat (-q)⟩
  | nan => rfl
  | bottom => simp [IsRat, value]
  | top => simp [IsRat, value]

theorem Extended.IsRat.of_sign_mul {p : Problem Extended} {x : Extended}
    (h : (p.sense * x).IsRat) : x.IsRat := by
  have hsign : p.sign < 0 ∨ 0 < p.sign := by
    unfold Problem.sign
    split_ifs <;> norm_num
  rw [Problem.sense_eq] at h
  cases x with
  | rat q => exact isRat_rat q
  | nan => cases h
  | bottom =>
    change (infinite (sign (rat p.sign) * -1)).IsRat at h
    obtain hneg | hpos := hsign
    · simp [sign, hneg, infinite, IsRat] at h
    · simp [sign, hpos, hpos.not_gt, infinite, IsRat] at h
  | top =>
    change (infinite (sign (rat p.sign) * 1)).IsRat at h
    obtain hneg | hpos := hsign
    · simp [sign, hneg, infinite, IsRat] at h
    · simp [sign, hpos, hpos.not_gt, infinite, IsRat] at h

/-! ### What a solver takes -/

/-- Costs, coefficients and right-hand sides are numbers. Bounds are not checked. -/
structure LinearProgram.IsNumeric (lp : LinearProgram Extended) : Prop where
  cost : ∀ c ∈ lp.cost, c.IsRat
  ubMatrix : ∀ row ∈ lp.ubMatrix.getD [], ∀ a ∈ row, a.IsRat
  eqMatrix : ∀ row ∈ lp.eqMatrix.getD [], ∀ a ∈ row, a.IsRat
  ubBound : ∀ b ∈ lp.ubBound.getD [], b.IsRat
  eqBound : ∀ b ∈ lp.eqBound.getD [], b.IsRat

/-- Some number is between the bounds of each column, and the sides of a row that its kind does
not use are infinite. -/
structure Problem.Uncrossed (p : Problem Extended) : Prop where
  room : ∀ c ∈ p.columns, ∃ q : ℚ, c.lower ≤ rat q ∧ rat q ≤ c.upper
  sides : ∀ r ∈ p.rows, r.bound.sides r.lower r.upper = (r.lower, r.upper)

/-! ### The values behind the data -/

section
variable {n : ℕ} {x : ℕ → ℚ}

/-- The row with the values of its coefficients. -/
def Row.numeric (r : Row Extended) : Row Extended :=
  { r with coefs := r.coefs.map fun e => (e.1, rat e.2.value) }

/-- The problem with the values of its constant and coefficients, and without integrality. -/
def Problem.numeric (p : Problem Extended) : Problem Extended :=
  { p with
    constant := rat p.constant.value
    columns := p.columns.map fun c => { c with kind := .continuous }
    rows := p.rows.map Row.numeric }

theorem Row.coef_numeric (r : Row Extended) (k : ℕ) : r.numeric.coef k = rat (r.coef k).value := by
  have hlookup : ∀ es : List (ℕ × Extended),
      ((es.map fun e => (e.1, rat e.2.value)).lookup k).getD 0 =
        rat ((es.lookup k).getD 0).value := by
    intro es
    induction es with
    | nil => rfl
    | cons e es ih =>
      obtain ⟨i, v⟩ := e
      simp only [List.map_cons, List.lookup_cons]
      cases k == i with
      | true => rfl
      | false => exact ih
  exact hlookup r.coefs

theorem Row.activity_numeric (r : Row Extended) : r.numeric.activity n x = r.activity n x := by
  unfold activity coefAt
  simp only [coef_numeric, value]

theorem Row.dense_numeric {r : Row Extended} (h : ∀ a ∈ r.dense n, a.IsRat) :
    r.numeric.dense n = r.dense n := by
  refine List.map_congr_left fun j hj => ?_
  rw [coef_numeric]
  exact (h _ (List.mem_map_of_mem hj)).eq.symm

namespace Problem

variable {p : Problem Extended}

@[simp] theorem columnCount_numeric : p.numeric.columnCount = p.columnCount := by
  simp [numeric, columnCount]

@[simp] theorem sign_numeric : p.numeric.sign = p.sign := rfl

theorem relaxed_numeric : p.numeric.Relaxed x ↔ p.Relaxed x := by
  have hrow : ∀ r : Row Extended, r.numeric.Holds p.columnCount x ↔ r.Holds p.columnCount x := by
    intro r
    unfold Row.Holds
    rw [Row.activity_numeric]
    rfl
  constructor
  · intro h
    refine ⟨fun {j c} hc => ?_, fun r hr => ?_⟩
    · exact h.within (j := j) (c := { c with kind := .continuous }) (by simp [numeric, hc])
    · have := h.holds r.numeric (List.mem_map_of_mem hr)
      rwa [columnCount_numeric, hrow] at this
  · intro h
    refine ⟨fun {j c} hc => ?_, fun r hr => ?_⟩
    · simp only [numeric, List.getElem?_map, Option.map_eq_some_iff] at hc
      obtain ⟨d, hd, rfl⟩ := hc
      exact h.within (c := d) hd
    · obtain ⟨s, hs, rfl⟩ := List.mem_map.1 hr
      rw [columnCount_numeric, hrow]
      exact h.holds s hs

theorem valueOf_numeric : p.numeric.valueOf x = p.valueOf x := by
  have hcost : ∀ j, p.numeric.costAt j = p.costAt j := by
    intro j
    simp only [numeric, costAt, List.getElem?_map, Option.map_map]
    rfl
  unfold valueOf
  rw [columnCount_numeric]
  simp only [hcost]
  rfl

theorem numberedRows_numeric :
    p.numeric.numberedRows = p.numberedRows.map fun e => (e.1, e.2.numeric) := by
  simp only [numeric, numberedRows, rowCount, List.length_map]
  rw [List.zip_map_right]
  rfl

end Problem

end

/-! ### Problems whose program is numeric -/

namespace LinearProgram.IsNumeric

variable {p : Problem Extended} (hlp : p.linearProgram.IsNumeric)
include hlp

theorem of_inequality {e : Inequality Extended} (he : e ∈ p.inequalities) :
    (∀ a ∈ e.coefs, a.IsRat) ∧ e.bound.IsRat := by
  have hub := hlp.ubMatrix
  have hbound := hlp.ubBound
  simp only [Problem.linearProgram, getD_someUnlessEmpty] at hub hbound
  exact ⟨hub _ (List.mem_map_of_mem he), hbound _ (List.mem_map_of_mem he)⟩

theorem of_equality {e : ℕ × Row Extended} (he : e ∈ p.equalities) :
    (∀ a ∈ e.2.dense p.columnCount, a.IsRat) ∧ e.2.lower.IsRat := by
  have heq := hlp.eqMatrix
  have hbound := hlp.eqBound
  simp only [Problem.linearProgram, getD_someUnlessEmpty] at heq hbound
  exact ⟨heq _ (List.mem_map_of_mem he), hbound _ (List.mem_map_of_mem he)⟩

/-- The data of a row that has an inequality or an equation are numbers. -/
theorem of_row {e : ℕ × Row Extended} (he : e ∈ p.numberedRows) :
    (e.2.bound ≠ .free → ∀ a ∈ e.2.dense p.columnCount, a.IsRat) ∧
      (e.2.bound.hasLower = true → e.2.lower.IsRat) ∧
      (e.2.bound.hasUpper = true → e.2.upper.IsRat) := by
  obtain ⟨i, r⟩ := e
  have hineq : ∀ q ∈ r.inequalities (i - 1) (r.dense p.columnCount),
      (∀ a ∈ q.coefs, a.IsRat) ∧ q.bound.IsRat := fun q hq =>
    hlp.of_inequality (Problem.mem_inequalities.2 ⟨i, r, Problem.mem_numberedRows he, he, hq⟩)
  have hnegated : (∀ a ∈ negated (r.dense p.columnCount), a.IsRat) →
      ∀ a ∈ r.dense p.columnCount, a.IsRat := fun h a ha =>
    isRat_neg_iff.1 (h _ (List.mem_map_of_mem ha))
  dsimp only at hineq ⊢
  unfold Row.inequalities at hineq
  cases hb : r.bound <;> simp only [hb, List.mem_cons, List.not_mem_nil, or_false, forall_eq,
    forall_eq_or_imp, false_imp_iff, implies_true] at hineq
  · exact ⟨fun h => absurd rfl h, (fun h => nomatch h), fun h => nomatch h⟩
  · exact ⟨fun _ => hnegated hineq.1, fun _ => isRat_neg_iff.1 hineq.2, fun h => nomatch h⟩
  · exact ⟨fun _ => hineq.1, (fun h => nomatch h), fun _ => hineq.2⟩
  · exact ⟨fun _ => hineq.1.1, fun _ => isRat_neg_iff.1 hineq.2.2, fun _ => hineq.1.2⟩
  · obtain ⟨hdense, hlower⟩ := hlp.of_equality (e := (i, r)) (List.mem_filter.2 ⟨he, by simp [hb]⟩)
    exact ⟨fun _ => hdense, fun _ => hlower, fun h => nomatch h⟩

theorem inequalities_numeric : p.numeric.inequalities = p.inequalities := by
  unfold Problem.inequalities
  rw [Problem.numberedRows_numeric, List.flatMap_map, Problem.columnCount_numeric]
  refine List.flatMap_congr fun e he => ?_
  by_cases hb : e.2.bound = .free
  · simp [Row.inequalities, Row.numeric, hb]
  · simp only [Row.dense_numeric ((hlp.of_row he).1 hb)]
    rfl

omit hlp in
theorem equalities_numeric : p.numeric.equalities = p.equalities.map fun e => (e.1, e.2.numeric) := by
  unfold Problem.equalities
  rw [Problem.numberedRows_numeric, List.filter_map]
  rfl

/-- The two programs differ in the rows without bounds only. -/
theorem linearProgram_numeric :
    { p.numeric.linearProgram with matrix := p.matrix } = p.linearProgram := by
  have hdense : ∀ e ∈ p.equalities, e.2.numeric.dense p.columnCount = e.2.dense p.columnCount :=
    fun e he => Row.dense_numeric (hlp.of_equality he).1
  unfold Problem.linearProgram
  simp only [hlp.inequalities_numeric, equalities_numeric, List.map_map, Function.comp_def,
    Problem.columnCount_numeric]
  rw [List.map_congr_left hdense]
  simp only [Problem.numeric, List.map_map]
  rfl

theorem satisfied_numeric {x : ℕ → ℚ} :
    p.numeric.linearProgram.Satisfied x ↔ p.linearProgram.Satisfied x := by
  rw [← hlp.linearProgram_numeric]
  exact ⟨fun h => ⟨h.ub, h.eq, h.bounds⟩, fun h => ⟨h.ub, h.eq, h.bounds⟩⟩

variable (hp : p.Uncrossed)
include hp

theorem rational_numeric : p.numeric.Rational where
  constant := isRat_rat _
  cost := by
    intro c hc
    obtain ⟨d, hd, rfl⟩ := List.mem_map.1 hc
    have hsign : (p.sense * d.cost).IsRat :=
      hlp.cost _ (List.mem_map_of_mem (f := fun c => p.sense * c.cost) hd)
    exact hsign.of_sign_mul
  proper := by
    intro c hc
    obtain ⟨d, hd, rfl⟩ := List.mem_map.1 hc
    obtain ⟨q, hlower, hupper⟩ := hp.room d hd
    dsimp only
    refine ⟨?_, ?_⟩
    · cases hl : d.lower <;> rw [hl] at hlower <;> first | cases hlower | skip
      · exact .inl rfl
      · exact .inr (isRat_rat _)
    · cases hu : d.upper <;> rw [hu] at hupper <;> first | cases hupper | skip
      · exact .inr (isRat_rat _)
      · exact .inl rfl
  whole := by
    intro c hc hk
    obtain ⟨d, -, rfl⟩ := List.mem_map.1 hc
    cases hk
  rows := by
    intro r hr
    obtain ⟨s, hs, rfl⟩ := List.mem_map.1 hr
    obtain ⟨i, hi⟩ := Problem.exists_numberedRows hs
    obtain ⟨-, hlower, hupper⟩ := hlp.of_row hi
    refine ⟨fun e he => ?_, hp.sides s hs, hlower, hupper⟩
    obtain ⟨t, -, rfl⟩ := List.mem_map.1 he
    exact isRat_rat _

/-- The program has the points of the relaxation. -/
theorem satisfied_iff {x : ℕ → ℚ} : p.linearProgram.Satisfied x ↔ p.Relaxed x := by
  rw [← hlp.satisfied_numeric, (hlp.rational_numeric hp).satisfied_iff, Problem.relaxed_numeric]

/-- The cost of the program is the objective to minimise, without its constant. -/
theorem dot_cost (x : ℕ → ℚ) : dot p.linearProgram.cost (p.linearProgram.values x) =
    rat (p.sign * (p.valueOf x - p.constant.value)) := by
  have := (hlp.rational_numeric hp).dot_cost x
  rw [Problem.sign_numeric, Problem.valueOf_numeric] at this
  rw [← hlp.linearProgram_numeric]
  exact this

end LinearProgram.IsNumeric

/-! ### Entries -/

/-- The sum over the entries that a row stores. -/
def Row.total (r : Row Extended) (x : ℕ → ℚ) : ℚ :=
  (r.coefs.map fun e => e.2.value * x (e.1 - 1)).sum

/-- A sum over entries of distinct columns is one over the columns. -/
theorem sum_entries {n : ℕ} {es : List (ℕ × Extended)} (hnodup : (es.map (·.1)).Nodup)
    (hrange : ∀ e ∈ es, 0 < e.1 ∧ e.1 ≤ n) (x : ℕ → ℚ) :
    (es.map fun e => e.2.value * x (e.1 - 1)).sum =
      ∑ j ∈ range n, ((es.lookup (j + 1)).getD 0).value * x j := by
  have hzero : (0 : Extended).value = 0 := rfl
  induction es with
  | nil => simp [hzero]
  | cons e es ih =>
    rw [List.map_cons, List.nodup_cons] at hnodup
    obtain ⟨hpos, hle⟩ := hrange e List.mem_cons_self
    have hnone : es.lookup e.1 = none := by
      rw [List.lookup_eq_none_iff]
      rintro ⟨k, v⟩ hkv
      have hne : e.1 ≠ k := fun h => hnodup.1 (List.mem_map.2 ⟨(k, v), hkv, h.symm⟩)
      simpa using hne
    have hsplit : ∀ j ∈ range n, (((e :: es).lookup (j + 1)).getD 0).value * x j =
        (if j = e.1 - 1 then e.2.value * x (e.1 - 1) else 0) +
          ((es.lookup (j + 1)).getD 0).value * x j := by
      intro j _
      rw [lookup_cons_ite]
      by_cases hj : j + 1 = e.1
      · rw [if_pos hj, if_pos (by omega), hj, hnone, Option.getD_some, Option.getD_none, hzero,
          zero_mul, add_zero, show j = e.1 - 1 by omega]
      · rw [if_neg hj, if_neg (by omega), zero_add]
    rw [sum_congr rfl hsplit, sum_add_distrib, sum_ite_eq', if_pos (mem_range.2 (by omega)),
      List.map_cons, List.sum_cons, ih hnodup.2 fun e' he' => hrange e' (List.mem_cons_of_mem e he')]

/-- The entries of a row are for distinct columns of the problem. -/
structure Row.Placed (n : ℕ) (r : Row Extended) : Prop where
  nodup : (r.coefs.map (·.1)).Nodup
  range : ∀ e ∈ r.coefs, 0 < e.1 ∧ e.1 ≤ n

theorem Row.Fits.placed {n : ℕ} {r : Row Extended} (h : r.Fits n) : r.Placed n := ⟨h.nodup, h.range⟩

theorem Row.Placed.total_eq {n : ℕ} {r : Row Extended} (h : r.Placed n) (x : ℕ → ℚ) :
    r.total x = r.activity n x := sum_entries h.nodup h.range x

/-! ### Problems with rational data -/

namespace Problem

/-- The data of a problem are rational. A bound may be infinite on its own side; integrality and the
kinds of the bounds of columns do not matter. -/
structure Linear (p : Problem Extended) : Prop where
  constant : p.constant.IsRat
  cost : ∀ c ∈ p.columns, c.cost.IsRat
  proper : ∀ c ∈ p.columns, ProperBounds c.lower c.upper
  rows : ∀ r ∈ p.rows, r.Rational

theorem Rational.linear {p : Problem Extended} (hp : p.Rational) : p.Linear :=
  ⟨hp.constant, hp.cost, hp.proper, hp.rows⟩

namespace Linear

variable {p : Problem Extended} (hp : p.Linear) {x : ℕ → ℚ}
include hp

/-- Only the kinds of columns are not those of a problem without integrality. -/
theorem numeric_eq :
    p.numeric = { p with columns := p.columns.map fun c => { c with kind := .continuous } } := by
  have hrow : ∀ r ∈ p.rows, r.numeric = r := by
    intro r hr
    have hcoefs : (r.coefs.map fun e => (e.1, rat e.2.value)) = r.coefs.map id :=
      List.map_congr_left fun e he => Prod.ext rfl ((hp.rows r hr).coefs e he).eq.symm
    rw [Row.numeric, hcoefs, List.map_id]
  rw [numeric, ← hp.constant.eq, List.map_congr_left hrow, List.map_id']

theorem rational_numeric : p.numeric.Rational := by
  rw [hp.numeric_eq]
  refine ⟨hp.constant, ?_, ?_, ?_, hp.rows⟩
  all_goals
    intro c hc
    obtain ⟨d, hd, rfl⟩ := List.mem_map.1 hc
  · exact hp.cost d hd
  · exact hp.proper d hd
  · exact fun hkind => nomatch hkind

theorem linearProgram_numeric : p.numeric.linearProgram = p.linearProgram := by
  rw [hp.numeric_eq]
  simp only [Problem.linearProgram, inequalities, equalities, matrix, numberedRows, rowCount,
    columnCount, List.length_map, List.map_map]
  rfl

/-- The program has rational data, and its sizes fit. -/
theorem linearProgram : p.linearProgram.Rational := by
  rw [← hp.linearProgram_numeric]
  exact hp.rational_numeric.linearProgram

/-- The program has the points of the relaxation. -/
theorem satisfied_iff : p.linearProgram.Satisfied x ↔ p.Relaxed x := by
  rw [← hp.linearProgram_numeric, hp.rational_numeric.satisfied_iff, relaxed_numeric]

/-- The cost of the program is the objective to minimise, without its constant. -/
theorem dot_cost (x : ℕ → ℚ) : dot p.linearProgram.cost (p.linearProgram.values x) =
    rat (p.sign * (p.valueOf x - p.constant.value)) := by
  rw [← hp.linearProgram_numeric, hp.rational_numeric.dot_cost, valueOf_numeric]
  rfl

/-- Turned back, the cost is the objective. -/
theorem objective_eq (x : ℕ → ℚ) :
    p.sense * dot p.linearProgram.cost (p.linearProgram.values x) + p.constant =
      rat (p.valueOf x) := by
  rw [hp.dot_cost, sense_eq, hp.constant.eq, rat_mul_rat, rat_add_rat, ← mul_assoc, sign_mul_sign,
    one_mul]
  simp [value]

end Linear

end Problem

/-! ### What a program describes -/

/-- An objective of one value is no worse than one of the other. -/
def Direction.NoWorse : Direction → ℚ → ℚ → Prop
  | .minimize, v, w => v ≤ w
  | .maximize, v, w => w ≤ v

theorem Problem.noWorse_iff (p : Problem Extended) (v w : ℚ) :
    p.direction.NoWorse v w ↔ p.sign * v ≤ p.sign * w := by
  unfold Problem.sign
  cases p.direction <;> simp [Direction.NoWorse]

theorem Problem.relaxed_iff_total {p : Problem Extended}
    (hplaced : ∀ r ∈ p.rows, r.Placed p.columnCount) {x : ℕ → ℚ} : p.Relaxed x ↔
      (∀ j c, p.columns[j]? = some c → c.lower ≤ rat (x j) ∧ rat (x j) ≤ c.upper) ∧
        ∀ r ∈ p.rows, r.lower ≤ rat (r.total x) ∧ rat (r.total x) ≤ r.upper := by
  have hrow : ∀ r ∈ p.rows, r.Holds p.columnCount x ↔
      r.lower ≤ rat (r.total x) ∧ rat (r.total x) ≤ r.upper := by
    intro r hr
    rw [(hplaced r hr).total_eq]
    rfl
  exact ⟨fun h => ⟨fun _ _ => h.within, fun r hr => (hrow r hr).1 (h.holds r hr)⟩,
    fun h => ⟨h.1 _ _, fun r hr => (hrow r hr).2 (h.2 r hr)⟩⟩

/-- With any mix of rows and columns and either direction, the program of a problem has rational
data whose sizes fit. Its points are those where every column and every row is between its bounds.
Its cost is the objective turned into one to minimise, so a point of least cost is one that no
other beats. -/
theorem linearProgram_describes {p : Problem Extended} (hp : p.Linear)
    (hplaced : ∀ r ∈ p.rows, r.Placed p.columnCount) :
    p.linearProgram.Rational ∧
    (∀ x, p.linearProgram.Satisfied x ↔
      (∀ j c, p.columns[j]? = some c → c.lower ≤ rat (x j) ∧ rat (x j) ≤ c.upper) ∧
        ∀ r ∈ p.rows, r.lower ≤ rat (r.total x) ∧ rat (r.total x) ≤ r.upper) ∧
    (∀ x, p.sense * dot p.linearProgram.cost (p.linearProgram.values x) + p.constant =
      rat (p.valueOf x)) ∧
    ∀ x y, dot p.linearProgram.cost (p.linearProgram.values x) ≤
        dot p.linearProgram.cost (p.linearProgram.values y) ↔
      p.direction.NoWorse (p.valueOf x) (p.valueOf y) := by
  refine ⟨hp.linearProgram, fun x => ?_, hp.objective_eq, fun x y => ?_⟩
  · rw [hp.satisfied_iff, Problem.relaxed_iff_total hplaced]
  · rw [hp.dot_cost, hp.dot_cost, rat_le_rat, mul_sub, mul_sub, sub_le_sub_iff_right, p.noWorse_iff]

/-! ### All kinds together -/

/-- Columns and rows of all kinds, to maximise. -/
def assorted : Problem Extended where
  direction := .maximize
  constant := rat 7
  columns := [{ cost := rat 1 }, { bound := .lower, lower := 0, cost := rat 2, kind := .integer },
    { bound := .upper, upper := rat (5 / 2), kind := .integer },
    { bound := .double, lower := 0, upper := rat 4, cost := rat (-1) },
    { bound := .fixed, lower := rat 4, upper := rat 4 }]
  rows := [{ coefs := [(1, rat 1)] },
    { bound := .lower, lower := rat 1, coefs := [(3, rat 1), (2, rat (-1))] },
    { bound := .upper, upper := rat 3, coefs := [(4, rat 1)] },
    { bound := .double, lower := rat (-1), upper := rat 1, coefs := [(5, rat 1), (4, rat (-1))] },
    { bound := .fixed, lower := rat 8, upper := rat 8, coefs := [(5, rat 2)] }]

theorem assorted_linear : assorted.Linear where
  constant := rfl
  cost := by
    simp only [assorted, List.forall_mem_cons]
    exact ⟨rfl, rfl, rfl, rfl, rfl, by simp⟩
  proper := by
    simp only [assorted, List.forall_mem_cons]
    exact ⟨⟨.inl rfl, .inl rfl⟩, ⟨.inr rfl, .inl rfl⟩, ⟨.inl rfl, .inr rfl⟩, ⟨.inr rfl, .inr rfl⟩,
      ⟨.inr rfl, .inr rfl⟩, by simp⟩
  rows := by
    have hcoefs : ∀ r ∈ assorted.rows, ∀ e ∈ r.coefs, e.2.IsRat := by
      simp only [assorted, List.forall_mem_cons]
      exact ⟨⟨rfl, by simp⟩, ⟨rfl, rfl, by simp⟩, ⟨rfl, by simp⟩, ⟨rfl, rfl, by simp⟩,
        ⟨rfl, by simp⟩, by simp⟩
    have hsides : ∀ r ∈ assorted.rows, r.bound.sides r.lower r.upper = (r.lower, r.upper) ∧
        (r.bound.hasLower = true → r.lower.IsRat) ∧ (r.bound.hasUpper = true → r.upper.IsRat) := by
      simp [assorted, BoundKind.sides, BoundKind.hasLower, BoundKind.hasUpper, IsRat, value]
    exact fun r hr => ⟨hcoefs r hr, (hsides r hr).1, (hsides r hr).2.1, (hsides r hr).2.2⟩

theorem assorted_placed : ∀ r ∈ assorted.rows, r.Placed assorted.columnCount := by
  have hrow : ∀ r ∈ assorted.rows, (r.coefs.map (·.1)).Nodup ∧
      ∀ e ∈ r.coefs, 0 < e.1 ∧ e.1 ≤ assorted.columnCount := by decide +kernel
  exact fun r hr => ⟨(hrow r hr).1, (hrow r hr).2⟩

/-- The second column has to stay one below the third. -/
theorem linearProgram_describes_assorted :
    assorted.linearProgram.Satisfied (fun j => [0, 1, 2, 3, 4].getD j 0) ∧
      assorted.sense * dot assorted.linearProgram.cost
        (assorted.linearProgram.values fun j => [0, 1, 2, 3, 4].getD j 0) + assorted.constant =
          rat 6 ∧
      ¬assorted.linearProgram.Satisfied fun j => [0, 2, 2, 3, 4].getD j 0 := by
  obtain ⟨-, hpoints, hcost, -⟩ := linearProgram_describes assorted_linear assorted_placed
  refine ⟨(hpoints _).2 ⟨fun j c hc => ?_, by decide +kernel⟩, ?_, fun h => ?_⟩
  · rcases j with _ | _ | _ | _ | _ | j <;> cases hc <;> decide +kernel
  · rw [hcost]
    exact congrArg rat (by decide +kernel)
  · have hrow := ((hpoints _).1 h).2 _ (List.mem_cons_of_mem _ List.mem_cons_self)
    exact absurd hrow.1 (by decide +kernel)

end MixedInteger
