import MixedInteger.Proofs.Continuous.Duals

/-! Farkas multipliers of rows. How far a point is from the rows is what they lack to their lower
bounds and what they have beyond their upper ones. To find the least of it between the bounds of the
columns, every row with bounds is given two more columns, one for what it lacks and one for what it
has too much, and only these have costs. When the optimum is not zero, the marginals of the rows
separate them from their bounds: any point between the bounds of the columns gives the rows together
less than the bounds give. The bounds of the columns have a part in that, but their multipliers are
not needed to say it. -/

namespace MixedInteger

open Extended Finset

/-! ### Violations -/

namespace Extended

/-- What a value lacks to a lower bound. -/
def shortfall : Extended → ℚ → ℚ
  | rat l, v => max 0 (l - v)
  | _, _ => 0

/-- What a value has beyond an upper bound. -/
def excess : Extended → ℚ → ℚ
  | rat u, v => max 0 (v - u)
  | _, _ => 0

variable {lower upper : Extended} {v q : ℚ}

@[simp] theorem shortfall_bottom (v : ℚ) : bottom.shortfall v = 0 := rfl

@[simp] theorem excess_top (v : ℚ) : top.excess v = 0 := rfl

theorem shortfall_nonneg (lower : Extended) (v : ℚ) : 0 ≤ lower.shortfall v := by
  cases lower with
  | rat l => exact le_max_left ..
  | _ => exact le_rfl

theorem excess_nonneg (upper : Extended) (v : ℚ) : 0 ≤ upper.excess v := by
  cases upper with
  | rat u => exact le_max_left ..
  | _ => exact le_rfl

theorem shortfall_le (hq : 0 ≤ q) (h : lower ≤ rat (v + q)) : lower.shortfall v ≤ q := by
  cases lower with
  | rat l =>
    rw [rat_le_rat] at h
    exact max_le hq (by linarith)
  | _ => exact hq

theorem excess_le (hq : 0 ≤ q) (h : rat (v - q) ≤ upper) : upper.excess v ≤ q := by
  cases upper with
  | rat u =>
    rw [rat_le_rat] at h
    exact max_le hq (by linarith)
  | _ => exact hq

end Extended

namespace Row

variable {r : Row Extended} {v a b : ℚ}

/-- How far a value is from the bounds of a row. -/
def violation (r : Row Extended) (v : ℚ) : ℚ := r.lower.shortfall v + r.upper.excess v

theorem violation_nonneg (r : Row Extended) (v : ℚ) : 0 ≤ r.violation v :=
  add_nonneg (shortfall_nonneg ..) (excess_nonneg ..)

/-- What takes a value between the bounds is no less than its violation. -/
theorem violation_le (ha : 0 ≤ a) (hb : 0 ≤ b) (hlower : r.lower ≤ rat (v + a - b))
    (hupper : rat (v + a - b) ≤ r.upper) : r.violation v ≤ a + b := by
  refine add_le_add (shortfall_le ha (OrderedScalar.le_trans hlower ?_))
    (excess_le hb (OrderedScalar.le_trans ?_ hupper))
  · exact (rat_le_rat _ _).2 (by linarith)
  · exact (rat_le_rat _ _).2 (by linarith)

/-- Bounds that are not crossed are met when nothing more is lacking or too much. -/
theorem between_of_violation (hproper : Problem.ProperBounds r.lower r.upper)
    (hle : r.lower ≤ r.upper) (v : ℚ) :
    r.lower ≤ rat (v + r.lower.shortfall v - r.upper.excess v) ∧
      rat (v + r.lower.shortfall v - r.upper.excess v) ≤ r.upper := by
  obtain ⟨hl | hl, hu | hu⟩ := hproper
  · rw [hl, hu]
    exact ⟨bottom_le_rat _, rat_le_top _⟩
  · rw [hl, hu.eq, shortfall_bottom, excess, rat_le_rat]
    exact ⟨bottom_le_rat _, by linarith [le_max_right 0 (v - r.upper.value)]⟩
  · rw [hl.eq, hu, excess_top, shortfall, rat_le_rat]
    exact ⟨by linarith [le_max_right 0 (r.lower.value - v)], rat_le_top _⟩
  · rw [hl.eq, hu.eq, rat_le_rat] at hle
    rw [hl.eq, hu.eq, rat_le_rat, rat_le_rat, shortfall, excess]
    grind

/-- The kind of a row tells which of its bounds are infinite. -/
theorem Rational.proper (h : r.Rational) : Problem.ProperBounds r.lower r.upper := by
  obtain ⟨hlower, hupper⟩ := Prod.ext_iff.1 h.sides
  cases hkind : r.bound <;> rw [hkind] at hlower hupper
  · exact ⟨.inl hlower.symm, .inl hupper.symm⟩
  · exact ⟨.inr (h.lower (by rw [hkind]; rfl)), .inl hupper.symm⟩
  · exact ⟨.inl hlower.symm, .inr (h.upper (by rw [hkind]; rfl))⟩
  · exact ⟨.inr (h.lower (by rw [hkind]; rfl)), .inr (h.upper (by rw [hkind]; rfl))⟩
  · have hrat := h.lower (by rw [hkind]; rfl)
    have hsides : r.lower = r.upper := hupper
    exact ⟨.inr hrat, .inr (hsides ▸ hrat)⟩

theorem Rational.lower_eq (h : r.Rational) (hkind : r.bound = .free ∨ r.bound = .upper) :
    r.lower = bottom := by
  have hlower := congrArg Prod.fst h.sides
  obtain hkind | hkind := hkind <;> rw [hkind] at hlower <;> exact hlower.symm

theorem Rational.upper_eq (h : r.Rational) (hkind : r.bound = .free ∨ r.bound = .lower) :
    r.upper = top := by
  have hupper := congrArg Prod.snd h.sides
  obtain hkind | hkind := hkind <;> rw [hkind] at hupper <;> exact hupper.symm

theorem Rational.violation_free (h : r.Rational) (hfree : r.bound = .free) (v : ℚ) :
    r.violation v = 0 := by
  rw [violation, h.lower_eq (.inl hfree), h.upper_eq (.inl hfree), shortfall_bottom, excess_top,
    add_zero]

/-- A row is the same at points that do not differ in the columns. -/
theorem Placed.total_congr {n : ℕ} (h : r.Placed n) {x y : ℕ → ℚ} (hxy : ∀ j < n, x j = y j) :
    r.total x = r.total y := by
  rw [h.total_eq, h.total_eq]
  exact sum_congr rfl fun j hj => by rw [hxy j (mem_range.1 hj)]

/-- The row with two more columns, one to add and one to take away. -/
def eased (n k : ℕ) (r : Row Extended) : Row Extended :=
  { r with coefs := r.coefs ++ [(n + 1 + 2 * k, 1), (n + 1 + 2 * k + 1, -1)] }

theorem total_eased (r : Row Extended) (n k : ℕ) (x : ℕ → ℚ) :
    (r.eased n k).total x = r.total x + x (n + 2 * k) - x (n + 2 * k + 1) := by
  have hplus : (1 : Extended).value = 1 := rfl
  have hminus : (-1 : Extended).value = -1 := rfl
  have hfirst : n + 1 + 2 * k - 1 = n + 2 * k := by omega
  have hsecond : n + 1 + 2 * k + 1 - 1 = n + 2 * k + 1 := by omega
  simp only [eased, total, List.map_append, List.map_cons, List.map_nil, List.sum_append,
    List.sum_cons, List.sum_nil, hplus, hminus, hfirst, hsecond]
  ring

theorem Placed.eased {n m k : ℕ} (h : r.Placed n) (hk : k < m) :
    (r.eased n k).Placed (n + 2 * m) where
  nodup := by
    rw [Row.eased, List.map_append, List.nodup_append]
    refine ⟨h.nodup, by simp, fun i hi j hj => ?_⟩
    obtain ⟨e, he, rfl⟩ := List.mem_map.1 hi
    have hrange := h.range e he
    simp only [List.map_cons, List.map_nil, List.mem_cons, List.not_mem_nil, or_false] at hj
    omega
  range e he := by
    obtain he | he := List.mem_append.1 he
    · have hrange := h.range e he
      omega
    · simp only [List.mem_cons, List.not_mem_nil, or_false] at he
      obtain rfl | rfl := he <;> dsimp only <;> omega

end Row

/-! ### Sums over rows -/

theorem sum_map_eq_sum_range {β : Type} (d : β) (f : β → ℚ) (xs : List β) :
    (xs.map f).sum = ∑ k ∈ range xs.length, f (xs.getD k d) := by
  induction xs with
  | nil => rfl
  | cons x xs ih =>
    rw [List.map_cons, List.sum_cons, List.length_cons, sum_range_succ', ih, add_comm]
    rfl

theorem sum_range_two_mul (f : ℕ → ℚ) (m : ℕ) :
    ∑ k ∈ range (2 * m), f k = ∑ k ∈ range m, (f (2 * k) + f (2 * k + 1)) := by
  induction m with
  | zero => rfl
  | succ m ih => rw [Nat.mul_succ, sum_range_succ, sum_range_succ, ih, sum_range_succ, add_assoc]

namespace Problem

variable (p : Problem Extended)

/-- How far a point is from satisfying the rows. -/
def violation (x : ℕ → ℚ) : ℚ := (p.rows.map fun r => r.violation (r.total x)).sum

/-- The numbered rows that can be violated. -/
def restricted : List (ℕ × Row Extended) := p.numberedRows.filter fun e => e.2.bound ≠ .free

/-- One of the rows that can be violated, in their order. -/
def restrictedAt (k : ℕ) : Row Extended := (p.restricted.getD k (0, {})).2

theorem length_restricted : p.restrictedRows.length = p.restricted.length := List.length_map _

theorem nodup_restrictedRows : p.restrictedRows.Nodup := by
  have hnumbers : p.numberedRows.map (·.1) = (List.range p.rowCount).map (· + 1) :=
    List.map_fst_zip (by simp [rowCount])
  refine List.Nodup.sublist (List.filter_sublist.map _) ?_
  rw [hnumbers]
  exact List.nodup_range.map (add_left_injective 1)

variable {p}

theorem violation_nonneg (x : ℕ → ℚ) : 0 ≤ p.violation x :=
  List.sum_nonneg fun v hv => by
    obtain ⟨r, -, rfl⟩ := List.mem_map.1 hv
    exact r.violation_nonneg _

/-- A row without bounds is never violated. -/
theorem violation_eq (hrows : ∀ r ∈ p.rows, r.Rational) (x : ℕ → ℚ) : p.violation x =
    ∑ k ∈ range p.restricted.length, (p.restrictedAt k).violation ((p.restrictedAt k).total x) := by
  have hsum : ∀ es : List (ℕ × Row Extended), (∀ e ∈ es, e.2.Rational) →
      (es.map fun e => e.2.violation (e.2.total x)).sum =
        ((es.filter fun e => e.2.bound ≠ .free).map fun e => e.2.violation (e.2.total x)).sum := by
    intro es hes
    induction es with
    | nil => rfl
    | cons e es ih =>
      have htail := ih fun e he => hes e (List.mem_cons_of_mem _ he)
      rw [List.map_cons, List.sum_cons, htail]
      by_cases hfree : e.2.bound = .free
      · rw [(hes e List.mem_cons_self).violation_free hfree, zero_add,
          List.filter_cons_of_neg (by simpa using hfree)]
      · rw [List.filter_cons_of_pos (by simpa using hfree), List.map_cons, List.sum_cons]
  have hnumbered : p.numberedRows.map (·.2) = p.rows := List.map_snd_zip (by simp [rowCount])
  rw [violation, ← hnumbered, List.map_map]
  exact (hsum p.numberedRows fun e he => hrows _ (mem_numberedRows he)).trans
    (sum_map_eq_sum_range (0, {}) (fun e => e.2.violation (e.2.total x)) p.restricted)

/-! ### The problem of least violation -/

section
variable {i k : ℕ} {r : Row Extended}

theorem restrictedAt_of_idxOf? (h : p.restrictedRows.idxOf? (i + 1) = some k)
    (hr : p.rows[i]? = some r) : k < p.restricted.length ∧ p.restrictedAt k = r := by
  obtain ⟨hlt, hnumber, -⟩ := List.idxOf?_eq_some_iff.1 h
  rw [length_restricted] at hlt
  have hfirst : p.restricted[k].1 = i + 1 := by
    rw [← hnumber]
    exact (List.getElem_map ..).symm
  obtain ⟨i', hi', hr'⟩ :=
    mem_numberedRows_iff.1 (List.mem_of_mem_filter (List.getElem_mem hlt : p.restricted[k] ∈ _))
  cases Nat.succ.inj (hfirst.symm.trans hi')
  refine ⟨hlt, ?_⟩
  rw [restrictedAt, List.getD_eq_getElem _ _ hlt]
  exact Option.some.inj (hr'.symm.trans hr)

theorem exists_restrictedAt (hk : k < p.restricted.length) : ∃ i,
    p.rows[i]? = some (p.restrictedAt k) ∧ p.restrictedRows.idxOf? (i + 1) = some k := by
  have hmem : p.restricted[k] ∈ p.restricted := List.getElem_mem hk
  obtain ⟨i, hi, hr⟩ := mem_numberedRows_iff.1 (List.mem_of_mem_filter hmem)
  have hk' : k < p.restrictedRows.length := p.length_restricted.symm ▸ hk
  have hnumber : p.restrictedRows[k] = i + 1 := (List.getElem_map ..).trans hi
  refine ⟨i, by rwa [restrictedAt, List.getD_eq_getElem _ _ hk], ?_⟩
  rw [List.idxOf?_eq_some_iff]
  refine ⟨hk', hnumber, fun j hj heq => hj.ne ?_⟩
  exact p.nodup_restrictedRows.getElem_inj_iff.1 (heq.trans hnumber.symm)

theorem restrictedAt_mem (hk : k < p.restricted.length) : p.restrictedAt k ∈ p.rows := by
  obtain ⟨i, hr, -⟩ := exists_restrictedAt hk
  exact List.mem_of_getElem? hr

/-- A row that can be violated has two columns of its own. -/
theorem eased_mem (hk : k < p.restricted.length) :
    (p.restrictedAt k).eased p.columnCount k ∈ p.violationProblem.rows := by
  obtain ⟨i, hr, hindex⟩ := exists_restrictedAt hk
  refine List.mem_map.2 ⟨(i + 1, p.restrictedAt k), mem_numberedRows_iff.2 ⟨i, rfl, hr⟩, ?_⟩
  dsimp only
  rw [hindex]
  rfl

/-- Other rows are left as they are. -/
theorem free_or_eased {s : Row Extended} (hs : s ∈ p.violationProblem.rows) :
    (s ∈ p.rows ∧ s.bound = .free) ∨
      ∃ k < p.restricted.length, s = (p.restrictedAt k).eased p.columnCount k := by
  obtain ⟨⟨number, r⟩, he, rfl⟩ := List.mem_map.1 hs
  obtain ⟨i, rfl, hr⟩ := mem_numberedRows_iff.1 he
  dsimp only
  split
  · next hnone =>
    refine .inl ⟨List.mem_of_getElem? hr, ?_⟩
    by_contra hfree
    refine List.idxOf?_eq_none_iff.1 hnone (List.mem_map.2 ⟨(i + 1, r), ?_, rfl⟩)
    exact List.mem_filter.2 ⟨he, by simpa using hfree⟩
  · next k hindex =>
    obtain ⟨hk, hat⟩ := restrictedAt_of_idxOf? hindex hr
    exact .inr ⟨k, hk, by rw [hat]; rfl⟩

end

section
variable (hplaced : ∀ r ∈ p.rows, r.Placed p.columnCount)
include hplaced

theorem placed_violationProblem :
    ∀ s ∈ p.violationProblem.rows, s.Placed p.violationProblem.columnCount := by
  intro s hs
  rw [columnCount_violationProblem, slackCount, length_restricted]
  obtain ⟨hs, -⟩ | ⟨k, hk, rfl⟩ := free_or_eased hs
  · refine ⟨(hplaced s hs).nodup, fun e he => ?_⟩
    have hrange := (hplaced s hs).range e he
    omega
  · exact (hplaced _ (restrictedAt_mem hk)).eased hk

/-- The points of the problem of least violation: in the columns of the problem they keep to the
bounds, and rows do so with what their own two columns add and take away. -/
theorem relaxed_violationProblem (hrows : ∀ r ∈ p.rows, r.Rational) {x : ℕ → ℚ} :
    p.violationProblem.Relaxed x ↔ p.Encloses x ∧
      (∀ k < p.slackCount, 0 ≤ x (p.columnCount + k)) ∧
      ∀ k < p.restricted.length,
        (p.restrictedAt k).lower ≤ rat ((p.restrictedAt k).total x + x (p.columnCount + 2 * k) -
          x (p.columnCount + 2 * k + 1)) ∧
        rat ((p.restrictedAt k).total x + x (p.columnCount + 2 * k) -
          x (p.columnCount + 2 * k + 1)) ≤ (p.restrictedAt k).upper := by
  rw [relaxed_iff_total (placed_violationProblem hplaced)]
  constructor
  · rintro ⟨hcolumns, hheld⟩
    refine ⟨fun j c hc => ?_, fun k hk => ?_, fun k hk => ?_⟩
    · exact (hcolumns j { c with cost := 0 } (columns_violationProblem hc) :)
    · obtain ⟨c, hc⟩ := exists_column_of_lt (p := p.violationProblem) (j := p.columnCount + k)
        (by rw [columnCount_violationProblem]; omega)
      have hbetween := (hcolumns _ c hc).1
      rwa [(slack_violationProblem (Nat.le_add_right ..) hc).1, rat_le_rat] at hbetween
    · have hrow := hheld _ (eased_mem hk)
      rwa [Row.total_eased] at hrow
  · rintro ⟨hbox, hslack, hheld⟩
    refine ⟨fun j c hc => ?_, fun s hs => ?_⟩
    · obtain hj | hj := lt_or_ge j p.columnCount
      · obtain ⟨d, hd⟩ := exists_column_of_lt hj
        cases hc.symm.trans (columns_violationProblem hd)
        exact hbox j d hd
      · have hlt := (List.getElem?_eq_some_iff.1 hc).1
        obtain ⟨k, rfl⟩ := Nat.exists_eq_add_of_le hj
        obtain ⟨hlower, hupper, -⟩ := slack_violationProblem hj hc
        rw [hlower, hupper, rat_le_rat]
        refine ⟨hslack k ?_, rat_le_top _⟩
        have hcount : p.violationProblem.columns.length = p.columnCount + p.slackCount :=
          p.columnCount_violationProblem
        omega
    · obtain ⟨hs, hfree⟩ | ⟨k, hk, rfl⟩ := free_or_eased hs
      · rw [(hrows s hs).lower_eq (.inl hfree), (hrows s hs).upper_eq (.inl hfree)]
        exact ⟨bottom_le_rat _, rat_le_top _⟩
      · rw [Row.total_eased]
        exact hheld k hk

end

/-- The objective is what the rows need altogether. -/
theorem valueOf_violationProblem (p : Problem Extended) (x : ℕ → ℚ) :
    p.violationProblem.valueOf x = p.constant.value + ∑ k ∈ range p.restricted.length,
      (x (p.columnCount + 2 * k) + x (p.columnCount + 2 * k + 1)) := by
  have hcolumn : ∀ j ∈ range p.columnCount, p.violationProblem.costAt j * x j = 0 := by
    intro j hj
    obtain ⟨c, hc⟩ := exists_column_of_lt (mem_range.1 hj)
    rw [costAt, columns_violationProblem hc]
    exact zero_mul _
  have hslack : ∀ k ∈ range p.slackCount,
      p.violationProblem.costAt (p.columnCount + k) * x (p.columnCount + k) =
        x (p.columnCount + k) := by
    intro k hk
    obtain ⟨c, hc⟩ := exists_column_of_lt (p := p.violationProblem) (j := p.columnCount + k) (by
      rw [columnCount_violationProblem]
      exact Nat.add_lt_add_left (mem_range.1 hk) _)
    rw [costAt, hc, Option.map_some, (slack_violationProblem (Nat.le_add_right ..) hc).2.2]
    exact one_mul _
  rw [valueOf, columnCount_violationProblem, sum_range_add, sum_eq_zero hcolumn, zero_add,
    sum_congr rfl hslack, slackCount, length_restricted,
    sum_range_two_mul fun k => x (p.columnCount + k)]
  rfl

/-! ### Least violation -/

/-- Between bounds that are not crossed there is a point. -/
theorem ProperBounds.exists_between {lower upper : Extended} (h : ProperBounds lower upper)
    (hle : lower ≤ upper) : ∃ q : ℚ, lower ≤ rat q ∧ rat q ≤ upper := by
  obtain ⟨hl | hl, hu | hu⟩ := h
  · rw [hl, hu]
    exact ⟨0, bottom_le_rat 0, rat_le_top 0⟩
  · rw [hl, hu.eq]
    exact ⟨_, bottom_le_rat _, (rat_le_rat _ _).2 le_rfl⟩
  · rw [hl.eq, hu]
    exact ⟨_, (rat_le_rat _ _).2 le_rfl, rat_le_top _⟩
  · rw [hl.eq] at hle ⊢
    exact ⟨_, (rat_le_rat _ _).2 le_rfl, hle⟩

theorem exists_encloses (hproper : ∀ c ∈ p.columns, ProperBounds c.lower c.upper)
    (huncrossed : ∀ c ∈ p.columns, c.lower ≤ c.upper) : ∃ x, p.Encloses x := by
  have hpoint : ∀ j : ℕ, ∃ q : ℚ, ∀ c : Column Extended, p.columns[j]? = some c →
      c.lower ≤ rat q ∧ rat q ≤ c.upper := by
    intro j
    cases hc : p.columns[j]? with
    | none => exact ⟨0, fun _ h => nomatch h⟩
    | some c =>
      have hmem := List.mem_of_getElem? hc
      obtain ⟨q, hq⟩ := (hproper c hmem).exists_between (huncrossed c hmem)
      refine ⟨q, ?_⟩
      rintro _ ⟨⟩
      exact hq
  choose x hx using hpoint
  exact ⟨x, hx⟩

/-- The point with what every row needs to be between its bounds. -/
def easedPoint (p : Problem Extended) (x : ℕ → ℚ) (j : ℕ) : ℚ :=
  if j < p.columnCount then x j
  else
    let r := p.restrictedAt ((j - p.columnCount) / 2)
    if (j - p.columnCount) % 2 = 0 then r.lower.shortfall (r.total x)
    else r.upper.excess (r.total x)

theorem easedPoint_lower (p : Problem Extended) (x : ℕ → ℚ) (k : ℕ) :
    p.easedPoint x (p.columnCount + 2 * k) =
      (p.restrictedAt k).lower.shortfall ((p.restrictedAt k).total x) := by
  have hhalf : (p.columnCount + 2 * k - p.columnCount) / 2 = k := by omega
  rw [easedPoint, if_neg (by omega), hhalf, if_pos (by omega)]

theorem easedPoint_upper (p : Problem Extended) (x : ℕ → ℚ) (k : ℕ) :
    p.easedPoint x (p.columnCount + 2 * k + 1) =
      (p.restrictedAt k).upper.excess ((p.restrictedAt k).total x) := by
  have hhalf : (p.columnCount + 2 * k + 1 - p.columnCount) / 2 = k := by omega
  rw [easedPoint, if_neg (by omega), hhalf, if_neg (by omega)]

/-- Columns and rows with rational data and without crossed bounds. Rows are as they are stored:
bounds that their kinds do not use are infinite, and no column has two entries. Neither costs nor
the kinds of columns matter. -/
structure Tidy (p : Problem Extended) : Prop where
  proper : ∀ c ∈ p.columns, ProperBounds c.lower c.upper
  columns : ∀ c ∈ p.columns, c.lower ≤ c.upper
  rational : ∀ r ∈ p.rows, r.Rational
  placed : ∀ r ∈ p.rows, r.Placed p.columnCount
  rows : ∀ r ∈ p.rows, r.lower ≤ r.upper

namespace Tidy

variable (hp : p.Tidy) {x : ℕ → ℚ}
include hp

theorem violation_le (hx : p.violationProblem.Relaxed x) :
    p.violation x ≤ p.violationProblem.valueOf x - p.constant.value := by
  obtain ⟨-, hslack, hheld⟩ := (relaxed_violationProblem hp.placed hp.rational).1 hx
  rw [valueOf_violationProblem, add_sub_cancel_left, violation_eq hp.rational]
  refine sum_le_sum fun k hk => ?_
  have hk := mem_range.1 hk
  have hcount : p.slackCount = 2 * p.restricted.length := by rw [slackCount, length_restricted]
  refine Row.violation_le (hslack (2 * k) (by omega)) (hslack (2 * k + 1) (by omega)) ?_ ?_
  · exact (hheld k hk).1
  · exact (hheld k hk).2

/-- A point between the bounds of the columns needs its violation and no more. -/
theorem relaxed_easedPoint (hx : p.Encloses x) : p.violationProblem.Relaxed (p.easedPoint x) ∧
    p.violationProblem.valueOf (p.easedPoint x) = p.constant.value + p.violation x := by
  have hcolumn : ∀ j < p.columnCount, p.easedPoint x j = x j := fun j hj => if_pos hj
  constructor
  · rw [relaxed_violationProblem hp.placed hp.rational]
    refine ⟨fun j c hc => ?_, fun k _ => ?_, fun k hk => ?_⟩
    · rw [hcolumn j (List.getElem?_eq_some_iff.1 hc).1]
      exact hx j c hc
    · rw [easedPoint, if_neg (by omega)]
      dsimp only
      split_ifs
      · exact shortfall_nonneg ..
      · exact excess_nonneg ..
    · have hmem := restrictedAt_mem hk
      rw [(hp.placed _ hmem).total_congr hcolumn, easedPoint_lower, easedPoint_upper]
      exact Row.between_of_violation (hp.rational _ hmem).proper (hp.rows _ hmem) _
  · rw [valueOf_violationProblem, violation_eq hp.rational]
    simp only [easedPoint_lower, easedPoint_upper, Row.violation]

theorem exists_relaxed_violationProblem : ∃ x, p.violationProblem.Relaxed x := by
  obtain ⟨x, hx⟩ := exists_encloses hp.proper hp.columns
  exact ⟨_, (hp.relaxed_easedPoint hx).1⟩

/-- An optimum has the least violation that there is between the bounds of the columns. -/
theorem isLeast_violation (hx : p.violationProblem.Relaxed x)
    (hbest : ∀ y, p.violationProblem.Relaxed y →
      p.violationProblem.valueOf x ≤ p.violationProblem.valueOf y) :
    IsLeast {v | ∃ x, p.Encloses x ∧ p.violation x = v}
      (p.violationProblem.valueOf x - p.constant.value) := by
  have hleast : ∀ y, p.Encloses y →
      p.violationProblem.valueOf x - p.constant.value ≤ p.violation y := by
    intro y hy
    obtain ⟨hrelaxed, hvalue⟩ := hp.relaxed_easedPoint hy
    have hle := hbest _ hrelaxed
    linarith
  constructor
  · have hbox := ((relaxed_violationProblem hp.placed hp.rational).1 hx).1
    exact ⟨x, hbox, le_antisymm (hp.violation_le hx) (hleast x hbox)⟩
  · rintro v ⟨y, hy, rfl⟩
    exact hleast y hy

end Tidy

/-! ### Separation -/

/-- Multipliers of rows, each for a finite bound of its row and with the sign that the kind of the
row admits. Between the bounds of the columns the rows together stay below their bounds. -/
structure Separates (p : Problem Extended) (y : ℕ → ℚ) : Prop where
  free : ∀ {i r}, p.rows[i]? = some r → r.bound = .free → y i = 0
  lower : ∀ {i r}, p.rows[i]? = some r → r.bound = .lower → 0 ≤ y i
  upper : ∀ {i r}, p.rows[i]? = some r → r.bound = .upper → y i ≤ 0
  finite : ∀ {i r}, p.rows[i]? = some r → y i ≠ 0 → (boundFor (y i) r.lower r.upper).IsRat
  below : ∀ x, p.Encloses x → ∑ i ∈ range p.rowCount, y i * (p.rowAt i).total x <
    ∑ i ∈ range p.rowCount, y i * (boundFor (y i) (p.rowAt i).lower (p.rowAt i).upper).value

theorem Refutes.separates {y δ : ℕ → ℚ} (h : p.Refutes y δ) (hrows : ∀ r ∈ p.rows, r.Rational)
    (hplaced : ∀ r ∈ p.rows, r.Placed p.columnCount) : p.Separates y where
  free {i r} hr hfree := by
    have hrow := hrows r (List.mem_of_getElem? hr)
    refine le_antisymm (nonpos_of_boundFor (h.row hr) ?_) (nonneg_of_boundFor (h.row hr) ?_)
    · rw [hrow.lower_eq (.inl hfree)]
      exact nofun
    · rw [hrow.upper_eq (.inl hfree)]
      exact nofun
  lower {i r} hr hlower := by
    refine nonneg_of_boundFor (h.row hr) ?_
    rw [(hrows r (List.mem_of_getElem? hr)).upper_eq (.inr hlower)]
    exact nofun
  upper {i r} hr hupper := by
    refine nonpos_of_boundFor (h.row hr) ?_
    rw [(hrows r (List.mem_of_getElem? hr)).lower_eq (.inr hupper)]
    exact nofun
  finite := h.row
  below x hx := by
    refine (sum_congr rfl fun i hi => ?_).trans_lt (h.sum_lt hx)
    obtain ⟨r, hr⟩ := exists_row_of_lt (mem_range.1 hi)
    rw [rowAt_of_getElem hr, (hplaced r (List.mem_of_getElem? hr)).total_eq]

section
variable (hq : p.violationProblem.Linear) {a : Answer Extended} {x : ℕ → ℚ}
include hq

theorem Linear.dot_violationProblem (x : ℕ → ℚ) :
    dot p.violationProblem.linearProgram.cost (p.violationProblem.linearProgram.values x) =
      rat (p.violationProblem.valueOf x - p.constant.value) :=
  (hq.dot_cost x).trans (congrArg rat (one_mul _))

/-- The marginals of an optimum that is not zero refute the problem, together with its bounds. -/
theorem Linear.refutes_of_optimum (hpoint : a.point = p.violationProblem.linearProgram.values x)
    (hx : p.violationProblem.Relaxed x) (ha : p.violationProblem.linearProgram.Marginal a)
    (hvalue : 0 < p.violationProblem.valueOf x - p.constant.value) :
    ∃ y δ, p.violationProblem.linearProgram.rowMarginals a p.rowCount = firstValues p.rowCount y ∧
      p.Refutes y δ := by
  obtain ⟨y, δ, hrows, -, hprices⟩ := hq.exists_prices hpoint ha
  rw [rowCount_violationProblem] at hrows
  have hbalances := hprices.balances hq.rows hx
  have hsum := hbalances.boundSum_eq.trans (one_mul _)
  exact ⟨y, δ, hrows, hbalances.refutes (hsum.symm ▸ hvalue)⟩

end

/-- What is found of the rows when this is the least violation: nothing if it is within the
tolerance, and otherwise multipliers that separate. -/
structure Certified (p : Problem Extended) (v : ℚ) (ys : List Extended) : Prop where
  least : IsLeast {v | ∃ x, p.Encloses x ∧ p.violation x = v} v
  nothing : v ≤ 1 / 10 ^ 7 → ys = List.replicate p.rowCount nan
  multipliers : 1 / 10 ^ 7 < v → ∃ y, ys = firstValues p.rowCount y ∧ p.Separates y ∧
    ∀ x, ¬p.Relaxed x

theorem Linear.violationProblem (hp : p.Linear) : p.violationProblem.Linear :=
  ⟨hp.constant, cost_violationProblem, proper_violationProblem hp.proper,
    rational_violationProblem hp.rows⟩

theorem Tidy.linear_violationProblem (hp : p.Tidy) (hconstant : p.constant.IsRat) :
    p.violationProblem.Linear :=
  ⟨hconstant, cost_violationProblem, proper_violationProblem hp.proper,
    rational_violationProblem hp.rational⟩

/-- When no row has bounds, none is violated. -/
theorem Tidy.isLeast_zero (hp : p.Tidy) (hnone : p.restrictedRows = []) :
    IsLeast {v | ∃ x, p.Encloses x ∧ p.violation x = v} 0 := by
  have hzero : ∀ x, p.violation x = 0 := by
    intro x
    rw [violation_eq hp.rational, ← length_restricted, hnone]
    rfl
  obtain ⟨x, hx⟩ := exists_encloses hp.proper hp.columns
  refine ⟨⟨x, hx, hzero x⟩, ?_⟩
  rintro v ⟨y, -, rfl⟩
  exact violation_nonneg y

/-- The program of least violation has an optimum. -/
theorem Tidy.exists_optimum (hp : p.Tidy) (hconstant : p.constant.IsRat) {a : Answer Extended}
    (ha : p.violationProblem.linearProgram.Answers a) : ∃ x, a.status = 0 ∧
      a.point = p.violationProblem.linearProgram.values x ∧
      a.value = rat (p.violationProblem.valueOf x - p.constant.value) ∧
      p.violationProblem.Relaxed x ∧
      IsLeast {v | ∃ x, p.Encloses x ∧ p.violation x = v}
        (p.violationProblem.valueOf x - p.constant.value) := by
  have hq := hp.linear_violationProblem hconstant
  cases ha with
  | @optimum x hstatus hpoint hvalue hsat hbest =>
    have hx := hq.satisfied_iff.1 hsat
    rw [hq.dot_violationProblem] at hvalue
    refine ⟨x, hstatus, hpoint, hvalue, hx, hp.isLeast_violation hx fun y hy => ?_⟩
    have hle := hbest y (hq.satisfied_iff.2 hy)
    rw [hq.dot_violationProblem, hq.dot_violationProblem, rat_le_rat] at hle
    linarith
  | infeasible _ hnone =>
    obtain ⟨x, hx⟩ := hp.exists_relaxed_violationProblem
    exact absurd (hq.satisfied_iff.2 hx) (hnone x)
  | unbounded _ hfall =>
    obtain ⟨x, hsat, hlt⟩ := hfall 0
    rw [hq.dot_violationProblem, rat_lt_rat] at hlt
    have hle := hp.violation_le (hq.satisfied_iff.1 hsat)
    exact absurd (hle.trans_lt hlt) (violation_nonneg x).not_gt

end Problem

/-! ### The certificate -/

theorem activeTolerance_eq : (activeTolerance : Extended) = rat (1 / 10 ^ 7) :=
  congrArg rat (by norm_num)

section
variable {σ : Type} {host : Host Extended σ} (hexact : host.IsExact)
  (hmarginals : host.HasMarginals) {p : Problem Extended}
include hexact hmarginals

/-- What is found of the rows of a problem refutes them, together with its bounds. -/
theorem infeasibilityRay_refutes (hp : p.Linear) :
    Task.Keeps (fun _ => True) (infeasibilityRay host p) fun ys =>
      ys = List.replicate p.rowCount nan ∨
        ∃ y δ, ys = firstValues p.rowCount y ∧ p.Refutes y δ := by
  have hq := hp.violationProblem
  unfold infeasibilityRay
  dsimp only
  split_ifs
  · exact .pure (.inl rfl)
  have hask : Task.Keeps (fun _ => True)
      (Task.ask host ⟨p.violationProblem.linearProgram, .simplex, {}⟩) fun a =>
        p.violationProblem.linearProgram.Answers a ∧
          (a.status = 0 → p.violationProblem.linearProgram.Marginal a) :=
    .ask host.keeps_true fun w a ha =>
      ⟨hexact _ w a hq.linearProgram ha, hmarginals _ w a hq.linearProgram ha⟩
  refine hask.bind fun a ⟨hanswers, hmarginal⟩ => ?_
  split_ifs with hnone
  · exact (Task.Keeps.tell _).bind fun _ _ => .pure (.inl rfl)
  obtain ⟨hstatus, hvalue⟩ := not_or.1 hnone
  have hstatus := not_not.1 hstatus
  obtain @⟨x, -, hpoint, hcost, hsat, -⟩ | ⟨h, -⟩ | ⟨h, -⟩ := hanswers
  · rw [hcost, hq.dot_violationProblem, activeTolerance_eq, rat_le_rat, not_le] at hvalue
    exact .pure (.inr (hq.refutes_of_optimum hpoint (hq.satisfied_iff.1 hsat) (hmarginal hstatus)
      (lt_trans (by norm_num) hvalue)))
  · simp [hstatus] at h
  · simp [hstatus] at h

/-- The solver is asked one question, and its answer settles what is found. -/
theorem infeasibilityRay_certifies_of (hp : p.Tidy) (hconstant : p.constant.IsRat)
    (hanswers : ∀ w, ∃ a,
      (host.solve ⟨p.violationProblem.linearProgram, .simplex, {}⟩ w).1 = .ok a) :
    Task.Returns (infeasibilityRay host p) fun ys => ∃ v, p.Certified v ys := by
  have hq := hp.linear_violationProblem hconstant
  unfold infeasibilityRay
  dsimp only
  split_ifs with hnone
  · exact .pure ⟨0, hp.isLeast_zero (List.isEmpty_iff.1 hnone), fun _ => rfl,
      fun hlt => absurd hlt (by norm_num)⟩
  have hask : Task.Returns (Task.ask host ⟨p.violationProblem.linearProgram, .simplex, {}⟩)
      fun a => p.violationProblem.linearProgram.Answers a ∧
        (a.status = 0 → p.violationProblem.linearProgram.Marginal a) := by
    refine .ask fun w => ?_
    obtain ⟨a, ha⟩ := hanswers w
    exact ⟨a, ha, hexact _ w a hq.linearProgram ha, hmarginals _ w a hq.linearProgram ha⟩
  refine hask.bind fun a ⟨ha, hmarginal⟩ => ?_
  obtain ⟨x, hstatus, hpoint, hvalue, hx, hleast⟩ := hp.exists_optimum hconstant ha
  rw [hvalue, activeTolerance_eq]
  split_ifs with hsmall <;> rw [rat_le_rat] at hsmall
  · have hle := hsmall.resolve_left (not_not.2 hstatus)
    exact (Task.Returns.tell _).bind fun _ _ => .pure
      ⟨_, hleast, fun _ => rfl, fun hlt => absurd hlt hle.not_gt⟩
  · have hlt := not_le.1 (not_or.1 hsmall).2
    obtain ⟨y, δ, hys, hrefutes⟩ := hq.refutes_of_optimum hpoint hx (hmarginal hstatus)
      (lt_trans (by norm_num) hlt)
    exact .pure ⟨_, hleast, fun hle => absurd hlt hle.not_gt, fun _ =>
      ⟨y, hys, hrefutes.separates hp.rational hp.placed, hrefutes.not_relaxed⟩⟩

/-- The constant of the objective has no part in the question. -/
theorem infeasibilityRay_certifies (hp : p.Tidy) (hanswers : ∀ w, ∃ a,
      (host.solve ⟨p.violationProblem.linearProgram, .simplex, {}⟩ w).1 = .ok a) :
    Task.Returns (infeasibilityRay host p) fun ys => ∃ v, p.Certified v ys := by
  have hzero : infeasibilityRay host p = infeasibilityRay host { p with constant := 0 } := rfl
  rw [hzero]
  refine (infeasibilityRay_certifies_of hexact hmarginals (p := { p with constant := 0 })
    ⟨hp.proper, hp.columns, hp.rational, hp.placed, hp.rows⟩ rfl hanswers).imp ?_
  rintro ys ⟨v, h⟩
  refine ⟨v, h.least, h.nothing, fun hlt => ?_⟩
  obtain ⟨y, hys, hy, hnone⟩ := h.multipliers hlt
  exact ⟨y, hys, ⟨hy.free, hy.lower, hy.upper, hy.finite, hy.below⟩,
    fun x hx => hnone x ⟨hx.within, hx.holds⟩⟩

end

end MixedInteger
