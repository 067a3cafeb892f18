import MixedInteger.Proofs.Continuous.Finding

/-! Multipliers of rows and bounds. The marginals of an optimum are multipliers that make up the
costs out of the rows and bounds that the optimum is at. A least violation that is not zero costs
nothing in the columns of the problem, so its multipliers combine rows and bounds to a
contradiction. Both take part: what is read off the marginals is the part of the rows. -/

namespace MixedInteger

open Extended Finset

/-! ### Weights of places -/

/-- What a list of weighted places adds up to at a place. -/
def weightAt (ws : List (ℕ × ℚ)) (i : ℕ) : ℚ := (ws.map fun e => if e.1 = i then e.2 else 0).sum

section
variable {ws : List (ℕ × ℚ)} {n i : ℕ}

theorem sum_weightAt (h : ∀ e ∈ ws, e.1 < n) (f : ℕ → ℚ) :
    ∑ i ∈ range n, weightAt ws i * f i = (ws.map fun e => e.2 * f e.1).sum := by
  induction ws with
  | nil => simp [weightAt]
  | cons e ws ih =>
    have hhead : ∑ i ∈ range n, (if e.1 = i then e.2 else 0) * f i = e.2 * f e.1 := by
      simp [ite_mul, sum_ite_eq, h e List.mem_cons_self]
    have hsplit : ∀ i, weightAt (e :: ws) i = (if e.1 = i then e.2 else 0) + weightAt ws i :=
      fun i => by simp [weightAt]
    simp only [hsplit, add_mul, sum_add_distrib, hhead, List.map_cons, List.sum_cons,
      ih fun e he => h e (List.mem_cons_of_mem _ he)]

theorem exists_of_weightAt_pos (h : 0 < weightAt ws i) : ∃ e ∈ ws, e.1 = i ∧ 0 < e.2 := by
  obtain ⟨e, he, hlt⟩ := List.exists_lt_of_sum_lt (l := ws) (fun _ => (0 : ℚ))
    (fun e => if e.1 = i then e.2 else 0) (by simpa [weightAt] using h)
  split_ifs at hlt with hi
  · exact ⟨e, he, hi, hlt⟩
  · exact absurd hlt (lt_irrefl 0)

theorem exists_of_weightAt_neg (h : weightAt ws i < 0) : ∃ e ∈ ws, e.1 = i ∧ e.2 < 0 := by
  obtain ⟨e, he, hlt⟩ := List.exists_lt_of_sum_lt (l := ws)
    (fun e => if e.1 = i then e.2 else 0) (fun _ => (0 : ℚ)) (by simpa [weightAt] using h)
  split_ifs at hlt with hi
  · exact ⟨e, he, hi, hlt⟩
  · exact absurd hlt (lt_irrefl 0)

end

theorem forall_of_forall₂ {β γ : Type} {R : β → γ → Prop} {P : γ → Prop} {xs : List β}
    {ys : List γ} (h : List.Forall₂ R xs ys) (hP : ∀ x y, R x y → P y) : ∀ y ∈ ys, P y := by
  induction h with
  | nil => simp
  | cons hxy _ ih => exact List.forall_mem_cons.2 ⟨hP _ _ hxy, ih⟩

/-! ### Marginals -/

namespace LinearProgram

variable (lp : LinearProgram Extended) (a : Answer Extended)

/-- Marginals of the point that an answer has. Those of an inequality or a bound have its sign,
and only where the point is at it they are not zero. Together they make up the cost. -/
structure Marginal : Prop where
  ub : List.Forall₂ (fun e u => ∃ q : ℚ, u = rat q ∧ q ≤ 0 ∧ (q ≠ 0 → dot e.1 a.point = e.2))
    ((lp.ubMatrix.getD []).zip (lp.ubBound.getD [])) a.ubMarginals
  eq : List.Forall₂ (fun _ u => u.IsRat) (lp.eqMatrix.getD []) a.eqMarginals
  lower : List.Forall₂ (fun e u => ∃ q : ℚ, u = rat q ∧ 0 ≤ q ∧ (q ≠ 0 → e.1.1 = some e.2))
    (lp.bounds.zip a.point) a.lowerMarginals
  upper : List.Forall₂ (fun e u => ∃ q : ℚ, u = rat q ∧ q ≤ 0 ∧ (q ≠ 0 → e.1.2 = some e.2))
    (lp.bounds.zip a.point) a.upperMarginals
  cost : ∀ j < lp.cost.length, (lp.cost.getD j 0).value =
    (List.zipWith (fun row u => u.value * (row.getD j 0).value) (lp.ubMatrix.getD [])
      a.ubMarginals).sum +
    (List.zipWith (fun row u => u.value * (row.getD j 0).value) (lp.eqMatrix.getD [])
      a.eqMarginals).sum +
    ((a.lowerMarginals.getD j 0).value + (a.upperMarginals.getD j 0).value)

/-- The marginals with the rows that they belong to. -/
def weights : List (ℕ × ℚ) :=
  ((lp.ubRows.zip a.ubMarginals).map fun e => (e.1.1, e.1.2.value * e.2.value)) ++
    (lp.eqRows.zip a.eqMarginals).map fun e => (e.1, e.2.value)

variable {lp a}

/-- Row by row, the marginals add up to the weights of the rows. -/
theorem rowMarginals_eq (hsigns : ∀ e ∈ lp.ubRows, e.2.IsRat) (hub : ∀ u ∈ a.ubMarginals, u.IsRat)
    (heq : ∀ u ∈ a.eqMarginals, u.IsRat) (n : ℕ) :
    lp.rowMarginals a n = firstValues n (weightAt (lp.weights a)) := by
  have hmodify : ∀ (y : ℕ → ℚ) (i : ℕ) (q : ℚ), (firstValues n y).modify i (fun d => d + rat q) =
      firstValues n fun k => (if i = k then q else 0) + y k := by
    intro y i q
    refine List.ext_getElem (by simp) fun k hk _ => ?_
    rw [List.getElem_modify]
    split_ifs with hi <;> simp [firstValues, hi, add_comm]
  have hfold : ∀ (es : List ((ℕ × Extended) × Extended)),
      (∀ e ∈ es, e.1.2.IsRat ∧ e.2.IsRat) → ∀ y : ℕ → ℚ,
      es.foldl (fun duals e => duals.modify e.1.1 fun d => d + e.1.2 * e.2) (firstValues n y) =
        firstValues n fun k =>
          weightAt (es.map fun e => (e.1.1, e.1.2.value * e.2.value)) k + y k := by
    intro es
    induction es with
    | nil => simp [weightAt]
    | cons e es ih =>
      intro hes y
      obtain ⟨hsign, hmarginal⟩ := hes e List.mem_cons_self
      have hproduct : e.1.2 * e.2 = rat (e.1.2.value * e.2.value) := by
        rw [← rat_mul_rat, ← hsign.eq, ← hmarginal.eq]
      rw [List.foldl_cons, hproduct, hmodify, ih fun e he => hes e (List.mem_cons_of_mem _ he)]
      refine congrArg (firstValues n) (funext fun k => ?_)
      simp only [weightAt, List.map_cons, List.sum_cons]
      ring
  have hzero : List.replicate n (0 : Extended) = firstValues n fun _ => 0 := by
    rw [firstValues, List.map_const', List.length_range]
    rfl
  have hone : (1 : Extended).value = 1 := rfl
  rw [rowMarginals, ← List.foldl_append, hzero, hfold]
  · simp [weights, Function.comp_def, hone]
  · intro e he
    obtain he | he := List.mem_append.1 he
    · exact ⟨hsigns _ (List.of_mem_zip he).1, hub _ (List.of_mem_zip he).2⟩
    · obtain ⟨e', he', rfl⟩ := List.mem_map.1 he
      exact ⟨isRat_rat 1, heq _ (List.of_mem_zip he').2⟩

end LinearProgram

/-! ### Rows and bounds of a problem -/

namespace Problem

variable (p : Problem Extended)

def rowAt (i : ℕ) : Row Extended := p.rows.getD i {}

def columnAt (j : ℕ) : Column Extended := p.columns.getD j {}

/-- Multipliers of rows and bounds, which make up the costs. Those of bounds are for bounds that a
point is at, and so are those of rows but for equations, which any point should be at. -/
structure Prices (x y δ : ℕ → ℚ) : Prop where
  cost : ∀ j < p.columnCount, ∑ i ∈ range p.rowCount, y i * (p.rowAt i).coefAt j + δ j =
    p.sign * p.costAt j
  row : ∀ {i r}, p.rows[i]? = some r → r.bound ≠ .fixed →
    (0 < y i → r.lower = rat (r.activity p.columnCount x)) ∧
      (y i < 0 → r.upper = rat (r.activity p.columnCount x))
  column : ∀ {j c}, p.columns[j]? = some c →
    (0 < δ j → c.lower = rat (x j)) ∧ (δ j < 0 → c.upper = rat (x j))

/-- Multipliers of the rows and bounds that a point is at, which make up the costs. -/
structure Balances (x y δ : ℕ → ℚ) : Prop where
  cost : ∀ j < p.columnCount, ∑ i ∈ range p.rowCount, y i * (p.rowAt i).coefAt j + δ j =
    p.sign * p.costAt j
  row : ∀ {i r}, p.rows[i]? = some r →
    (0 < y i → r.lower = rat (r.activity p.columnCount x)) ∧
      (y i < 0 → r.upper = rat (r.activity p.columnCount x))
  column : ∀ {j c}, p.columns[j]? = some c →
    (0 < δ j → c.lower = rat (x j)) ∧ (δ j < 0 → c.upper = rat (x j))

variable {p} {i j : ℕ}

theorem rowAt_of_getElem {r : Row Extended} (h : p.rows[i]? = some r) : p.rowAt i = r := by
  simp [rowAt, h]

theorem columnAt_of_getElem {c : Column Extended} (h : p.columns[j]? = some c) :
    p.columnAt j = c := by
  simp [columnAt, h]

theorem mem_numberedRows_iff {k : ℕ} {r : Row Extended} :
    (k, r) ∈ p.numberedRows ↔ ∃ i, k = i + 1 ∧ p.rows[i]? = some r := by
  rw [numberedRows, List.mem_iff_getElem?]
  refine exists_congr fun i => ?_
  rw [List.getElem?_zip_eq_some, and_congr_left_iff]
  intro hr
  have hi : i < p.rowCount := (List.getElem?_eq_some_iff.1 hr).1
  simp [hi, eq_comm]

theorem exists_row_of_mem_inequalities {e : Inequality Extended} (he : e ∈ p.inequalities) :
    ∃ r, p.rows[e.row]? = some r ∧ (e = ⟨e.row, 1, r.dense p.columnCount, r.upper⟩ ∨
      e = ⟨e.row, -1, negated (r.dense p.columnCount), -r.lower⟩ ∧ r.bound.hasLower = true) := by
  obtain ⟨k, r, -, hk, he⟩ := mem_inequalities.1 he
  obtain ⟨i, rfl, hi⟩ := mem_numberedRows_iff.1 hk
  rw [Nat.add_sub_cancel] at he
  refine ⟨r, ?_⟩
  unfold Row.inequalities at he
  cases hb : r.bound <;> simp only [hb, List.not_mem_nil, List.mem_cons, or_false] at he
  · subst he
    exact ⟨hi, .inr ⟨rfl, rfl⟩⟩
  · subst he
    exact ⟨hi, .inl rfl⟩
  · obtain rfl | rfl := he
    · exact ⟨hi, .inl rfl⟩
    · exact ⟨hi, .inr ⟨rfl, rfl⟩⟩

theorem exists_row_of_mem_equalities {e : ℕ × Row Extended} (he : e ∈ p.equalities) :
    p.rows[e.1 - 1]? = some e.2 ∧ e.2.bound = .fixed := by
  obtain ⟨he, hfixed⟩ := List.mem_filter.1 he
  obtain ⟨i, hi, hr⟩ := mem_numberedRows_iff.1 he
  exact ⟨by rwa [hi, Nat.add_sub_cancel], of_decide_eq_true hfixed⟩

theorem weights_linearProgram (a : Answer Extended) : p.linearProgram.weights a =
    ((p.inequalities.zip a.ubMarginals).map fun e => (e.1.row, e.1.sign.value * e.2.value)) ++
      (p.equalities.zip a.eqMarginals).map fun e => (e.1.1 - 1, e.2.value) := by
  simp only [LinearProgram.weights, linearProgram, List.zip_map_left, List.map_map]
  rfl

/-- A marginal of an inequality is for its row at a point that is at the bound. -/
theorem Rational.row_of_inequality (hp : p.Rational) {e : Inequality Extended}
    (he : e ∈ p.inequalities) {x : ℕ → ℚ} {q : ℚ} (hq : q ≤ 0)
    (hbound : q ≠ 0 → dot e.coefs (firstValues p.columnCount x) = e.bound) :
    ∃ r, p.rows[e.row]? = some r ∧
      (0 < e.sign.value * q → r.lower = rat (r.activity p.columnCount x)) ∧
      (e.sign.value * q < 0 → r.upper = rat (r.activity p.columnCount x)) := by
  obtain ⟨r, hr, hcases⟩ := exists_row_of_mem_inequalities he
  have hrow := hp.rows r (List.mem_of_getElem? hr)
  refine ⟨r, hr, ?_⟩
  obtain he | ⟨he, hlower⟩ := hcases
  · have hsign : e.sign.value = 1 := by rw [he]; rfl
    rw [hsign, one_mul]
    refine ⟨fun hpos => absurd hpos hq.not_gt, fun hneg => ?_⟩
    have hat := hbound hneg.ne
    rw [he] at hat
    exact hat.symm.trans (Row.dot_dense _ _ hrow.coefs)
  · have hsign : e.sign.value = -1 := by rw [he]; rfl
    rw [hsign, neg_one_mul]
    refine ⟨fun hpos => ?_, fun hneg => absurd (neg_lt_zero.1 hneg) hq.not_gt⟩
    have hat := hbound (neg_pos.1 hpos).ne
    rw [he] at hat
    have hactivity := (Row.dot_negated (n := p.columnCount) (x := x) hrow.coefs).symm.trans hat
    rw [(hrow.lower hlower).eq, neg_rat, rat_inj, neg_inj] at hactivity
    rw [(hrow.lower hlower).eq, hactivity]

/-- A point of the relaxation is at both sides of an equation. -/
theorem Relaxed.at_fixed {x : ℕ → ℚ} (hx : p.Relaxed x) {r : Row Extended} (hr : r ∈ p.rows)
    (hrow : r.Rational) (hfixed : r.bound = .fixed) :
    r.lower = rat (r.activity p.columnCount x) ∧ r.upper = rat (r.activity p.columnCount x) := by
  have hsides : r.lower = r.upper := by
    have := congrArg Prod.snd hrow.sides
    rwa [hfixed] at this
  have hlower : r.lower.IsRat := hrow.lower (by rw [hfixed]; rfl)
  obtain ⟨hle, hge⟩ := hx.holds r hr
  rw [← hsides] at hge ⊢
  rw [hlower.eq, rat_le_rat] at hle hge
  have heq : r.lower = rat (r.activity p.columnCount x) := by
    rw [hlower.eq, le_antisymm hle hge]
  exact ⟨heq, heq⟩

/-- Prices at a point of the relaxation are for rows that the point is at, equations among them. -/
theorem Prices.balances (hrows : ∀ r ∈ p.rows, r.Rational) {x y δ : ℕ → ℚ} (h : p.Prices x y δ)
    (hx : p.Relaxed x) : p.Balances x y δ where
  cost := h.cost
  row {i r} hr := by
    by_cases hfixed : r.bound = .fixed
    · have hmem := List.mem_of_getElem? hr
      obtain ⟨hlower, hupper⟩ := hx.at_fixed hmem (hrows r hmem) hfixed
      exact ⟨fun _ => hlower, fun _ => hupper⟩
    · exact h.row hr hfixed
  column := h.column

/-- Weight by weight, rows contribute their coefficients to a cost. -/
theorem Rational.sum_weights (hp : p.Rational) (a : Answer Extended) {j : ℕ}
    (hj : j < p.columnCount) :
    (List.zipWith (fun row u => u.value * (row.getD j 0).value)
        (p.linearProgram.ubMatrix.getD []) a.ubMarginals).sum +
      (List.zipWith (fun row u => u.value * (row.getD j 0).value)
        (p.linearProgram.eqMatrix.getD []) a.eqMarginals).sum =
      ((p.linearProgram.weights a).map fun w => w.2 * (p.rowAt w.1).coefAt j).sum := by
  have hub : ∀ e ∈ p.inequalities.zip a.ubMarginals, e.2.value * (e.1.coefs.getD j 0).value =
      e.1.sign.value * e.2.value * (p.rowAt e.1.row).coefAt j := by
    rintro ⟨e, u⟩ hmem
    obtain ⟨r, hr, hcases⟩ := exists_row_of_mem_inequalities (List.of_mem_zip hmem).1
    have hcoefs := (hp.rows r (List.mem_of_getElem? hr)).coefs
    rw [rowAt_of_getElem hr]
    obtain he | ⟨he, -⟩ := hcases
    · have hcoef : e.coefs.getD j 0 = rat (r.coefAt j) := by
        simp [congrArg Inequality.coefs he, Row.dense_eq _ hcoefs, firstValues, hj]
      have hsign : e.sign.value = 1 := by rw [he]; rfl
      rw [hcoef, hsign, one_mul]
      rfl
    · have hcoef : e.coefs.getD j 0 = rat (-r.coefAt j) := by
        simp [congrArg Inequality.coefs he, Row.dense_eq _ hcoefs, negated, firstValues, hj]
      have hsign : e.sign.value = -1 := by rw [he]; rfl
      rw [hcoef, hsign, neg_one_mul, neg_mul, ← mul_neg]
      rfl
  have heq : ∀ e ∈ p.equalities.zip a.eqMarginals,
      e.2.value * ((e.1.2.dense p.columnCount).getD j 0).value =
        e.2.value * (p.rowAt (e.1.1 - 1)).coefAt j := by
    rintro ⟨e, u⟩ hmem
    obtain ⟨hr, -⟩ := exists_row_of_mem_equalities (List.of_mem_zip hmem).1
    have hcoefs := (hp.rows _ (List.mem_of_getElem? hr)).coefs
    rw [rowAt_of_getElem hr, Row.dense_eq _ hcoefs]
    simp [firstValues, hj, value]
  rw [weights_linearProgram, List.map_append, List.sum_append, List.map_map, List.map_map]
  simp only [Problem.linearProgram, getD_someUnlessEmpty, List.zipWith_map_left]
  rw [← List.map_uncurry_zip_eq_zipWith, ← List.map_uncurry_zip_eq_zipWith]
  exact congrArg₂ (· + ·) (congrArg List.sum (List.map_congr_left hub))
    (congrArg List.sum (List.map_congr_left heq))

theorem eq_of_finite? {x y : Extended} (h : finite? x = some y) : x = y := by
  unfold finite? at h
  split_ifs at h
  exact Option.some.inj h

namespace Rational

variable (hp : p.Rational) {a : Answer Extended} {x : ℕ → ℚ}
  (ha : p.linearProgram.Marginal a) (hpoint : a.point = firstValues p.columnCount x)

omit hp in
include ha hpoint in
theorem marginal_inequalities : List.Forall₂ (fun (e : Inequality Extended) u => ∃ q : ℚ,
    u = rat q ∧ q ≤ 0 ∧ (q ≠ 0 → dot e.coefs (firstValues p.columnCount x) = e.bound))
    p.inequalities a.ubMarginals := by
  have hub := ha.ub
  simp only [Problem.linearProgram, getD_someUnlessEmpty, List.zip_map', List.forall₂_map_left_iff,
    hpoint] at hub
  exact hub

include hp ha hpoint

/-- Each weight belongs to a row, and to a side of it that the point is at if it is no equation. -/
theorem row_of_mem_weights {w : ℕ × ℚ} (hw : w ∈ p.linearProgram.weights a) :
    ∃ r, p.rows[w.1]? = some r ∧ (r.bound ≠ .fixed →
      (0 < w.2 → r.lower = rat (r.activity p.columnCount x)) ∧
        (w.2 < 0 → r.upper = rat (r.activity p.columnCount x))) := by
  rw [weights_linearProgram] at hw
  obtain hw | hw := List.mem_append.1 hw
  · obtain ⟨⟨e, u⟩, hmem, rfl⟩ := List.mem_map.1 hw
    obtain ⟨q, rfl, hq, hbound⟩ := (List.forall₂_iff_zip.1 (marginal_inequalities ha hpoint)).2 hmem
    obtain ⟨r, hr, hat⟩ := hp.row_of_inequality (List.of_mem_zip hmem).1 hq hbound
    exact ⟨r, hr, fun _ => hat⟩
  · obtain ⟨⟨e, u⟩, hmem, rfl⟩ := List.mem_map.1 hw
    obtain ⟨hr, hfixed⟩ := exists_row_of_mem_equalities (List.of_mem_zip hmem).1
    exact ⟨e.2, hr, fun hne => absurd hfixed hne⟩

omit hp in
/-- The two marginals of a column, each of which is for a bound that the point is at. -/
theorem marginal_column {j : ℕ} {c : Column Extended} (hc : p.columns[j]? = some c) :
    (∃ l : ℚ, a.lowerMarginals.getD j 0 = rat l ∧ 0 ≤ l ∧ (l ≠ 0 → c.lower = rat (x j))) ∧
      ∃ h : ℚ, a.upperMarginals.getD j 0 = rat h ∧ h ≤ 0 ∧ (h ≠ 0 → c.upper = rat (x j)) := by
  have hentry : (p.linearProgram.bounds.zip a.point)[j]? =
      some ((finite? c.lower, finite? c.upper), rat (x j)) := by
    have hj : j < p.columnCount := (List.getElem?_eq_some_iff.1 hc).1
    rw [List.getElem?_zip_eq_some, hpoint]
    simp [Problem.linearProgram, hc, firstValues, hj]
  have hget : ∀ {R : (Option Extended × Option Extended) × Extended → Extended → Prop}
      {us : List Extended}, List.Forall₂ R (p.linearProgram.bounds.zip a.point) us →
        R ((finite? c.lower, finite? c.upper), rat (x j)) (us.getD j 0) := by
    intro R us hus
    obtain ⟨hj, heq⟩ := List.getElem?_eq_some_iff.1 hentry
    have hj' : j < us.length := hus.length_eq ▸ hj
    rw [← heq, List.getD_eq_getElem _ _ hj']
    exact hus.get hj hj'
  obtain ⟨l, hl, hpos, hlower⟩ := hget ha.lower
  obtain ⟨h, hh, hneg, hupper⟩ := hget ha.upper
  exact ⟨⟨l, hl, hpos, fun hne => eq_of_finite? (hlower hne)⟩,
    h, hh, hneg, fun hne => eq_of_finite? (hupper hne)⟩

omit hp in
/-- Column by column, the two marginals are added up. -/
theorem boundMarginals_eq : a.boundMarginals = firstValues p.columnCount fun j =>
    (a.lowerMarginals.getD j 0).value + (a.upperMarginals.getD j 0).value := by
  have hzip : (p.linearProgram.bounds.zip a.point).length = p.columnCount := by
    rw [List.length_zip, hpoint, length_firstValues]
    simp [Problem.linearProgram, columnCount]
  have hlower : a.lowerMarginals.length = p.columnCount := ha.lower.length_eq.symm.trans hzip
  have hupper : a.upperMarginals.length = p.columnCount := ha.upper.length_eq.symm.trans hzip
  refine List.ext_getElem (by simp [Answer.boundMarginals, hlower, hupper]) fun j hj hj' => ?_
  rw [length_firstValues] at hj'
  obtain ⟨c, hc⟩ : ∃ c, p.columns[j]? = some c := ⟨_, List.getElem?_eq_getElem hj'⟩
  obtain ⟨⟨l, hl, -⟩, h, hh, -⟩ := marginal_column ha hpoint hc
  rw [List.getD_eq_getElem _ _ (hlower ▸ hj')] at hl
  rw [List.getD_eq_getElem _ _ (hupper ▸ hj')] at hh
  simp [Answer.boundMarginals, firstValues, hl, hh, hlower, hupper, hj', value]

/-- The marginals of an answer are prices at its point. -/
theorem exists_prices : ∃ y δ, p.linearProgram.rowMarginals a p.rowCount = firstValues p.rowCount y ∧
    a.boundMarginals = firstValues p.columnCount δ ∧ p.Prices x y δ := by
  have hrow : ∀ w ∈ p.linearProgram.weights a, ∃ r, p.rows[w.1]? = some r ∧ (r.bound ≠ .fixed →
      (0 < w.2 → r.lower = rat (r.activity p.columnCount x)) ∧
        (w.2 < 0 → r.upper = rat (r.activity p.columnCount x))) :=
    fun w hw => hp.row_of_mem_weights ha hpoint hw
  refine ⟨weightAt (p.linearProgram.weights a), _, ?_, boundMarginals_eq ha hpoint, ?_, ?_, ?_⟩
  · refine LinearProgram.rowMarginals_eq ?_ ?_ ?_ _
    · intro e he
      obtain ⟨e', he', rfl⟩ := List.mem_map.1 he
      obtain ⟨r, -, hcases⟩ := exists_row_of_mem_inequalities he'
      obtain h | ⟨h, -⟩ := hcases
      · rw [h]; exact isRat_rat 1
      · rw [h]; exact isRat_rat (-1)
    · refine forall_of_forall₂ (marginal_inequalities ha hpoint) fun e u hu => ?_
      obtain ⟨q, rfl, -⟩ := hu
      exact isRat_rat q
    · exact forall_of_forall₂ ha.eq fun _ _ hu => hu
  · intro j hj
    have hcost := ha.cost j (by rw [hp.cost_eq, length_firstValues]; exact hj)
    have hlt : ∀ w ∈ p.linearProgram.weights a, w.1 < p.rowCount := fun w hw =>
      (List.getElem?_eq_some_iff.1 (hrow w hw).choose_spec.1).1
    rw [hp.sum_weights a hj, hp.cost_eq] at hcost
    rw [sum_weightAt hlt fun i => (p.rowAt i).coefAt j, ← hcost]
    simp [firstValues, hj, value]
  · intro i r hr hfixed
    constructor
    · intro hpos
      obtain ⟨w, hw, rfl, hlt⟩ := exists_of_weightAt_pos hpos
      obtain ⟨r', hr', hat⟩ := hrow w hw
      cases hr.symm.trans hr'
      exact (hat hfixed).1 hlt
    · intro hneg
      obtain ⟨w, hw, rfl, hlt⟩ := exists_of_weightAt_neg hneg
      obtain ⟨r', hr', hat⟩ := hrow w hw
      cases hr.symm.trans hr'
      exact (hat hfixed).2 hlt
  · intro j c hc
    obtain ⟨⟨l, hl, hpos, hlower⟩, h, hh, hneg, hupper⟩ := marginal_column ha hpoint hc
    have hsum : (a.lowerMarginals.getD j 0).value + (a.upperMarginals.getD j 0).value = l + h := by
      rw [hl, hh]
      rfl
    rw [hsum]
    exact ⟨fun h' => hlower (by linarith), fun h' => hupper (by linarith)⟩

end Rational

/-! ### Refutations -/

end Problem

/-- The bound that a multiplier is for. -/
def Extended.boundFor (q : ℚ) (lower upper : Extended) : Extended := if 0 < q then lower else upper

theorem Extended.boundFor_eq {q : ℚ} {lower upper v : Extended} (hq : q ≠ 0)
    (hpos : 0 < q → lower = v) (hneg : q < 0 → upper = v) : boundFor q lower upper = v := by
  unfold boundFor
  split_ifs with h
  · exact hpos h
  · exact hneg (lt_of_le_of_ne (not_lt.1 h) hq)

section
variable {q : ℚ} {lower upper : Extended} (h : q ≠ 0 → (Extended.boundFor q lower upper).IsRat)
include h

/-- A value between two bounds, times a multiplier, is no less than its bound times it. -/
theorem Extended.mul_boundFor_le {v : ℚ} (hle : lower ≤ rat v) (hge : rat v ≤ upper) :
    q * (boundFor q lower upper).value ≤ q * v := by
  obtain hneg | rfl | hpos := lt_trichotomy q 0
  · have heq := h hneg.ne
    rw [boundFor, if_neg hneg.not_gt] at heq ⊢
    rw [heq, rat_le_rat] at hge
    exact mul_le_mul_of_nonpos_left hge hneg.le
  · simp
  · have heq := h hpos.ne'
    rw [boundFor, if_pos hpos] at heq ⊢
    rw [heq, rat_le_rat] at hle
    exact mul_le_mul_of_nonneg_left hle hpos.le

/-- Only a finite bound has a multiplier. -/
theorem Extended.nonpos_of_boundFor (hlower : ¬lower.IsRat) : q ≤ 0 := by
  by_contra hlt
  have hrat := h (not_le.1 hlt).ne'
  rw [boundFor, if_pos (not_le.1 hlt)] at hrat
  exact hlower hrat

theorem Extended.nonneg_of_boundFor (hupper : ¬upper.IsRat) : 0 ≤ q := by
  by_contra hlt
  have hrat := h (not_le.1 hlt).ne
  rw [boundFor, if_neg (not_le.1 hlt).not_gt] at hrat
  exact hupper hrat

end

namespace Problem

variable (p : Problem Extended)

/-- The bounds of rows and columns, times their multipliers. -/
def boundSum (y δ : ℕ → ℚ) : ℚ :=
  ∑ i ∈ range p.rowCount, y i * (boundFor (y i) (p.rowAt i).lower (p.rowAt i).upper).value +
    ∑ j ∈ range p.columnCount,
      δ j * (boundFor (δ j) (p.columnAt j).lower (p.columnAt j).upper).value

/-- A point between the bounds of the columns, whatever the rows are. -/
def Encloses (x : ℕ → ℚ) : Prop :=
  ∀ j c, p.columns[j]? = some c → c.lower ≤ rat (x j) ∧ rat (x j) ≤ c.upper

theorem Relaxed.encloses {p : Problem Extended} {x : ℕ → ℚ} (h : p.Relaxed x) : p.Encloses x :=
  fun _ _ => h.within

/-- Multipliers of rows and bounds that combine them to a contradiction. -/
structure Refutes (y δ : ℕ → ℚ) : Prop where
  balance : ∀ j < p.columnCount, ∑ i ∈ range p.rowCount, y i * (p.rowAt i).coefAt j + δ j = 0
  row : ∀ {i r}, p.rows[i]? = some r → y i ≠ 0 → (boundFor (y i) r.lower r.upper).IsRat
  column : ∀ {j c}, p.columns[j]? = some c → δ j ≠ 0 → (boundFor (δ j) c.lower c.upper).IsRat
  positive : 0 < p.boundSum y δ

variable {p} {x y δ : ℕ → ℚ}

theorem exists_row_of_lt {i : ℕ} (hi : i < p.rowCount) : ∃ r, p.rows[i]? = some r :=
  ⟨_, List.getElem?_eq_getElem hi⟩

theorem exists_column_of_lt {j : ℕ} (hj : j < p.columnCount) : ∃ c, p.columns[j]? = some c :=
  ⟨_, List.getElem?_eq_getElem hj⟩

/-- A linear form in rows and columns, summed up either way. -/
theorem sum_activities (p : Problem Extended) (x y δ : ℕ → ℚ) :
    ∑ i ∈ range p.rowCount, y i * (p.rowAt i).activity p.columnCount x +
      ∑ j ∈ range p.columnCount, δ j * x j =
    ∑ j ∈ range p.columnCount,
      (∑ i ∈ range p.rowCount, y i * (p.rowAt i).coefAt j + δ j) * x j := by
  simp only [Row.activity, mul_sum, add_mul, sum_mul, sum_add_distrib, mul_assoc]
  rw [sum_comm]

/-- The bounds that a point is at, times their multipliers, make up its cost. -/
theorem Balances.boundSum_eq (h : p.Balances x y δ) :
    p.boundSum y δ = p.sign * (p.valueOf x - p.constant.value) := by
  have hrow : ∀ i ∈ range p.rowCount,
      y i * (boundFor (y i) (p.rowAt i).lower (p.rowAt i).upper).value =
        y i * (p.rowAt i).activity p.columnCount x := by
    intro i hi
    obtain ⟨r, hr⟩ := exists_row_of_lt (mem_range.1 hi)
    obtain hzero | hne := eq_or_ne (y i) 0
    · rw [hzero, zero_mul, zero_mul]
    · rw [rowAt_of_getElem hr, boundFor_eq hne (h.row hr).1 (h.row hr).2]
      rfl
  have hcolumn : ∀ j ∈ range p.columnCount,
      δ j * (boundFor (δ j) (p.columnAt j).lower (p.columnAt j).upper).value = δ j * x j := by
    intro j hj
    obtain ⟨c, hc⟩ := exists_column_of_lt (mem_range.1 hj)
    obtain hzero | hne := eq_or_ne (δ j) 0
    · rw [hzero, zero_mul, zero_mul]
    · rw [columnAt_of_getElem hc, boundFor_eq hne (h.column hc).1 (h.column hc).2]
      rfl
  have hcost : ∀ j ∈ range p.columnCount,
      (∑ i ∈ range p.rowCount, y i * (p.rowAt i).coefAt j + δ j) * x j =
        p.sign * (p.costAt j * x j) := by
    intro j hj
    rw [h.cost j (mem_range.1 hj), mul_assoc]
  rw [boundSum, sum_congr rfl hrow, sum_congr rfl hcolumn, sum_activities, sum_congr rfl hcost,
    ← mul_sum, valueOf, add_sub_cancel_left]

/-- Between the bounds of the columns, the rows together stay below their bounds. -/
theorem Refutes.sum_lt (h : p.Refutes y δ) (hx : p.Encloses x) :
    ∑ i ∈ range p.rowCount, y i * (p.rowAt i).activity p.columnCount x <
      ∑ i ∈ range p.rowCount,
        y i * (boundFor (y i) (p.rowAt i).lower (p.rowAt i).upper).value := by
  have hcolumns : ∀ j ∈ range p.columnCount,
      δ j * (boundFor (δ j) (p.columnAt j).lower (p.columnAt j).upper).value ≤ δ j * x j := by
    intro j hj
    obtain ⟨c, hc⟩ := exists_column_of_lt (mem_range.1 hj)
    rw [columnAt_of_getElem hc]
    exact mul_boundFor_le (h.column hc) (hx j c hc).1 (hx j c hc).2
  have hzero : ∑ j ∈ range p.columnCount,
      (∑ i ∈ range p.rowCount, y i * (p.rowAt i).coefAt j + δ j) * x j = 0 :=
    sum_eq_zero fun j hj => by rw [h.balance j (mem_range.1 hj), zero_mul]
  have hbalance := (sum_activities p x y δ).trans hzero
  have hpositive := h.positive
  have hle := sum_le_sum hcolumns
  rw [boundSum] at hpositive
  linarith

/-- What a refutation combines cannot hold together. -/
theorem Refutes.not_relaxed (h : p.Refutes y δ) (x : ℕ → ℚ) : ¬p.Relaxed x := by
  intro hx
  have hrows : ∀ i ∈ range p.rowCount,
      y i * (boundFor (y i) (p.rowAt i).lower (p.rowAt i).upper).value ≤
        y i * (p.rowAt i).activity p.columnCount x := by
    intro i hi
    obtain ⟨r, hr⟩ := exists_row_of_lt (mem_range.1 hi)
    rw [rowAt_of_getElem hr]
    have hholds := hx.holds r (List.mem_of_getElem? hr)
    exact mul_boundFor_le (h.row hr) hholds.1 hholds.2
  exact (h.sum_lt hx.encloses).not_ge (sum_le_sum hrows)

/-! ### Least violation -/

section
variable (p : Problem Extended)

/-- How many columns measure violations. -/
def slackCount : ℕ := 2 * p.restrictedRows.length

theorem columnCount_violationProblem :
    p.violationProblem.columnCount = p.columnCount + p.slackCount := by
  simp [columnCount, violationProblem, slackCount]

variable {p} {i j : ℕ}

theorem columns_violationProblem {c : Column Extended} (hc : p.columns[j]? = some c) :
    p.violationProblem.columns[j]? = some { c with cost := 0 } := by
  have hj : j < (p.columns.map fun c => { c with cost := 0 }).length := by
    rw [List.length_map]
    exact (List.getElem?_eq_some_iff.1 hc).1
  rw [violationProblem, List.getElem?_append_left hj, List.getElem?_map, hc]
  rfl

theorem slack_violationProblem {c : Column Extended} (hj : p.columnCount ≤ j)
    (hc : p.violationProblem.columns[j]? = some c) :
    c.lower = rat 0 ∧ c.upper = top ∧ c.cost = rat 1 := by
  have hlength : (p.columns.map fun c => { c with cost := 0 }).length = p.columnCount :=
    List.length_map _
  rw [violationProblem, List.getElem?_append_right (hlength.trans_le hj)] at hc
  rw [List.eq_of_mem_replicate (List.mem_of_getElem? hc)]
  exact ⟨rfl, rfl, rfl⟩

/-- A row keeps its bounds and, in the columns of the problem, its coefficients. -/
theorem rows_violationProblem {r : Row Extended} (hr : p.rows[i]? = some r) :
    ∃ s, p.violationProblem.rows[i]? = some s ∧ s.lower = r.lower ∧ s.upper = r.upper ∧
      ∀ j < p.columnCount, s.coefAt j = r.coefAt j := by
  have hentry : p.numberedRows[i]? = some (i + 1, r) := by
    have hi : i < p.rowCount := (List.getElem?_eq_some_iff.1 hr).1
    rw [numberedRows, List.getElem?_zip_eq_some]
    simp [hi, hr]
  rw [violationProblem, List.getElem?_map, hentry]
  refine ⟨_, rfl, ?_⟩
  dsimp only
  split
  · exact ⟨rfl, rfl, fun _ _ => rfl⟩
  · next k _ =>
    refine ⟨rfl, rfl, fun j hj => ?_⟩
    have hnone : [(p.columnCount + 1 + 2 * k, (1 : Extended)),
        (p.columnCount + 1 + 2 * k + 1, -1)].lookup (j + 1) = none := by
      rw [List.lookup_eq_none_iff]
      simp
      omega
    rw [Row.coefAt, Row.coefAt, Row.coef, Row.coef, List.lookup_append, hnone, Option.or_none]

theorem rowCount_violationProblem : p.violationProblem.rowCount = p.rowCount := by
  simp [rowCount, violationProblem, numberedRows]

theorem Balances.refutes {x y δ : ℕ → ℚ} (h : p.violationProblem.Balances x y δ)
    (hpositive : 0 < p.violationProblem.boundSum y δ) : p.Refutes y δ := by
  have hrow : ∀ {i r}, p.rows[i]? = some r → ∃ v : ℚ,
      (0 < y i → r.lower = rat v) ∧ (y i < 0 → r.upper = rat v) ∧
        (p.violationProblem.rowAt i).lower = r.lower ∧ (p.violationProblem.rowAt i).upper = r.upper ∧
        ∀ j < p.columnCount, (p.violationProblem.rowAt i).coefAt j = r.coefAt j := by
    intro i r hr
    obtain ⟨s, hs, hlower, hupper, hcoefs⟩ := rows_violationProblem hr
    rw [rowAt_of_getElem hs, ← hlower, ← hupper]
    exact ⟨_, (h.row hs).1, (h.row hs).2, rfl, rfl, hcoefs⟩
  refine ⟨fun j hj => ?_, fun {i r} hr hne => ?_, fun {j c} hc hne => ?_, ?_⟩
  · obtain ⟨c, hc⟩ := exists_column_of_lt hj
    have hbalance := h.cost j (by rw [columnCount_violationProblem]; omega)
    have hcost : p.violationProblem.costAt j = 0 := by
      rw [costAt, columns_violationProblem hc]
      rfl
    rw [hcost, mul_zero, rowCount_violationProblem] at hbalance
    rw [← hbalance]
    refine congrArg (· + δ j) (sum_congr rfl fun i hi => ?_)
    obtain ⟨r, hr⟩ := exists_row_of_lt (mem_range.1 hi)
    obtain ⟨v, -, -, -, -, hcoefs⟩ := hrow hr
    rw [rowAt_of_getElem hr, hcoefs j hj]
  · obtain ⟨v, hlower, hupper, -⟩ := hrow hr
    rw [boundFor_eq hne hlower hupper]
    exact isRat_rat v
  · have hcolumn := h.column (columns_violationProblem hc)
    rw [boundFor_eq hne hcolumn.1 hcolumn.2]
    exact isRat_rat _
  · have hslack : ∀ k ∈ range p.slackCount, δ (p.columnCount + k) *
        (boundFor (δ (p.columnCount + k)) (p.violationProblem.columnAt (p.columnCount + k)).lower
          (p.violationProblem.columnAt (p.columnCount + k)).upper).value = 0 := by
      intro k hk
      obtain ⟨c, hc⟩ := exists_column_of_lt (p := p.violationProblem) (j := p.columnCount + k) (by
        rw [columnCount_violationProblem]
        exact Nat.add_lt_add_left (mem_range.1 hk) _)
      obtain ⟨hlower, hupper, -⟩ := slack_violationProblem (Nat.le_add_right ..) hc
      rw [columnAt_of_getElem hc]
      obtain hneg | hzero | hpos := lt_trichotomy (δ (p.columnCount + k)) 0
      · cases hupper.symm.trans ((h.column hc).2 hneg)
      · rw [hzero, zero_mul]
      · rw [boundFor, if_pos hpos, hlower]
        exact mul_zero _
    rw [boundSum, columnCount_violationProblem, sum_range_add, sum_eq_zero hslack, add_zero,
      rowCount_violationProblem] at hpositive
    refine hpositive.trans_eq (congrArg₂ (· + ·) (sum_congr rfl fun i hi => ?_)
      (sum_congr rfl fun j hj => ?_))
    · obtain ⟨r, hr⟩ := exists_row_of_lt (mem_range.1 hi)
      obtain ⟨v, -, -, hlower, hupper, -⟩ := hrow hr
      rw [hlower, hupper, rowAt_of_getElem hr]
    · obtain ⟨c, hc⟩ := exists_column_of_lt (mem_range.1 hj)
      rw [columnAt_of_getElem hc, columnAt_of_getElem (columns_violationProblem hc)]

end

end Problem

/-! ### Solvers with marginals -/

/-- An optimum is answered with its marginals. -/
def Host.HasMarginals {σ : Type} (host : Host Extended σ) : Prop :=
  ∀ r w a, r.program.Rational → (host.solve r w).1 = .ok a → a.status = 0 → r.program.Marginal a

end MixedInteger
