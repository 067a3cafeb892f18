import MixedInteger.Proofs.Problem.Point
import MixedInteger.Solver.Request

/-! What an exact solver answers: an optimum where there is one, and otherwise whether the
program is infeasible or unbounded. The program of a problem has the points of its
relaxation, and its cost is the objective turned into one to minimise. -/

namespace MixedInteger

open Extended Finset

namespace LinearProgram

variable (lp : LinearProgram Extended) (x : ℕ → ℚ)

/-- The values of a point in the columns of the program. -/
def values : List Extended := firstValues lp.cost.length x

structure Satisfied : Prop where
  ub : ∀ e ∈ (lp.ubMatrix.getD []).zip (lp.ubBound.getD []), dot e.1 (lp.values x) ≤ e.2
  eq : ∀ e ∈ (lp.eqMatrix.getD []).zip (lp.eqBound.getD []), dot e.1 (lp.values x) = e.2
  bounds : ∀ e ∈ lp.bounds.zip (lp.values x),
    (∀ l, e.1.1 = some l → l ≤ e.2) ∧ ∀ u, e.1.2 = some u → e.2 ≤ u

/-- All data are rational, and the sizes fit. -/
structure Rational : Prop where
  cost : ∀ c ∈ lp.cost, c.IsRat
  ubMatrix : ∀ row ∈ lp.ubMatrix.getD [], row.length = lp.cost.length ∧ ∀ a ∈ row, a.IsRat
  eqMatrix : ∀ row ∈ lp.eqMatrix.getD [], row.length = lp.cost.length ∧ ∀ a ∈ row, a.IsRat
  ubBound : ∀ b ∈ lp.ubBound.getD [], b.IsRat
  eqBound : ∀ b ∈ lp.eqBound.getD [], b.IsRat
  bounds : ∀ b ∈ lp.bounds, (∀ l, b.1 = some l → l.IsRat) ∧ ∀ u, b.2 = some u → u.IsRat
  ubLength : (lp.ubMatrix.getD []).length = (lp.ubBound.getD []).length
  eqLength : (lp.eqMatrix.getD []).length = (lp.eqBound.getD []).length
  boundsLength : lp.bounds.length = lp.cost.length

/-- An answer that is right for a program. -/
inductive Answers : Answer Extended → Prop where
  | optimum {a : Answer Extended} {x : ℕ → ℚ} : a.status = 0 → a.point = lp.values x →
      a.value = dot lp.cost (lp.values x) → lp.Satisfied x →
      (∀ y, lp.Satisfied y → dot lp.cost (lp.values x) ≤ dot lp.cost (lp.values y)) → Answers a
  | infeasible {a : Answer Extended} : a.status = 2 → (∀ y, ¬lp.Satisfied y) → Answers a
  | unbounded {a : Answer Extended} : a.status = 3 →
      (∀ b : ℚ, ∃ y, lp.Satisfied y ∧ dot lp.cost (lp.values y) < rat b) → Answers a

end LinearProgram

/-- A host that answers rightly whenever it answers. -/
def Host.IsExact {σ : Type} (host : Host Extended σ) : Prop :=
  ∀ r w a, r.program.Rational → (host.solve r w).1 = .ok a → r.program.Answers a

/-- The point is one that the host answers with, as an optimum of the relaxation. -/
def Host.Answered {σ : Type} (host : Host Extended σ) (p : Problem Extended) (x : ℕ → ℚ) : Prop :=
  ∃ r w a, r.program = p.linearProgram ∧ (host.solve r w).1 = .ok a ∧ a.status = 0 ∧
    a.point = firstValues p.columnCount x

/-! ### The program of a problem -/

theorem mem_zip_firstValues {β : Type} {xs : List β} {x : ℕ → ℚ} {e : β × Extended} :
    e ∈ xs.zip (firstValues xs.length x) ↔ ∃ j b, xs[j]? = some b ∧ e = (b, rat (x j)) := by
  rw [List.mem_iff_getElem?]
  refine exists_congr fun j => ?_
  rw [List.getElem?_zip_eq_some, firstValues, List.getElem?_map]
  constructor
  · rintro ⟨hb, hx⟩
    have hj := (List.getElem?_eq_some_iff.1 hb).1
    rw [List.getElem?_range hj, Option.map_some, Option.some.injEq] at hx
    exact ⟨e.1, hb, by rw [hx]⟩
  · rintro ⟨b, hb, rfl⟩
    have hj := (List.getElem?_eq_some_iff.1 hb).1
    exact ⟨hb, by rw [List.getElem?_range hj]; rfl⟩

theorem getD_someUnlessEmpty {β : Type} (xs : List β) : (someUnlessEmpty xs).getD [] = xs := by
  cases xs <;> rfl

theorem isRat_of_finite? {x y : Extended} (hx : Scalar.isInf x = true ∨ x.IsRat)
    (h : finite? x = some y) : y.IsRat := by
  unfold finite? at h
  split_ifs at h with hinf
  cases h
  exact hx.resolve_left hinf

namespace Row

variable {r : Row Extended} {n : ℕ} {x : ℕ → ℚ}

theorem length_dense (r : Row Extended) (n : ℕ) : (r.dense n).length = n := by simp [dense]

theorem isRat_dense (hr : ∀ e ∈ r.coefs, e.2.IsRat) : ∀ a ∈ r.dense n, a.IsRat := by
  intro a ha
  rw [dense_eq n hr] at ha
  obtain ⟨j, -, rfl⟩ := List.mem_map.1 ha
  exact isRat_rat _

theorem dot_negated (hr : ∀ e ∈ r.coefs, e.2.IsRat) :
    dot (negated (r.dense n)) (firstValues n x) = rat (-r.activity n x) := by
  have hneg : negated (r.dense n) = firstValues n fun j => -r.coefAt j := by
    rw [dense_eq n hr, negated, firstValues, List.map_map]
    rfl
  rw [hneg, dot_firstValues, activity, ← sum_neg_distrib]
  simp

end Row

namespace Problem

/-- The program has the columns of the problem. -/
theorem values_linearProgram (p : Problem Extended) (x : ℕ → ℚ) :
    p.linearProgram.values x = firstValues p.columnCount x :=
  congrArg (firstValues · x) (List.length_map _)

variable {p : Problem Extended} (hp : p.Rational) {x : ℕ → ℚ}

theorem mem_numberedRows {e : ℕ × Row Extended} (he : e ∈ p.numberedRows) : e.2 ∈ p.rows :=
  (List.of_mem_zip he).2

theorem exists_numberedRows {r : Row Extended} (hr : r ∈ p.rows) :
    ∃ i, (i, r) ∈ p.numberedRows := by
  have hrows : p.numberedRows.map (·.2) = p.rows :=
    List.map_snd_zip (by simp [rowCount])
  rw [← hrows] at hr
  obtain ⟨⟨i, r'⟩, he, rfl⟩ := List.mem_map.1 hr
  exact ⟨i, he⟩

theorem mem_inequalities {e : Inequality Extended} : e ∈ p.inequalities ↔
    ∃ i, ∃ r ∈ p.rows, (i, r) ∈ p.numberedRows ∧
      e ∈ r.inequalities (i - 1) (r.dense p.columnCount) := by
  unfold inequalities
  rw [List.mem_flatMap]
  constructor
  · rintro ⟨⟨i, r⟩, he, hi⟩
    exact ⟨i, r, mem_numberedRows he, he, hi⟩
  · rintro ⟨i, r, -, he, hi⟩
    exact ⟨(i, r), he, hi⟩

include hp

/-- The sides of a row that its kind does not use are infinite. -/
theorem Rational.holds_iff {r : Row Extended} (hr : r ∈ p.rows) : r.Holds p.columnCount x ↔
    (r.bound.hasLower = true → r.lower ≤ rat (r.activity p.columnCount x)) ∧
      (r.bound.hasUpper = true ∨ r.bound = .fixed → rat (r.activity p.columnCount x) ≤ r.upper) := by
  have hsides := Prod.ext_iff.1 (hp.rows r hr).sides
  unfold Row.Holds
  constructor
  · exact fun h => ⟨fun _ => h.1, fun _ => h.2⟩
  · intro h
    cases hb : r.bound <;> simp only [hb, BoundKind.sides, BoundKind.hasLower, BoundKind.hasUpper,
      infinity_eq, neg_top, true_imp_iff, reduceCtorEq, or_true, or_false, or_self, false_imp_iff,
      Bool.false_eq_true, true_and, and_true] at hsides h
    · exact ⟨by rw [← hsides.1]; exact bottom_le_rat _, by rw [← hsides.2]; exact rat_le_top _⟩
    · exact ⟨h, by rw [← hsides]; exact rat_le_top _⟩
    · exact ⟨by rw [← hsides]; exact bottom_le_rat _, h⟩
    · exact h
    · exact h

/-- A row holds when its inequalities do, or its equation. -/
theorem Rational.holds_iff_inequalities {r : Row Extended} (hr : r ∈ p.rows) (i : ℕ) :
    r.Holds p.columnCount x ↔
      (∀ e ∈ r.inequalities i (r.dense p.columnCount),
        dot e.coefs (firstValues p.columnCount x) ≤ e.bound) ∧
      (r.bound = .fixed →
        dot (r.dense p.columnCount) (firstValues p.columnCount x) = r.lower) := by
  have hdot := Row.dot_dense p.columnCount x (hp.rows r hr).coefs
  have hneg := Row.dot_negated (n := p.columnCount) (x := x) (hp.rows r hr).coefs
  have hlower : r.bound.hasLower = true → (rat (-r.activity p.columnCount x) ≤ -r.lower ↔
      r.lower ≤ rat (r.activity p.columnCount x)) := by
    intro hb
    rw [((hp.rows r hr).lower hb).eq, neg_rat, rat_le_rat, rat_le_rat, neg_le_neg_iff]
  rw [hp.holds_iff hr, hdot]
  cases hb : r.bound <;> rw [hb] at hlower <;> unfold Row.inequalities <;>
    simp only [hb, BoundKind.hasLower, BoundKind.hasUpper, Bool.false_eq_true, reduceCtorEq,
      false_imp_iff, true_imp_iff, true_and, and_true, or_false, or_self, or_true, List.not_mem_nil,
      implies_true, List.mem_cons, forall_eq, forall_eq_or_imp, hdot, hneg] at hlower ⊢
  · exact hlower.symm
  · rw [hlower, and_comm]
  · have hsides := (hp.rows r hr).sides
    rw [hb] at hsides
    have hupper : r.lower = r.upper := congrArg Prod.snd hsides
    have hrat := (hp.rows r hr).lower (by rw [hb]; rfl)
    rw [← hupper, hrat.eq, rat_le_rat, rat_le_rat, rat_inj]
    constructor
    · exact fun h => le_antisymm h.2 h.1
    · exact fun h => ⟨h.ge, h.le⟩

/-- The program has the points of the relaxation. -/
theorem Rational.satisfied_iff : p.linearProgram.Satisfied x ↔ p.Relaxed x := by
  have hlength : p.linearProgram.cost.length = p.columnCount := List.length_map _
  have hub : (p.linearProgram.ubMatrix.getD []).zip (p.linearProgram.ubBound.getD []) =
      p.inequalities.map fun e => (e.coefs, e.bound) := by
    simp only [linearProgram, getD_someUnlessEmpty]
    exact List.zip_map' ..
  have heq : (p.linearProgram.eqMatrix.getD []).zip (p.linearProgram.eqBound.getD []) =
      p.equalities.map fun e => (e.2.dense p.columnCount, e.2.lower) := by
    simp only [linearProgram, getD_someUnlessEmpty]
    exact List.zip_map' ..
  have hbounds : p.linearProgram.bounds.length = p.columnCount := List.length_map _
  have hfinite : ∀ c ∈ p.columns, ∀ v : ℚ,
      ((∀ l, finite? c.lower = some l → l ≤ rat v) ∧ ∀ u, finite? c.upper = some u → rat v ≤ u) ↔
        c.lower ≤ rat v ∧ rat v ≤ c.upper := by
    intro c hc v
    obtain ⟨hl, hu⟩ := hp.proper c hc
    refine and_congr ?_ ?_
    · rcases hl with hl | hl
      · simp [hl, finite?]
      · rw [hl.eq]
        simp [finite?]
    · rcases hu with hu | hu
      · simp [hu, finite?]
      · rw [hu.eq]
        simp [finite?]
  constructor
  · intro h
    refine ⟨fun {j c} hc => ?_, fun r hr => ?_⟩
    · refine (hfinite c (List.mem_of_getElem? hc) (x j)).1 (h.bounds ((finite? c.lower,
        finite? c.upper), rat (x j)) ?_)
      rw [LinearProgram.values, hlength, ← hbounds, mem_zip_firstValues]
      refine ⟨j, _, ?_, rfl⟩
      simp [linearProgram, hc]
    · obtain ⟨i, hi⟩ := exists_numberedRows hr
      refine (hp.holds_iff_inequalities hr (i - 1)).2 ⟨fun e he => ?_, fun hb => ?_⟩
      · have hmem : (e.coefs, e.bound) ∈ p.inequalities.map fun e => (e.coefs, e.bound) :=
          List.mem_map.2 ⟨e, mem_inequalities.2 ⟨i, r, hr, hi, he⟩, rfl⟩
        have := h.ub _ (hub ▸ hmem)
        rwa [LinearProgram.values, hlength] at this
      · have hmem : (r.dense p.columnCount, r.lower) ∈
            p.equalities.map fun e => (e.2.dense p.columnCount, e.2.lower) :=
          List.mem_map.2 ⟨(i, r), List.mem_filter.2 ⟨hi, by simpa using hb⟩, rfl⟩
        have := h.eq _ (heq ▸ hmem)
        rwa [LinearProgram.values, hlength] at this
  · intro h
    refine ⟨fun e he => ?_, fun e he => ?_, fun e he => ?_⟩
    · rw [hub] at he
      obtain ⟨q, hq, rfl⟩ := List.mem_map.1 he
      obtain ⟨i, r, hr, -, hi⟩ := mem_inequalities.1 hq
      rw [LinearProgram.values, hlength]
      exact ((hp.holds_iff_inequalities hr (i - 1)).1 (h.holds r hr)).1 q hi
    · rw [heq] at he
      obtain ⟨⟨i, r⟩, hi, rfl⟩ := List.mem_map.1 he
      obtain ⟨hmem, hfixed⟩ := List.mem_filter.1 hi
      have hr := mem_numberedRows hmem
      rw [LinearProgram.values, hlength]
      exact ((hp.holds_iff_inequalities hr 0).1 (h.holds r hr)).2 (by simpa using hfixed)
    · rw [LinearProgram.values, hlength, ← hbounds, mem_zip_firstValues] at he
      obtain ⟨j, b, hb, rfl⟩ := he
      simp only [linearProgram, List.getElem?_map, Option.map_eq_some_iff] at hb
      obtain ⟨c, hc, rfl⟩ := hb
      exact (hfinite c (List.mem_of_getElem? hc) (x j)).2 (h.within hc)

theorem Rational.cost_eq :
    p.linearProgram.cost = firstValues p.columnCount fun j => p.sign * p.costAt j := by
  have hlength : p.linearProgram.cost.length = p.columnCount := List.length_map _
  refine List.ext_getElem (by simp [hlength]) fun j hj hj' => ?_
  have hc : j < p.columns.length := by rwa [hlength] at hj
  have hrat := hp.cost _ (List.getElem_mem hc)
  simp only [linearProgram, firstValues, List.getElem_map, List.getElem_range, costAt,
    List.getElem?_eq_getElem hc, Option.map_some, Option.getD_some, sense_eq]
  rw [hrat.eq]
  rfl

/-- The cost of the program is the objective to minimise, without its constant. -/
theorem Rational.dot_cost (x : ℕ → ℚ) :
    dot p.linearProgram.cost (p.linearProgram.values x) =
      rat (p.sign * (p.valueOf x - p.constant.value)) := by
  rw [LinearProgram.values, hp.cost_eq, length_firstValues, Row.dot_firstValues, valueOf,
    add_sub_cancel_left, mul_sum]
  simp only [mul_assoc]

theorem Rational.linearProgram : p.linearProgram.Rational := by
  have hlength : p.linearProgram.cost.length = p.columnCount := List.length_map _
  have hneg : ∀ a : Extended, a.IsRat → (-a).IsRat := by
    intro a ha
    rw [ha.eq, neg_rat]
    exact isRat_rat _
  have hineq : ∀ e ∈ p.inequalities,
      (e.coefs.length = p.columnCount ∧ ∀ a ∈ e.coefs, a.IsRat) ∧ e.bound.IsRat := by
    intro e he
    obtain ⟨i, r, hr, -, hi⟩ := mem_inequalities.1 he
    have hdense := Row.isRat_dense (n := p.columnCount) (hp.rows r hr).coefs
    have hupper : r.bound.hasUpper = true → ((r.dense p.columnCount).length = p.columnCount ∧
        ∀ a ∈ r.dense p.columnCount, a.IsRat) ∧ r.upper.IsRat :=
      fun hb => ⟨⟨r.length_dense _, hdense⟩, (hp.rows r hr).upper hb⟩
    have hlower : r.bound.hasLower = true →
        ((negated (r.dense p.columnCount)).length = p.columnCount ∧
          ∀ a ∈ negated (r.dense p.columnCount), a.IsRat) ∧ (-r.lower).IsRat := by
      intro hb
      refine ⟨⟨by simp [negated, r.length_dense], fun a ha => ?_⟩, hneg _ ((hp.rows r hr).lower hb)⟩
      obtain ⟨b, hb, rfl⟩ := List.mem_map.1 ha
      exact hneg b (hdense b hb)
    unfold Row.inequalities at hi
    cases hb : r.bound <;> simp only [hb, List.not_mem_nil, List.mem_cons, or_false] at hi
    · exact hi ▸ hlower (by rw [hb]; rfl)
    · exact hi ▸ hupper (by rw [hb]; rfl)
    · rcases hi with rfl | rfl
      · exact hupper (by rw [hb]; rfl)
      · exact hlower (by rw [hb]; rfl)
  have heq : ∀ e ∈ p.equalities, e.2 ∈ p.rows ∧ e.2.bound.hasLower = true := by
    intro e he
    obtain ⟨hmem, hfixed⟩ := List.mem_filter.1 he
    rw [of_decide_eq_true hfixed]
    exact ⟨mem_numberedRows hmem, rfl⟩
  constructor
  · intro c hc
    obtain ⟨d, hd, rfl⟩ := List.mem_map.1 hc
    rw [sense_eq, (hp.cost d hd).eq]
    exact isRat_rat _
  · intro row hrow
    simp only [Problem.linearProgram, getD_someUnlessEmpty] at hrow
    obtain ⟨e, he, rfl⟩ := List.mem_map.1 hrow
    rw [hlength]
    exact (hineq e he).1
  · intro row hrow
    simp only [Problem.linearProgram, getD_someUnlessEmpty] at hrow
    obtain ⟨e, he, rfl⟩ := List.mem_map.1 hrow
    rw [hlength]
    exact ⟨e.2.length_dense _, Row.isRat_dense (hp.rows _ (heq e he).1).coefs⟩
  · intro b hb
    simp only [Problem.linearProgram, getD_someUnlessEmpty] at hb
    obtain ⟨e, he, rfl⟩ := List.mem_map.1 hb
    exact (hineq e he).2
  · intro b hb
    simp only [Problem.linearProgram, getD_someUnlessEmpty] at hb
    obtain ⟨e, he, rfl⟩ := List.mem_map.1 hb
    exact (hp.rows _ (heq e he).1).lower (heq e he).2
  · intro b hb
    obtain ⟨c, hc, rfl⟩ := List.mem_map.1 hb
    obtain ⟨hl, hu⟩ := hp.proper c hc
    exact ⟨fun l => isRat_of_finite? (hl.imp_left fun h => by rw [h]; rfl),
      fun u => isRat_of_finite? (hu.imp_left fun h => by rw [h]; rfl)⟩
  · simp [Problem.linearProgram, getD_someUnlessEmpty]
  · simp [Problem.linearProgram, getD_someUnlessEmpty]
  · simp [Problem.linearProgram]

end Problem

end MixedInteger
