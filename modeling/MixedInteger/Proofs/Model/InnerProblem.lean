import MixedInteger.Proofs.Model.Refutation
import MixedInteger.Proofs.Search.Termination

/-! The problem that a search is given, and what may keep the search from its beginning. Rounded
bounds have the kinds of their columns, and only infinities are taken for infinite. So no bound
that counts is fractional, and bounds that are not found to be crossed are in order. Without
integer variables it is the problem of the model. -/

namespace MixedInteger

open Extended

/-! ### The bounds that a search is given -/

/-- Bounds of a kind other than double are in order. -/
theorem le_of_boundKind {l u : Extended} (hsight : InSight l u)
    (hproper : Problem.ProperBounds l u) (hkind : boundKind l u ≠ .double) : l ≤ u := by
  have hinfinite : l = bottom ∨ u = top → l ≤ u := by
    rintro (rfl | rfl)
    · obtain rfl | hu := hproper.2
      · rfl
      · rw [hu.eq]
        exact bottom_le_rat _
    · obtain rfl | hl := hproper.1
      · rfl
      · rw [hl.eq]
        exact rat_le_top _
  unfold boundKind at hkind
  split_ifs at hkind with heq hl hu hu
  · obtain rfl := eq_of_beq heq
    obtain hbottom | hrat := hproper.1
    · exact hinfinite (.inl hbottom)
    · rw [hrat.eq, rat_le_rat]
  · exact hinfinite (.inl (hsight.lower hl))
  · exact hinfinite (.inl (hsight.lower hl))
  · exact hinfinite (.inr (hsight.upper hu))
  · exact absurd rfl hkind

namespace Column

/-- The kind of a column is that of its bounds, and only infinities are taken for infinite. -/
structure Seen (c : Column Extended) : Prop where
  bound : c.bound = boundKind c.lower c.upper
  sight : InSight c.lower c.upper

variable {c : Column Extended}

/-- A search sees columns of this kind. -/
theorem Seen.inner (h : c.Seen) (hl : LowerBound c.lower) (hu : UpperBound c.upper)
    (t : TypeState) : (c.inner t).Seen := by
  by_cases ht : t = .continuous
  · subst ht
    rwa [inner_continuous]
  obtain ⟨P, Q, hfloor, hceiling, -⟩ := integerBox_sides hl hu ht
  obtain ⟨hlower, hupper⟩ := bounds_inner hl hu ht
  refine ⟨?_, by rw [hlower, hupper]; exact ⟨hfloor.sight, hceiling.sight⟩⟩
  by_cases hrounds : c.rounds t = true
  · rw [hlower, hupper, Column.inner, if_pos hrounds]
    rfl
  · rw [Column.inner, if_neg hrounds]
    exact h.bound

/-- An integer passes the check of a search. -/
theorem check_intCast (k : ℤ) {o : Obstacle Extended}
    {rest : Except RoundingError (Option (Obstacle Extended))} :
    (do if !((rat k : Extended) == (← Scalar.floor (rat k))) then return some o else rest) =
      rest := by
  have hfloor : Scalar.floor (rat (k : ℚ)) = .ok (rat (k : ℚ)) := by
    change Except.ok (Scalar.ofInt (Scalar.floorInt (rat (k : ℚ)))) = _
    rw [floorInt_rat, Int.floor_intCast, ofInt_eq]
  have hsame : ((rat k : Extended) == rat k) = true := by
    rw [rat_beq_rat, decide_eq_true_eq]
  rw [hfloor, bind_ok, hsame]
  rfl

/-- No bound that counts is fractional when those that are finite are integers. -/
theorem Seen.fractionalBound (h : c.Seen) (hwhole : Problem.WholeBounds c.lower c.upper) (j : ℕ) :
    c.fractionalBound j = .ok none := by
  have hlower : c.bound.hasLower = true → ∃ k : ℤ, c.lower = rat k := by
    intro hcounts
    refine hwhole.1.resolve_left fun hbottom => ?_
    have hle : (bottom : Extended) ≤ -Scalar.largest := bottom_le_rat _
    rw [h.bound, boundKind, hbottom, if_pos hle] at hcounts
    split_ifs at hcounts with heq hu
    · have hupper := eq_of_beq heq
      obtain htop | ⟨k, hk⟩ := hwhole.2
      · cases hupper.trans htop
      · cases hupper.trans hk
    · cases hcounts
    · cases hcounts
  have hupper : c.bound.hasUpper = true → ∃ k : ℤ, c.upper = rat k := by
    intro hcounts
    refine hwhole.2.resolve_left fun htop => ?_
    have hle : Scalar.largest ≤ (top : Extended) := rat_le_top _
    rw [h.bound, boundKind, htop, if_pos hle, if_pos hle] at hcounts
    split_ifs at hcounts <;> cases hcounts
  unfold Column.fractionalBound
  by_cases hkind : c.kind = .integer
  swap
  · rw [if_pos hkind]
    rfl
  rw [if_neg (not_not.2 hkind)]
  dsimp only
  cases hl : c.bound.hasLower <;> cases hu : c.bound.hasUpper <;>
    simp only [Bool.false_eq_true, if_false, if_true]
  · rfl
  · obtain ⟨k, hk⟩ := hupper hu
    rw [hk]
    exact check_intCast k
  · obtain ⟨k, hk⟩ := hlower hl
    rw [hk]
    exact check_intCast k
  · obtain ⟨k, hk⟩ := hlower hl
    obtain ⟨n, hn⟩ := hupper hu
    rw [hk, hn]
    exact (check_intCast k).trans (check_intCast n)

end Column

namespace Model.Sound

variable {m : Model Extended} (hm : m.Sound)
include hm

theorem seen_column {i k : ℕ} {info : VariableInfo} {c : Column Extended}
    (hat : m.VariableAt i k info c) : c.Seen := by
  obtain ⟨L, hL, hcoherent⟩ := hm.ledger
  obtain ⟨r, hr, -, hholds⟩ := hL.recordAt hat
  have hr := hcoherent _ _ hr
  obtain ⟨hl, hu⟩ := hm.bounds_column hat
  exact ⟨hholds.bound hr.lower hr.upper, fun h => hl.eq_bottom h, fun h => hu.eq_top h⟩

theorem seen_inner {d : Column Extended} (hd : d ∈ m.inner.problem.columns) : d.Seen := by
  obtain ⟨j, hj⟩ := List.mem_iff_getElem?.1 hd
  obtain ⟨k, info, c, hat, rfl⟩ := hm.named.wf.exists_innerColumn hj
  obtain ⟨hl, hu⟩ := hm.bounds_column hat
  exact (hm.seen_column hat).inner hl hu _

/-- A model with integer variables has columns. -/
theorem columns_of_mixed (hmixed : m.IsMixed) : m.problem.columns ≠ [] := by
  obtain ⟨L, hL, -⟩ := hm.ledger
  have htyped : ∃ t, 0 < m.typed t := by
    rw [IsMixed, hL.binaries, hL.integers] at hmixed
    obtain hbinary | hinteger := hmixed
    · exact ⟨.binary, Int.natCast_pos.1 hbinary⟩
    · exact ⟨.integer, Int.natCast_pos.1 hinteger⟩
  obtain ⟨t, ht⟩ := htyped
  obtain ⟨e, he, -⟩ := List.countP_pos_iff.1 ht
  rw [← List.length_pos_iff, hm.named.wf.columnCount]
  exact List.length_pos_of_mem he

/-- Without integer variables nothing is rounded. -/
theorem inner_of_unmixed (hmixed : ¬m.IsMixed) : m.inner = m := by
  have hcolumns : m.innerColumns = m.problem.columns := by
    refine List.ext_getElem? fun j => ?_
    by_cases hj : j < m.problem.columnCount
    · obtain ⟨k, info, c, hat⟩ := hm.named.wf.variableAt_of_lt hj
      have htype : info.type = .continuous := by
        by_contra htype
        exact hm.kind_of_unmixed hmixed (List.mem_of_getElem? hat.column)
          ((hm.kind_column hat).2 htype)
      have hinner := hat.innerColumn
      rw [htype, Column.inner_continuous] at hinner
      exact hinner.trans hat.column.symm
    · have hlength : m.innerColumns.length = m.problem.columns.length := hm.named.wf.innerCount
      rw [List.getElem?_eq_none (not_lt.1 hj), List.getElem?_eq_none (hlength ▸ not_lt.1 hj)]
  unfold inner withColumns
  rw [hcolumns]

variable (hr : m.Rational)
include hr

/-- Bounds that are not found to be crossed are in order. -/
theorem ordered_inner (hbounds : m.inner.problem.badBounds = none) {j : ℕ}
    (hj : j < m.inner.problem.columnCount) :
    (m.inner.problem.rootBox j).1 ≤ (m.inner.problem.rootBox j).2 := by
  have hd := List.getElem?_eq_getElem hj
  have hmem := List.mem_of_getElem? hd
  rw [Problem.rootBox_eq hd]
  have huncrossed := (Problem.badBounds_eq_none_iff.1 hbounds).1 _ hmem
  obtain ⟨hbound, hsight⟩ := hm.seen_inner hmem
  by_cases hdouble : m.inner.problem.columns[j].bound = .double
  · rw [Problem.crossed, hdouble] at huncrossed
    have hlt : m.inner.problem.columns[j].lower < m.inner.problem.columns[j].upper := by
      simpa using huncrossed
    exact (OrderedScalar.lt_iff.1 hlt).1
  · exact le_of_boundKind hsight ((hm.rational_inner hr).proper _ hmem) (hbound ▸ hdouble)

/-- Only crossed bounds keep a search from its beginning. -/
theorem obstacle_inner : Search.obstacle m.inner.problem = .ok m.inner.problem.badBounds := by
  have hwhole : m.inner.problem.fractionalBounds = .ok none := by
    refine firstFractional_eq_none fun e he => ?_
    obtain ⟨j, d, hd, rfl⟩ := Problem.mem_numberedColumns.1 he
    have hmem := List.mem_of_getElem? hd
    by_cases hkind : d.kind = .integer
    · exact (hm.seen_inner hmem).fractionalBound ((hm.rational_inner hr).whole _ hmem hkind) _
    · unfold Column.fractionalBound
      rw [if_pos hkind]
      rfl
  unfold Search.obstacle
  rw [hwhole]
  rfl

end Model.Sound

end MixedInteger
