import MixedInteger.Proofs.Model.CrossedBounds

/-! Boxes of columns, on doubles, as sets of exact values. A bound that is infinite on its own side
admits every value. Rounded inwards, a box has the integers that it had before, and the box of a
binary has zero and one at most. What is stored of the rounded pair admits the same values, as a
bound is only dropped where it is infinite, and the bounds that count are integers. A box without
any value is one whose bounds are found to be crossed. -/

namespace MixedInteger

open Scalar ValuedScalar OrderedScalar

/-! ### Sides -/

/-- The value is not less than a lower bound. -/
def Above (l : Float) (q : ℚ) : Prop := (l == -infinity) = true ∨ isFinite l = true ∧ value l ≤ q

/-- The value is not greater than an upper bound. -/
def Below (u : Float) (q : ℚ) : Prop := (u == infinity) = true ∨ isFinite u = true ∧ q ≤ value u

section
variable {x y l l' u u' : Float} {q : ℚ}

theorem isFinite_of_beq (h : (x == y) = true) (hx : isFinite x = true) : isFinite y = true :=
  isFinite_between hx hx (beq_iff.1 h).1 (beq_iff.1 h).2

theorem above_iff (hl : isFinite l = true) : Above l q ↔ value l ≤ q :=
  ⟨fun h => (h.resolve_left (not_beq_neg_infinity hl)).2, fun h => .inr ⟨hl, h⟩⟩

theorem below_iff (hu : isFinite u = true) : Below u q ↔ q ≤ value u :=
  ⟨fun h => (h.resolve_left (not_beq_infinity hu)).2, fun h => .inr ⟨hu, h⟩⟩

theorem Above.congr (h : (l == l') = true) (hq : Above l q) : Above l' q := by
  obtain hinfinite | ⟨hfinite, hle⟩ := hq
  · exact .inl (beq_trans (beq_symm h) hinfinite)
  · have hfinite' := isFinite_of_beq h hfinite
    exact .inr ⟨hfinite', (beq_iff_value hfinite hfinite').1 h ▸ hle⟩

theorem Below.congr (h : (u == u') = true) (hq : Below u q) : Below u' q := by
  obtain hinfinite | ⟨hfinite, hle⟩ := hq
  · exact .inl (beq_trans (beq_symm h) hinfinite)
  · have hfinite' := isFinite_of_beq h hfinite
    exact .inr ⟨hfinite', (beq_iff_value hfinite hfinite').1 h ▸ hle⟩

theorem above_congr (h : (l == l') = true) : Above l q ↔ Above l' q :=
  ⟨fun hq => hq.congr h, fun hq => hq.congr (beq_symm h)⟩

theorem below_congr (h : (u == u') = true) : Below u q ↔ Below u' q :=
  ⟨fun hq => hq.congr h, fun hq => hq.congr (beq_symm h)⟩

theorem RegularBounds.congr (h : RegularBounds l u) (hl : (l == l') = true)
    (hu : (u == u') = true) : RegularBounds l' u' :=
  ⟨h.lower.imp (isFinite_of_beq hl) (beq_trans (beq_symm hl)),
    h.upper.imp (isFinite_of_beq hu) (beq_trans (beq_symm hu))⟩

theorem isFinite_largest : isFinite (largest : Float) = true := by decide

/-- What lies strictly inside the range of numbers is finite. -/
theorem LowerBound.finite_or (h : LowerBound l) : isFinite l = true ∨ (l == -infinity) = true :=
  h.symm.imp (fun ⟨hlower, hupper⟩ => isFinite_between (isFinite_neg isFinite_largest)
    isFinite_largest (lt_iff.1 hlower).1 (lt_iff.1 hupper).1) id

theorem UpperBound.finite_or (h : UpperBound u) : isFinite u = true ∨ (u == infinity) = true :=
  h.symm.imp (fun ⟨hlower, hupper⟩ => isFinite_between (isFinite_neg isFinite_largest)
    isFinite_largest (lt_iff.1 hlower).1 (lt_iff.1 hupper).1) id

end

/-! ### Rounded sides -/

section
variable {l u : Float} {q : ℚ}

theorem isFinite_one : isFinite (1 : Float) = true := by decide

theorem value_one : value (1 : Float) = 1 := by
  have hone : (ofInt 1 : Float) = 1 := by decide +kernel
  have hfits : DoubleValue.Fits 1 := ⟨1, 0, by norm_num, by norm_num, by norm_num⟩
  have h := (DoubleValue.ofInt_exact hfits).2
  rw [hone] at h
  exact h.trans Int.cast_one

/-- The integers above a bound are those above its ceiling. -/
theorem above_ceil_iff (hl : isFinite l = true) {z : ℤ} :
    Above (ofInt (ceilInt l)) z ↔ Above l z := by
  rw [above_iff (isIntegral_ceil hl).1, above_iff hl, ceilInt_eq hl, value_ceil hl, Int.cast_le,
    Int.ceil_le]

theorem below_floor_iff (hu : isFinite u = true) {z : ℤ} :
    Below (ofInt (floorInt u)) z ↔ Below u z := by
  rw [below_iff (isIntegral_floor hu).1, below_iff hu, floorInt_eq hu, value_floor hu,
    Int.cast_le, Int.le_floor]

theorem above_larger_zero_iff (hl : isFinite l = true ∨ (l == -infinity) = true) :
    Above (larger 0 l) q ↔ 0 ≤ q ∧ Above l q := by
  have hzero : Above 0 q ↔ 0 ≤ q := by rw [above_iff isFinite_zero, value_zero]
  unfold larger
  obtain hl | hl := hl
  · split_ifs with hlt
    · have hle := (le_iff isFinite_zero hl).1 (lt_iff.1 hlt).1
      rw [above_iff hl, ← value_zero (α := Float)]
      exact ⟨fun h => ⟨hle.trans h, h⟩, And.right⟩
    · have hle := (le_iff hl isFinite_zero).1
        (le_of_not_lt isNaN_zero (isFinite_iff.1 hl).1 hlt)
      rw [hzero, above_iff hl]
      exact ⟨fun h => ⟨h, hle.trans (value_zero (α := Float) ▸ h)⟩, And.left⟩
  · have hlt : ¬0 < l := fun hlt => not_le_of_lt hlt
      (le_trans (beq_iff.1 hl).1 (neg_infinity_le isNaN_zero))
    rw [if_neg hlt, hzero]
    exact ⟨fun h => ⟨h, .inl hl⟩, And.left⟩

theorem below_smaller_one_iff (hu : isFinite u = true ∨ (u == infinity) = true) :
    Below (smaller 1 u) q ↔ q ≤ 1 ∧ Below u q := by
  have hone : Below 1 q ↔ q ≤ 1 := by rw [below_iff isFinite_one, value_one]
  unfold smaller
  obtain hu | hu := hu
  · split_ifs with hlt
    · have hle := (le_iff hu isFinite_one).1 (lt_iff.1 hlt).1
      rw [value_one] at hle
      rw [below_iff hu]
      exact ⟨fun h => ⟨h.trans hle, h⟩, And.right⟩
    · have hle := (le_iff isFinite_one hu).1
        (le_of_not_lt (isFinite_iff.1 hu).1 (isFinite_iff.1 isFinite_one).1 hlt)
      rw [value_one] at hle
      rw [hone, below_iff hu]
      exact ⟨fun h => ⟨h, h.trans hle⟩, And.left⟩
  · have hlt : ¬u < 1 := fun hlt => not_le_of_lt hlt
      (le_trans (le_infinity (isFinite_iff.1 isFinite_one).1) (beq_iff.1 hu).2)
    rw [if_neg hlt, hone]
    exact ⟨fun h => ⟨h, .inl hu⟩, And.left⟩

end

/-- A lower end is an integer above the least number, or infinite. -/
def LowerEnd (l : Float) : Prop := IsIntegral l ∧ -largest < l ∨ (l == -infinity) = true

/-- An upper end is an integer below the largest number, or infinite. -/
def UpperEnd (u : Float) : Prop := IsIntegral u ∧ u < largest ∨ (u == infinity) = true

section
variable {x l u : Float}

theorem isIntegral_of_beq (h : (l == x) = true) (hx : IsIntegral x) : IsIntegral l := by
  have hfinite := isFinite_of_beq (beq_symm h) hx.1
  obtain ⟨z, hz⟩ := hx.2
  exact ⟨hfinite, z, ((beq_iff_value hfinite hx.1).1 h).trans hz⟩

theorem LowerEnd.infinite_of_le (h : LowerEnd l) (hle : l ≤ -largest) :
    (l == -infinity) = true := h.resolve_left fun hl => not_le_of_lt hl.2 hle

theorem UpperEnd.infinite_of_le (h : UpperEnd u) (hle : largest ≤ u) : (u == infinity) = true :=
  h.resolve_left fun hu => not_le_of_lt hu.2 hle

theorem LowerEnd.isIntegral_of_eq (h : LowerEnd l) (hx : (x == l) = true)
    (hfinite : isFinite x = true) : IsIntegral x :=
  isIntegral_of_beq hx
    (h.resolve_right fun hl => not_beq_neg_infinity hfinite (beq_trans hx hl)).1

theorem UpperEnd.isIntegral_of_eq (h : UpperEnd u) (hx : (x == u) = true)
    (hfinite : isFinite x = true) : IsIntegral x :=
  isIntegral_of_beq hx
    (h.resolve_right fun hu => not_beq_infinity hfinite (beq_trans hx hu)).1

end

/-! ### Columns -/

namespace Column

variable {c : Column Float} {t : TypeState}

/-- The value lies in the box of the column. -/
def Contains (c : Column Float) (q : ℚ) : Prop := Above c.lower q ∧ Below c.upper q

/-- The bounds are numbers below the largest one or infinite on their own sides, and are stored as
such bounds are. -/
structure Ranged (c : Column Float) : Prop where
  lower : LowerBound c.lower
  upper : UpperBound c.upper
  settled : c.Settled

namespace Ranged

variable (h : c.Ranged)
include h

theorem regular : c.Regular := ⟨h.lower.finite_or, h.upper.finite_or⟩

/-- The integers in the rounded box, which are the bits for a binary. -/
theorem integerBox_iff (t : TypeState) {z : ℤ} :
    Above (Solving.integerBox t c).1 z ∧ Below (Solving.integerBox t c).2 z ↔
      c.Contains z ∧ (t = .binary → z = 0 ∨ z = 1) := by
  let lower := if isFinite c.lower then ofInt (ceilInt c.lower) else c.lower
  let upper := if isFinite c.upper then ofInt (floorInt c.upper) else c.upper
  have hlower : (isFinite lower = true ∨ (lower == -infinity) = true) ∧
      (Above lower z ↔ Above c.lower z) := by
    dsimp only [lower]
    split_ifs with hl
    · exact ⟨.inl (isIntegral_ceil hl).1, above_ceil_iff hl⟩
    · exact ⟨h.regular.lower, Iff.rfl⟩
  have hupper : (isFinite upper = true ∨ (upper == infinity) = true) ∧
      (Below upper z ↔ Below c.upper z) := by
    dsimp only [upper]
    split_ifs with hu
    · exact ⟨.inl (isIntegral_floor hu).1, below_floor_iff hu⟩
    · exact ⟨h.regular.upper, Iff.rfl⟩
  have hbox : Solving.integerBox t c =
      if t = .binary then (larger 0 lower, smaller 1 upper) else (lower, upper) := rfl
  rw [hbox, Contains, ← hlower.2, ← hupper.2]
  clear_value lower upper
  by_cases ht : t = .binary
  · have hbit : (0 : ℚ) ≤ z ∧ (z : ℚ) ≤ 1 ↔ z = 0 ∨ z = 1 := by
      rw [Int.cast_nonneg_iff, ← Int.cast_one, Int.cast_le]
      omega
    rw [if_pos ht, above_larger_zero_iff hlower.1, below_smaller_one_iff hupper.1,
      forall_prop_of_true ht, ← hbit, and_and_and_comm, and_comm]
  · rw [if_neg ht, forall_prop_of_false ht, and_true]

/-- The ends of a rounded box are integers inside the range of numbers on their sides, or infinite
there. -/
theorem integerBox_ends (t : TypeState) :
    LowerEnd (Solving.integerBox t c).1 ∧ UpperEnd (Solving.integerBox t c).2 := by
  have hlower : LowerEnd (if isFinite c.lower then ofInt (ceilInt c.lower) else c.lower) := by
    split_ifs with hl
    · obtain hinfinite | ⟨hlt, -⟩ := h.lower
      · exact absurd hinfinite (not_beq_neg_infinity hl)
      · exact .inl ⟨isIntegral_ceil hl, lt_of_lt_of_le hlt (le_ceil hl)⟩
    · exact .inr (h.regular.lower.resolve_left hl)
  have hupper : UpperEnd (if isFinite c.upper then ofInt (floorInt c.upper) else c.upper) := by
    split_ifs with hu
    · obtain hinfinite | ⟨-, hlt⟩ := h.upper
      · exact absurd hinfinite (not_beq_infinity hu)
      · exact .inl ⟨isIntegral_floor hu, lt_of_le_of_lt (floor_le hu) hlt⟩
    · exact .inr (h.regular.upper.resolve_left hu)
  have hzero : LowerEnd 0 := .inl ⟨⟨isFinite_zero, 0, by rw [value_zero, Int.cast_zero]⟩, by decide⟩
  have hone : UpperEnd 1 := .inl ⟨⟨isFinite_one, 1, by rw [value_one, Int.cast_one]⟩, by decide⟩
  unfold Solving.integerBox
  dsimp only
  by_cases ht : t = .binary
  · rw [if_pos ht]
    exact ⟨larger_of hzero hlower, smaller_of hone hupper⟩
  · rw [if_neg ht]
    exact ⟨hlower, hupper⟩

/-- The box that a search sees is the rounded one, whether it had to be written or not. -/
theorem inner_beq (ht : t ≠ .continuous) :
    ((c.inner t).lower == (Solving.integerBox t c).1) = true ∧
      ((c.inner t).upper == (Solving.integerBox t c).2) = true := by
  obtain ⟨hlower, hupper⟩ := h.integerBox_ends t
  by_cases hrounds : c.rounds t = true
  · obtain ⟨hl, hu⟩ := h.settled.isNaN_integerBox t
    rw [inner, if_pos hrounds]
    exact ⟨storedBounds_lower_of hl hlower.infinite_of_le,
      storedBounds_upper_of hu hupper.infinite_of_le⟩
  · rw [inner, if_neg hrounds]
    simp only [rounds, ht, ne_eq, not_false_eq_true, decide_true, Bool.true_and,
      Bool.not_eq_true', Bool.not_eq_false, Bool.and_eq_true] at hrounds
    exact hrounds.imp beq_symm beq_symm

/-- Rounding keeps exactly the integers of a box, and of the box of a binary exactly the bits. -/
theorem contains_inner_iff (ht : t ≠ .continuous) {z : ℤ} :
    (c.inner t).Contains z ↔ c.Contains z ∧ (t = .binary → z = 0 ∨ z = 1) := by
  obtain ⟨hl, hu⟩ := h.inner_beq ht
  rw [Contains, above_congr hl, below_congr hu]
  exact h.integerBox_iff t

/-- The columns that are written are those whose bounds change. -/
theorem rounds_iff : c.rounds t = true ↔
    ¬((c.inner t).lower == c.lower && (c.inner t).upper == c.upper) = true := by
  by_cases hrounds : c.rounds t = true
  · obtain ⟨hl, hu⟩ := h.inner_beq (type_of_rounds hrounds)
    refine iff_of_true hrounds fun hsame => ?_
    rw [Bool.and_eq_true] at hsame
    have hbox : (Solving.integerBox t c).1 == c.lower && (Solving.integerBox t c).2 == c.upper := by
      rw [beq_trans (beq_symm hl) hsame.1, beq_trans (beq_symm hu) hsame.2]
      rfl
    rw [rounds, hbox, Bool.not_true, Bool.and_false] at hrounds
    cases hrounds
  · refine iff_of_false hrounds (not_not.2 ?_)
    rw [inner, if_neg hrounds, beq_refl h.settled.lower, beq_refl h.settled.upper]
    rfl

theorem inner_regular (t : TypeState) : (c.inner t).Regular := by
  by_cases ht : t = .continuous
  · have hrounds : c.rounds t = false := by rw [ht]; rfl
    rw [inner, hrounds, if_neg (by simp)]
    exact h.regular
  · obtain ⟨hl, hu⟩ := h.inner_beq ht
    exact (h.regular.integerBox t).congr (beq_symm hl) (beq_symm hu)

theorem inner_settled (t : TypeState) : (c.inner t).Settled := by
  by_cases hrounds : c.rounds t = true
  · have hstored : (c.inner t).BoundsStored := by
      rw [inner, if_pos hrounds]
      exact .stored _ _ rfl
    exact (h.inner_regular t).settled hstored
  · rw [inner, if_neg hrounds]
    exact h.settled

/-- Bounds of an integer column that count are integers. -/
theorem fractionalBound_inner (hkind : c.kind = .integer → t ≠ .continuous) (j : ℕ) :
    (c.inner t).fractionalBound j = .ok none := by
  unfold fractionalBound
  rw [kind_inner]
  by_cases hinteger : c.kind = .integer
  · obtain ⟨hl, hu⟩ := h.inner_beq (hkind hinteger)
    obtain ⟨hlower, hupper⟩ := h.integerBox_ends t
    obtain ⟨hfinite, hfinite'⟩ := (h.inner_regular t).finite_of_boundKind
    rw [← (h.inner_settled t).bound] at hfinite hfinite'
    have hfloor : ∀ {x : Float}, IsIntegral x → ∃ y, Scalar.floor x = .ok y ∧ (x == y) = true :=
      fun hx => ⟨_, rounded_of_isFinite _ hx.1, hx.beq_floor⟩
    rw [if_neg (not_not.2 hinteger)]
    have hrest : (do
        if (c.inner t).bound.hasUpper then
          if !((c.inner t).upper == (← Scalar.floor (c.inner t).upper)) then
            return some (.upperFraction j (c.inner t).upper)
        return none : Except RoundingError (Option (Obstacle Float))) = .ok none := by
      cases hcounts : (c.inner t).bound.hasUpper with
      | false => rfl
      | true =>
        obtain ⟨y, hy, hsame⟩ := hfloor (hupper.isIntegral_of_eq hu (hfinite' hcounts))
        simp [hy, hsame]
    dsimp only
    cases hcounts : (c.inner t).bound.hasLower with
    | false => exact hrest
    | true =>
      obtain ⟨y, hy, hsame⟩ := hfloor (hlower.isIntegral_of_eq hl (hfinite hcounts))
      simp only [hy, bind_ok, hsame]
      exact hrest
  · rw [if_pos hinteger]
    rfl

end Ranged

/-- The bounds of a box without any value are found to be crossed, and no others. -/
theorem Regular.crossed_iff (h : c.Regular) (hs : c.Settled) :
    Problem.crossed c.bound c.lower c.upper = true ↔ ∀ q, ¬c.Contains q := by
  rw [Problem.crossed, Bool.and_eq_true, beq_iff_eq, Bool.not_eq_true', decide_eq_false_iff_not]
  constructor
  · rintro ⟨hbound, hlt⟩ q ⟨habove, hbelow⟩
    obtain ⟨hfinite, hfinite'⟩ := h.finite_of_boundKind
    rw [← hs.bound, hbound] at hfinite hfinite'
    have hl := hfinite rfl
    have hu := hfinite' rfl
    have hle := (le_iff hl hu).2 (((above_iff hl).1 habove).trans ((below_iff hu).1 hbelow))
    have heq : (c.lower == c.upper) = true :=
      beq_iff.2 ⟨hle, le_of_not_lt hs.lower hs.upper hlt⟩
    rw [hs.bound, boundKind, if_pos heq] at hbound
    cases hbound
  · intro hempty
    have hl : isFinite c.lower = true := by
      refine h.lower.resolve_right fun hinfinite => ?_
      obtain hu | hu := h.upper
      · exact hempty (value c.upper) ⟨.inl hinfinite, (below_iff hu).2 le_rfl⟩
      · exact hempty 0 ⟨.inl hinfinite, .inl hu⟩
    have hu : isFinite c.upper = true := h.upper.resolve_right fun hinfinite =>
      hempty (value c.lower) ⟨(above_iff hl).2 le_rfl, .inl hinfinite⟩
    have hlt : c.upper < c.lower := by
      refine lt_iff.2 ⟨?_, fun hle => ?_⟩
      · refine (OrderedScalar.le_total hs.upper hs.lower).resolve_right fun hle => ?_
        exact hempty (value c.lower)
          ⟨(above_iff hl).2 le_rfl, (below_iff hu).2 ((le_iff hl hu).1 hle)⟩
      · exact hempty (value c.lower)
          ⟨(above_iff hl).2 le_rfl, (below_iff hu).2 ((le_iff hl hu).1 hle)⟩
    have hcrossed : CrossedBounds c.lower c.upper := ⟨hl, hu, hlt⟩
    exact ⟨hs.bound.trans hcrossed.boundKind, hcrossed.not_lt⟩

end Column

end MixedInteger
