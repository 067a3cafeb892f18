import MixedInteger.Proofs.Model.Tabulation
import MixedInteger.Proofs.Model.Restoration
import MixedInteger.Proofs.Search.Node

/-! The values that a column lets through. The sets of a variable let through what lies within
the bounds of its column and has its type. Rounding the bounds inwards, and boxing a binary,
changes nothing about this for integers, and the bounds are whole afterwards. -/

namespace MixedInteger

open Extended

/-! ### Bounds -/

namespace Extended

theorem eq_of_beq {x y : Extended} (h : (x == y) = true) : x = y := by
  cases x <;> cases y <;> first | rfl | exact absurd h Bool.false_ne_true | skip
  rw [rat_beq_rat, decide_eq_true_eq] at h
  rw [h]

theorem one_lt_largest : (1 : ℚ) < (2 ^ 53 - 1) * 2 ^ 971 := by
  have hpow : (1 : ℚ) ≤ 2 ^ 971 := one_le_pow₀ one_le_two
  have hfactor : (1 : ℚ) < 2 ^ 53 - 1 := by norm_num
  calc (1 : ℚ) < 2 ^ 53 - 1 := hfactor
    _ = (2 ^ 53 - 1) * 1 := (mul_one _).symm
    _ ≤ (2 ^ 53 - 1) * 2 ^ 971 := mul_le_mul_of_nonneg_left hpow (by norm_num)

theorem largest_eq : (Scalar.largest : Extended) = rat ((2 ^ 53 - 1) * 2 ^ 971) := rfl

end Extended

theorem LowerBound.bottom_or_isRat {l : Extended} (h : LowerBound l) : l = bottom ∨ l.IsRat := by
  rcases h with h | ⟨hl, hu⟩
  · exact .inl (eq_of_beq h)
  · cases l with
    | rat q => exact .inr (isRat_rat q)
    | nan => cases hl
    | bottom => exact .inl rfl
    | top => cases hu

theorem UpperBound.top_or_isRat {u : Extended} (h : UpperBound u) : u = top ∨ u.IsRat := by
  rcases h with h | ⟨hl, hu⟩
  · exact .inl (eq_of_beq h)
  · cases u with
    | rat q => exact .inr (isRat_rat q)
    | nan => cases hl
    | bottom => cases hl
    | top => exact .inl rfl

/-- Bounds in range are not taken for infinite. -/
theorem LowerBound.eq_bottom {l : Extended} (h : LowerBound l) (hle : l ≤ -Scalar.largest) :
    l = bottom := by
  obtain h | ⟨hlt, -⟩ := h
  · exact eq_of_beq h
  · exact absurd hle (OrderedScalar.lt_iff.1 hlt).2

theorem UpperBound.eq_top {u : Extended} (h : UpperBound u) (hle : Scalar.largest ≤ u) :
    u = top := by
  obtain h | ⟨-, hlt⟩ := h
  · exact eq_of_beq h
  · exact absurd hle (OrderedScalar.lt_iff.1 hlt).2

/-- Only infinities are taken for infinite. -/
structure InSight (l u : Extended) : Prop where
  lower : l ≤ -Scalar.largest → l = bottom
  upper : Scalar.largest ≤ u → u = top

theorem storedBounds_eq {l u : Extended} (h : InSight l u) :
    storedBounds l u = (boundKind l u, l, u) := by
  have hkind : boundKind l u = if l == u then .fixed
      else if l ≤ -Scalar.largest then if Scalar.largest ≤ u then .free else .upper
      else if Scalar.largest ≤ u then .lower else .double := rfl
  rw [storedBounds, hkind]
  split_ifs with heq hl hu hu
  · rw [BoundKind.sides, eq_of_beq heq]
  · rw [BoundKind.sides, h.lower hl, h.upper hu]
    rfl
  · rw [BoundKind.sides, h.lower hl]
    rfl
  · rw [BoundKind.sides, h.upper hu]
    rfl
  · rfl

/-! ### Sets and bounds -/

/-- The values that a variable of a type may have. -/
def TypeState.Admits : TypeState → ℚ → Prop
  | .continuous, _ => True
  | .binary, v => v = 0 ∨ v = 1
  | .integer, v => ∃ k : ℤ, v = k

theorem TypeState.Admits.isInt {t : TypeState} {v : ℚ} (h : t.Admits v) (ht : t ≠ .continuous) :
    ∃ k : ℤ, v = k := by
  cases t with
  | continuous => exact absurd rfl ht
  | integer => exact h
  | binary =>
    rcases h with rfl | rfl
    · exact ⟨0, by norm_num⟩
    · exact ⟨1, by norm_num⟩

namespace VariableRecord

variable {r : VariableRecord Extended} {c : Column Extended} {v : ℚ}

theorem carries_below {s : ScalarSet Extended} (h : r.below = some s) : r.carries s.kind = true := by
  simp [carries, h]

theorem carries_above {s : ScalarSet Extended} (h : r.above = some s) : r.carries s.kind = true := by
  simp [carries, h]

variable (h : r.Holds c) (hr : r.Coherent)
include h hr

theorem Holds.lower_eq : c.lower = r.lower := eq_of_beq (h.lower hr.lower)

theorem Holds.upper_eq : c.upper = r.upper := eq_of_beq (h.upper hr.upper)

theorem Holds.lowerBound : LowerBound c.lower := by
  rw [h.lower_eq hr]
  exact hr.lower

theorem Holds.upperBound : UpperBound c.upper := by
  rw [h.upper_eq hr]
  exact hr.upper

/-- A value that is equal to something has a fixed column. -/
theorem Holds.lower_eq_upper {e : Extended} (he : r.below = some (.equalTo e)) :
    c.lower = c.upper := by
  have habove := (hr.below _ he).2 rfl
  rw [h.lower_eq hr, h.upper_eq hr, VariableRecord.lower, VariableRecord.upper, he, habove]
  rfl

/-- Each side of a column is free or the side of a set. -/
theorem Holds.within (hv : ∀ k, r.carries k = true → (c.set k).Contains v) :
    c.lower ≤ rat v ∧ rat v ≤ c.upper := by
  constructor
  · cases hs : r.below with
    | none =>
      rw [h.lower_eq hr, VariableRecord.lower, hs]
      exact bottom_le_rat v
    | some s =>
      have hmem := hv _ (carries_below hs)
      have hside := (hr.below s hs).1
      cases s with
      | greaterThan l => exact hmem
      | interval l u => exact hmem.1
      | equalTo e =>
        have heq : rat v = c.lower := hmem
        rw [← heq, rat_le_rat]
      | _ => cases hside
  · cases hs : r.above with
    | none =>
      rw [h.upper_eq hr, VariableRecord.upper, hs]
      exact rat_le_top v
    | some s =>
      have hmem := hv _ (carries_above hs)
      have hside := (hr.above s hs).1
      cases s with
      | lessThan u => exact hmem
      | interval l u => exact hmem.2
      | equalTo e =>
        have heq : rat v = c.lower := hmem
        rw [← h.lower_eq_upper hr ((hr.above _ hs).2 rfl), ← heq, rat_le_rat]
      | _ => cases hside

/-- A set that is carried lets through what the column and the type let through. -/
theorem Holds.contains (hv : c.lower ≤ rat v ∧ rat v ≤ c.upper) (ht : r.type.Admits v) {k : Kind}
    (hk : r.carries k = true) : (c.set k).Contains v := by
  have hequal : ∀ s, r.below = some s ∨ r.above = some s → (c.set s.kind).Contains v := by
    intro s hs
    have hside : (s.boundsBelow || s.boundsAbove) = true := by
      rcases hs with hs | hs
      · rw [(hr.below s hs).1, Bool.true_or]
      · rw [(hr.above s hs).1, Bool.or_true]
    cases s with
    | lessThan u => exact hv.2
    | greaterThan l => exact hv.1
    | interval l u => exact hv
    | equalTo e =>
      have heq := h.lower_eq_upper hr (hs.elim id fun hs => (hr.above _ hs).2 rfl)
      have hle := hv.2
      rw [← heq] at hle
      change rat v = c.lower
      rcases (h.lowerBound hr).bottom_or_isRat with hl | hl
      · rw [hl] at hle
        cases hle
      · rw [hl.eq, rat_le_rat] at hle
        have hge := hv.1
        rw [hl.eq, rat_le_rat] at hge
        rw [hl.eq, le_antisymm hle hge]
    | _ => cases hside
  simp only [carries, Bool.or_eq_true, decide_eq_true_eq] at hk
  rcases hk with (hk | hk) | hk
  · obtain ⟨s, hs, rfl⟩ := Option.map_eq_some_iff.1 hk
    exact hequal s (.inl hs)
  · obtain ⟨s, hs, rfl⟩ := Option.map_eq_some_iff.1 hk
    exact hequal s (.inr hs)
  · cases htype : r.type <;> rw [htype] at hk ht <;> cases hk <;> exact ht

/-- The sets of a variable are its bounds and its type. -/
theorem Holds.contains_iff : (∀ k, r.carries k = true → (c.set k).Contains v) ↔
    (c.lower ≤ rat v ∧ rat v ≤ c.upper) ∧ r.type.Admits v := by
  refine ⟨fun hv => ⟨h.within hr hv, ?_⟩, fun hv k hk => h.contains hr hv.1 hv.2 hk⟩
  cases ht : r.type with
  | continuous => trivial
  | binary => exact hv .zeroOne (by simp [carries, ht, TypeState.kind?])
  | integer => exact hv .integer (by simp [carries, ht, TypeState.kind?])

end VariableRecord

/-! ### Rounded bounds -/

/-- A bound from below that is whole, is taken for infinite only when it is, and lets through
these integers. -/
structure FloorOf (b : Extended) (P : ℤ → Prop) : Prop where
  whole : b = bottom ∨ ∃ n : ℤ, b = rat n
  sight : b ≤ -Scalar.largest → b = bottom
  iff : ∀ k : ℤ, b ≤ rat k ↔ P k

/-- The same from above. -/
structure CeilingOf (b : Extended) (P : ℤ → Prop) : Prop where
  whole : b = top ∨ ∃ n : ℤ, b = rat n
  sight : Scalar.largest ≤ b → b = top
  iff : ∀ k : ℤ, rat k ≤ b ↔ P k

theorem LowerBound.floorOf {l : Extended} (h : LowerBound l) :
    FloorOf (if Scalar.isFinite l then Scalar.ofInt (Scalar.ceilInt l) else l)
      fun k => l ≤ rat k := by
  rcases h.bottom_or_isRat with heq | heq
  · rw [heq]
    exact ⟨.inl rfl, fun _ => rfl, fun k => Iff.rfl⟩
  · rw [heq.eq] at h ⊢
    have hfinite : Scalar.isFinite (rat l.value) = true := rfl
    simp only [hfinite, if_true, ceilInt_rat, ofInt_eq]
    refine ⟨.inr ⟨_, rfl⟩, fun hle => ?_, fun k => ?_⟩
    · rcases h with hb | ⟨hlt, -⟩
      · cases hb
      · rw [largest_eq, neg_rat, rat_lt_rat] at hlt
        rw [largest_eq, neg_rat, rat_le_rat] at hle
        exact absurd (hlt.trans_le (Int.le_ceil _)) (not_lt.2 hle)
    · rw [rat_le_rat, rat_le_rat, Int.cast_le, Int.ceil_le]

theorem UpperBound.ceilingOf {u : Extended} (h : UpperBound u) :
    CeilingOf (if Scalar.isFinite u then Scalar.ofInt (Scalar.floorInt u) else u)
      fun k => rat k ≤ u := by
  rcases h.top_or_isRat with heq | heq
  · rw [heq]
    exact ⟨.inl rfl, fun _ => rfl, fun k => Iff.rfl⟩
  · rw [heq.eq] at h ⊢
    have hfinite : Scalar.isFinite (rat u.value) = true := rfl
    simp only [hfinite, if_true, floorInt_rat, ofInt_eq]
    refine ⟨.inr ⟨_, rfl⟩, fun hle => ?_, fun k => ?_⟩
    · rcases h with hb | ⟨-, hlt⟩
      · cases hb
      · rw [largest_eq, rat_lt_rat] at hlt
        rw [largest_eq, rat_le_rat] at hle
        exact absurd ((Int.floor_le _).trans_lt hlt) (not_lt.2 hle)
    · rw [rat_le_rat, rat_le_rat, Int.cast_le, Int.le_floor]

theorem FloorOf.larger_zero {b : Extended} {P : ℤ → Prop} (h : FloorOf b P) :
    FloorOf (Scalar.larger 0 b) fun k => 0 ≤ k ∧ P k := by
  have hzero : ∀ k : ℤ, (0 : Extended) ≤ rat k ↔ 0 ≤ k := by
    intro k
    rw [zero_eq, rat_le_rat, Int.cast_nonneg_iff]
  simp only [Scalar.larger, ← h.iff, ← hzero]
  split_ifs with hlt
  · exact ⟨h.whole, h.sight, fun k => ⟨fun hk => ⟨le_trans (OrderedScalar.lt_iff.1 hlt).1 hk, hk⟩,
      fun hk => hk.2⟩⟩
  · refine ⟨.inr ⟨0, by rw [zero_eq, Int.cast_zero]⟩, fun hle => ?_, fun k => ⟨fun hk => ⟨hk, ?_⟩,
      fun hk => hk.1⟩⟩
    · rw [zero_eq, largest_eq, neg_rat, rat_le_rat] at hle
      exact absurd hle (by norm_num)
    · rcases h.whole with heq | ⟨n, heq⟩
      · rw [heq]
        exact bottom_le_rat _
      · rw [heq, zero_eq, rat_lt_rat, not_lt] at hlt
        rw [zero_eq, rat_le_rat] at hk
        rw [heq, rat_le_rat]
        exact hlt.trans hk

theorem CeilingOf.smaller_one {b : Extended} {P : ℤ → Prop} (h : CeilingOf b P) :
    CeilingOf (Scalar.smaller 1 b) fun k => k ≤ 1 ∧ P k := by
  have hone : ∀ k : ℤ, rat k ≤ (1 : Extended) ↔ k ≤ 1 := by
    intro k
    rw [one_eq, rat_le_rat]
    exact_mod_cast Iff.rfl
  simp only [Scalar.smaller, ← h.iff, ← hone]
  split_ifs with hlt
  · exact ⟨h.whole, h.sight, fun k => ⟨fun hk => ⟨le_trans hk (OrderedScalar.lt_iff.1 hlt).1, hk⟩,
      fun hk => hk.2⟩⟩
  · refine ⟨.inr ⟨1, by rw [one_eq, Int.cast_one]⟩, fun hle => ?_, fun k => ⟨fun hk => ⟨hk, ?_⟩,
      fun hk => hk.1⟩⟩
    · rw [one_eq, largest_eq, rat_le_rat] at hle
      exact absurd hle one_lt_largest.not_ge
    · rcases h.whole with heq | ⟨n, heq⟩
      · rw [heq]
        exact rat_le_top _
      · rw [heq, one_eq, rat_lt_rat, not_lt] at hlt
        rw [one_eq, rat_le_rat] at hk
        rw [heq, rat_le_rat]
        exact hk.trans hlt

namespace Column

variable {c : Column Extended} {v : ℚ} (t : TypeState)

theorem inner_continuous : c.inner .continuous = c := by
  simp [inner, rounds]

variable {t} (hl : LowerBound c.lower) (hu : UpperBound c.upper) (ht : t ≠ .continuous)
include hl hu ht

/-- Both ends of the box of a column. -/
theorem integerBox_sides : ∃ P Q : ℤ → Prop, FloorOf (Solving.integerBox t c).1 P ∧
    CeilingOf (Solving.integerBox t c).2 Q ∧
      ∀ k : ℤ, P k ∧ Q k ↔ (c.lower ≤ rat k ∧ rat k ≤ c.upper) ∧ t.Admits k := by
  cases t with
  | continuous => exact absurd rfl ht
  | integer =>
    refine ⟨_, _, hl.floorOf, hu.ceilingOf, fun k => ?_⟩
    exact ⟨fun h => ⟨h, k, rfl⟩, fun h => h.1⟩
  | binary =>
    refine ⟨_, _, hl.floorOf.larger_zero, hu.ceilingOf.smaller_one, fun k => ?_⟩
    constructor
    · rintro ⟨⟨hpos, hk⟩, hone, hk'⟩
      refine ⟨⟨hk, hk'⟩, ?_⟩
      obtain rfl | rfl : k = 0 ∨ k = 1 := by omega
      · exact .inl Int.cast_zero
      · exact .inr Int.cast_one
    · rintro ⟨⟨hk, hk'⟩, hv⟩
      have hcast : (k : ℚ) = 0 ∨ (k : ℚ) = 1 := hv
      have hbit : k = 0 ∨ k = 1 := by exact_mod_cast hcast
      exact ⟨⟨by omega, hk⟩, by omega, hk'⟩

/-- The box is what the search sees. -/
theorem bounds_inner : (c.inner t).lower = (Solving.integerBox t c).1 ∧
    (c.inner t).upper = (Solving.integerBox t c).2 := by
  cases hrounds : c.rounds t with
  | false =>
    rw [inner, hrounds, if_neg Bool.false_ne_true]
    simp only [rounds, ht, ne_eq, not_false_eq_true, decide_true, Bool.true_and,
      Bool.not_eq_false', Bool.and_eq_true] at hrounds
    exact ⟨(eq_of_beq hrounds.1).symm, (eq_of_beq hrounds.2).symm⟩
  | true =>
    obtain ⟨P, Q, hfloor, hceiling, -⟩ := integerBox_sides hl hu ht
    have hstored := storedBounds_eq ⟨hfloor.sight, hceiling.sight⟩
    rw [inner, hrounds, if_pos rfl, rebound, box, Option.getD_some, Option.getD_some, hstored]
    exact ⟨rfl, rfl⟩

theorem whole_inner : Problem.WholeBounds (c.inner t).lower (c.inner t).upper := by
  obtain ⟨P, Q, hfloor, hceiling, -⟩ := integerBox_sides hl hu ht
  obtain ⟨hlower, hupper⟩ := bounds_inner hl hu ht
  rw [hlower, hupper]
  exact ⟨hfloor.whole, hceiling.whole⟩

/-- Integers keep to the box when they keep to the bounds and have the type. -/
theorem within_inner_iff (k : ℤ) :
    ((c.inner t).lower ≤ rat k ∧ rat k ≤ (c.inner t).upper) ↔
      (c.lower ≤ rat k ∧ rat k ≤ c.upper) ∧ t.Admits k := by
  obtain ⟨P, Q, hfloor, hceiling, hiff⟩ := integerBox_sides hl hu ht
  obtain ⟨hlower, hupper⟩ := bounds_inner hl hu ht
  rw [hlower, hupper, hfloor.iff, hceiling.iff, hiff]

omit ht in
/-- Values keep to the box and to integrality when they keep to the bounds and have the type. -/
theorem inner_iff : (((c.inner t).lower ≤ rat v ∧ rat v ≤ (c.inner t).upper) ∧
    (t ≠ .continuous → ∃ k : ℤ, v = k)) ↔ (c.lower ≤ rat v ∧ rat v ≤ c.upper) ∧ t.Admits v := by
  by_cases ht : t = .continuous
  · subst ht
    rw [inner_continuous]
    exact ⟨fun h => ⟨h.1, trivial⟩, fun h => ⟨h.1, fun hne => absurd rfl hne⟩⟩
  · constructor
    · rintro ⟨hbox, hint⟩
      obtain ⟨k, rfl⟩ := hint ht
      exact (within_inner_iff hl hu ht k).1 hbox
    · rintro ⟨hbounds, hadmits⟩
      obtain ⟨k, rfl⟩ := hadmits.isInt ht
      exact ⟨(within_inner_iff hl hu ht k).2 ⟨hbounds, hadmits⟩, fun _ => ⟨k, rfl⟩⟩

omit ht in
theorem proper_inner : Problem.ProperBounds (c.inner t).lower (c.inner t).upper := by
  by_cases ht : t = .continuous
  · subst ht
    rw [inner_continuous]
    exact ⟨hl.bottom_or_isRat, hu.top_or_isRat⟩
  · exact WholeBounds.proper (whole_inner hl hu ht)

end Column

end MixedInteger
