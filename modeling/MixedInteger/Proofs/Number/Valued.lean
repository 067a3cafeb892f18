import MixedInteger.Proofs.Number.Extended
import MixedInteger.Proofs.Problem.Point

/-! The rational numbers behind finite numbers. Comparing, negating and rounding to an integer are
exact, and the difference of equal numbers is zero; no other arithmetic is assumed, so doubles
qualify as well as exact numbers. It follows that a value which is farther from an integer than
some tolerance lies strictly between two integers, which are numbers again. -/

namespace MixedInteger

open Scalar

class ValuedScalar (α : Type) [Scalar α] extends OrderedScalar α where
  /-- The value of a finite number. -/
  value : α → ℚ
  isFinite_zero : isFinite (0 : α) = true
  value_zero : value 0 = 0
  /-- A number between two finite ones is finite. -/
  isFinite_between {a b c : α} : isFinite a = true → isFinite c = true → a ≤ b → b ≤ c →
    isFinite b = true
  le_iff {a b : α} : isFinite a = true → isFinite b = true → (a ≤ b ↔ value a ≤ value b)
  isFinite_neg {a : α} : isFinite a = true → isFinite (-a) = true
  value_neg {a : α} : isFinite a = true → value (-a) = -value a
  floorInt_eq {a : α} : isFinite a = true → floorInt a = ⌊value a⌋
  isFinite_floor {a : α} : isFinite a = true → isFinite (ofInt ⌊value a⌋ : α) = true
  value_floor {a : α} : isFinite a = true → value (ofInt ⌊value a⌋ : α) = ⌊value a⌋
  isFinite_ceil {a : α} : isFinite a = true → isFinite (ofInt ⌈value a⌉ : α) = true
  value_ceil {a : α} : isFinite a = true → value (ofInt ⌈value a⌉ : α) = ⌈value a⌉
  sub_beq_zero {a b : α} : isFinite a = true → isFinite b = true → value a = value b →
    (a - b == 0) = true
  half_pos : (0 : α) < ofDecimal 5 (-1)

namespace Scalar

variable {α : Type} [Scalar α] {a : α}

theorem isFinite_iff : isFinite a = true ↔ isNaN a = false ∧ isInf a = false := by
  rw [isFinite, Bool.and_eq_true, Bool.not_eq_true', Bool.not_eq_true']

theorem rounded_of_isFinite (f : α → ℤ) (ha : isFinite a = true) :
    rounded f a = .ok (ofInt (f a)) := by
  obtain ⟨hnan, hinf⟩ := isFinite_iff.1 ha
  rw [rounded, hnan, hinf]
  rfl

theorem isFinite_of_rounded {f : α → ℤ} {x : α} (h : rounded f a = .ok x) :
    isFinite a = true ∧ x = ofInt (f a) := by
  unfold rounded at h
  split_ifs at h with hnan hinf
  cases h
  exact ⟨by simp [isFinite, hnan, hinf], rfl⟩

end Scalar

namespace ValuedScalar

variable {α : Type} [Scalar α] [ValuedScalar α] {a b : α}

theorem beq_iff_value (ha : isFinite a = true) (hb : isFinite b = true) :
    (a == b) = true ↔ value a = value b := by
  rw [OrderedScalar.beq_iff, le_iff ha hb, le_iff hb ha]
  exact ⟨fun h => h.1.antisymm h.2, fun h => ⟨h.le, h.ge⟩⟩

theorem ceilInt_eq (ha : isFinite a = true) : ceilInt a = ⌈value a⌉ := by
  rw [ceilInt, floorInt_eq (isFinite_neg ha), value_neg ha, Int.floor_neg, neg_neg]

/-! ### Integers among the numbers -/

/-- A finite number whose value is an integer. -/
def IsIntegral (a : α) : Prop := isFinite a = true ∧ ∃ k : ℤ, value a = k

theorem IsIntegral.value_eq (h : IsIntegral a) : value a = floorInt a := by
  obtain ⟨hfinite, k, hk⟩ := h
  rw [floorInt_eq hfinite, hk, Int.floor_intCast]

/-- An integral number is its own floor. -/
theorem IsIntegral.beq_floor (h : IsIntegral a) : (a == ofInt (floorInt a)) = true := by
  rw [floorInt_eq h.1, beq_iff_value h.1 (isFinite_floor h.1), value_floor h.1,
    ← floorInt_eq h.1, h.value_eq]

theorem isIntegral_floor (ha : isFinite a = true) : IsIntegral (ofInt (floorInt a) : α) := by
  rw [floorInt_eq ha]
  exact ⟨isFinite_floor ha, _, value_floor ha⟩

theorem isIntegral_ceil (ha : isFinite a = true) : IsIntegral (ofInt (ceilInt a) : α) := by
  rw [ceilInt_eq ha]
  exact ⟨isFinite_ceil ha, _, value_ceil ha⟩

theorem floor_le (ha : isFinite a = true) : ofInt (floorInt a) ≤ a := by
  rw [le_iff (isIntegral_floor ha).1 ha, floorInt_eq ha, value_floor ha]
  exact Int.floor_le _

theorem le_ceil (ha : isFinite a = true) : a ≤ ofInt (ceilInt a) := by
  rw [le_iff ha (isIntegral_ceil ha).1, ceilInt_eq ha, value_ceil ha]
  exact Int.le_ceil _

theorem floorInt_floor (ha : isFinite a = true) :
    floorInt (ofInt (floorInt a) : α) = ⌊value a⌋ := by
  rw [floorInt_eq ha, floorInt_eq (isFinite_floor ha), value_floor ha, Int.floor_intCast]

theorem floorInt_ceil (ha : isFinite a = true) :
    floorInt (ofInt (ceilInt a) : α) = ⌈value a⌉ := by
  rw [ceilInt_eq ha, floorInt_eq (isFinite_ceil ha), value_ceil ha, Int.floor_intCast]

/-! ### Fractions -/

theorem IsIntegral.sub_floor_beq_zero (h : IsIntegral a) : (a - ofInt (floorInt a) == 0) = true :=
  sub_beq_zero h.1 (isIntegral_floor h.1).1
    (by rw [floorInt_eq h.1, value_floor h.1, ← floorInt_eq h.1, h.value_eq])

/-- An integral number is the integer nearest to it. -/
theorem IsIntegral.nearestInt_eq (h : IsIntegral a) : nearestInt a = floorInt a := by
  have hlt : a - ofInt (floorInt a) < ofDecimal 5 (-1) := by
    obtain ⟨hle, hge⟩ := OrderedScalar.beq_iff.1 h.sub_floor_beq_zero
    obtain ⟨hhalf, hnot⟩ := OrderedScalar.lt_iff.1 (half_pos (α := α))
    exact OrderedScalar.lt_iff.2 ⟨OrderedScalar.le_trans hle hhalf,
      fun h => hnot (OrderedScalar.le_trans h hle)⟩
  rw [nearestInt, if_pos hlt]

/-- What is farther from the nearest integer than a tolerance is not an integer. -/
theorem not_isIntegral_of_far {τ : α} (hτ : 0 ≤ τ) (h : τ < Scalar.abs (a - ofInt (nearestInt a))) :
    ¬IsIntegral a := by
  intro ha
  have hzero := ha.sub_floor_beq_zero
  have hnotlt : ¬a - ofInt (floorInt a) < 0 :=
    fun hlt => (OrderedScalar.lt_iff.1 hlt).2 (OrderedScalar.beq_iff.1 hzero).2
  rw [ha.nearestInt_eq, Scalar.abs, if_neg hnotlt, if_pos hzero] at h
  exact (OrderedScalar.lt_iff.1 h).2 hτ

/-- A value that is not an integer lies between two that follow each other. -/
theorem ceil_eq_floor_add_one (ha : isFinite a = true) (h : ¬IsIntegral a) :
    ⌈value a⌉ = ⌊value a⌋ + 1 := by
  have hne : value a ≠ ⌊value a⌋ := fun heq => h ⟨ha, _, heq⟩
  have hlt : (⌊value a⌋ : ℚ) < value a := lt_of_le_of_ne (Int.floor_le _) hne.symm
  rw [Int.ceil_eq_iff]
  push_cast
  refine ⟨by linarith, (Int.lt_floor_add_one _).le⟩

/-- Integral bounds of a value are bounds of its floor and its ceiling. -/
theorem IsIntegral.le_floor (hb : IsIntegral b) (ha : isFinite a = true) (h : b ≤ a) :
    floorInt b ≤ ⌊value a⌋ := by
  rw [Int.le_floor, ← hb.value_eq]
  exact (le_iff hb.1 ha).1 h

theorem IsIntegral.ceil_le (hb : IsIntegral b) (ha : isFinite a = true) (h : a ≤ b) :
    ⌈value a⌉ ≤ floorInt b := by
  rw [Int.ceil_le, ← hb.value_eq]
  exact (le_iff ha hb.1).1 h

end ValuedScalar

/-! ### Exact numbers -/

theorem Extended.isRat_of_isFinite {x : Extended} (h : Scalar.isFinite x = true) : x.IsRat := by
  cases x <;> first | rfl | cases h

instance : ValuedScalar Extended where
  value := Extended.value
  isFinite_zero := rfl
  value_zero := rfl
  isFinite_between {a b c} ha hc hab hbc := by
    rw [(Extended.isRat_of_isFinite ha).eq] at hab
    rw [(Extended.isRat_of_isFinite hc).eq] at hbc
    cases b <;>
      first | rfl | exact absurd hab Bool.false_ne_true | exact absurd hbc Bool.false_ne_true
  le_iff {a b} ha hb := by
    rw [(Extended.isRat_of_isFinite ha).eq, (Extended.isRat_of_isFinite hb).eq,
      Extended.rat_le_rat]
    rfl
  isFinite_neg {a} ha := by
    rw [(Extended.isRat_of_isFinite ha).eq]
    rfl
  value_neg {a} ha := by
    rw [(Extended.isRat_of_isFinite ha).eq]
    rfl
  floorInt_eq {a} ha := by
    rw [(Extended.isRat_of_isFinite ha).eq]
    rfl
  isFinite_floor _ := rfl
  value_floor _ := rfl
  isFinite_ceil _ := rfl
  value_ceil _ := rfl
  sub_beq_zero {a b} ha hb h := by
    rw [(Extended.isRat_of_isFinite ha).eq, (Extended.isRat_of_isFinite hb).eq,
      Extended.rat_sub_rat, Extended.zero_eq, Extended.rat_beq_rat, h, sub_self]
    rfl
  half_pos := by
    rw [Extended.zero_eq]
    change Extended.rat 0 < Extended.rat _
    rw [Extended.rat_lt_rat]
    norm_num

end MixedInteger
