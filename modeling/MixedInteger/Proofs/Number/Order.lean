import MixedInteger.Model.Bound
import MixedInteger.Number.Double
import MixedInteger.Problem.Edit
import Mathlib.Data.Prod.Lex
import Mathlib.Tactic.Common

/-! The order of numbers. A value that is not a number compares with nothing; all
others are linearly ordered up to `==`, between the two infinities. From these laws it
follows that the kind of a pair of bounds leaves both of them as they are. No law of
arithmetic is assumed, so doubles qualify as well as exact numbers: a double that is not
not-a-number is ranked by its sign, its exponent and its significand, in this order, and the
machine's comparisons are those of the ranks. Both zeros have one rank, so `==` does not tell
them apart. -/

namespace MixedInteger

open Scalar

/-- Comparisons as on doubles: a preorder whose values, apart from not-a-number, are
all comparable. -/
class OrderedScalar (α : Type) [Scalar α] : Prop where
  le_trans {a b c : α} : a ≤ b → b ≤ c → a ≤ c
  le_total {a b : α} : isNaN a = false → isNaN b = false → a ≤ b ∨ b ≤ a
  isNaN_left {a b : α} : a ≤ b → isNaN a = false
  isNaN_right {a b : α} : a ≤ b → isNaN b = false
  lt_iff {a b : α} : a < b ↔ a ≤ b ∧ ¬b ≤ a
  beq_iff {a b : α} : (a == b) = true ↔ a ≤ b ∧ b ≤ a
  isNaN_zero : isNaN (0 : α) = false
  le_infinity {a : α} : isNaN a = false → a ≤ infinity
  neg_infinity_le {a : α} : isNaN a = false → -infinity ≤ a
  isNaN_infinity : isNaN (infinity : α) = false
  isNaN_neg_infinity : isNaN (-infinity : α) = false
  largest_lt : (largest : α) < infinity
  lt_neg_largest : (-infinity : α) < -largest

namespace OrderedScalar

variable {α : Type} [Scalar α] [OrderedScalar α] {a b c : α}

attribute [simp] isNaN_zero isNaN_infinity isNaN_neg_infinity

theorem le_refl (h : isNaN a = false) : a ≤ a := (le_total h h).elim id id

theorem beq_refl (h : isNaN a = false) : (a == a) = true := beq_iff.2 ⟨le_refl h, le_refl h⟩

@[simp] theorem zero_beq : ((0 : α) == 0) = true := beq_refl isNaN_zero

theorem beq_symm (h : (a == b) = true) : (b == a) = true := beq_iff.2 (beq_iff.1 h).symm

theorem beq_trans (hab : (a == b) = true) (hbc : (b == c) = true) : (a == c) = true := by
  rw [beq_iff] at *
  exact ⟨le_trans hab.1 hbc.1, le_trans hbc.2 hab.2⟩

theorem le_of_not_lt (ha : isNaN a = false) (hb : isNaN b = false) (h : ¬a < b) : b ≤ a := by
  rcases le_total ha hb with hab | hba
  · by_contra hba
    exact h (lt_iff.2 ⟨hab, hba⟩)
  · exact hba

/-- Of two numbers one is less than the other, unless they are equal. -/
theorem trichotomy (ha : isNaN a = false) (hb : isNaN b = false) :
    a < b ∨ (a == b) = true ∨ b < a := by
  by_cases hab : a < b
  · exact .inl hab
  · by_cases hba : b < a
    · exact .inr (.inr hba)
    · exact .inr (.inl (beq_iff.2 ⟨le_of_not_lt hb ha hba, le_of_not_lt ha hb hab⟩))

theorem not_le_of_lt (h : a < b) : ¬b ≤ a := (lt_iff.1 h).2

theorem lt_of_le_of_lt (hab : a ≤ b) (hbc : b < c) : a < c :=
  lt_iff.2 ⟨le_trans hab (lt_iff.1 hbc).1, fun h => not_le_of_lt hbc (le_trans h hab)⟩

theorem lt_of_lt_of_le (hab : a < b) (hbc : b ≤ c) : a < c :=
  lt_iff.2 ⟨le_trans (lt_iff.1 hab).1 hbc, fun h => not_le_of_lt hab (le_trans hbc h)⟩

omit [OrderedScalar α] in
theorem larger_of {P : α → Prop} (ha : P a) (hb : P b) : P (larger a b) := by
  unfold larger
  split_ifs <;> assumption

omit [OrderedScalar α] in
theorem smaller_of {P : α → Prop} (ha : P a) (hb : P b) : P (smaller a b) := by
  unfold smaller
  split_ifs <;> assumption

theorem le_larger (ha : isNaN a = false) (hb : isNaN b = false) : b ≤ larger a b := by
  unfold larger
  split_ifs with h
  · exact le_refl hb
  · exact le_of_not_lt ha hb h

theorem smaller_le (ha : isNaN a = false) (hb : isNaN b = false) : smaller a b ≤ b := by
  unfold smaller
  split_ifs with h
  · exact le_refl hb
  · exact le_of_not_lt hb ha h

theorem largest_le : (largest : α) ≤ infinity := (lt_iff.1 largest_lt).1

theorem le_neg_largest : (-infinity : α) ≤ -largest := (lt_iff.1 lt_neg_largest).1

end OrderedScalar

/-! ### Bounds -/

section Bounds
variable {α : Type} [Scalar α] [OrderedScalar α]

/-- Double bounds of numbers are never refused unless they are crossed. -/
theorem refuses_boundKind (p : Problem α) {l u : α} (hl : isNaN l = false) (hu : isNaN u = false)
    (h : ¬u < l) :
    p.refuses (boundKind l u) ((boundKind l u).sides l u).1 ((boundKind l u).sides l u).2 =
      false := by
  rcases OrderedScalar.trichotomy hl hu with hlt | heq | hgt
  · simp only [Problem.refuses, boundKind]
    split_ifs <;> simp [BoundKind.sides, hlt]
  · simp [Problem.refuses, boundKind, heq]
  · exact absurd hgt h

/-- Without an upper bound nothing is refused, whatever the lower one. -/
theorem boundKind_infinity_ne (l : α) : boundKind l infinity ≠ .double := by
  simp only [boundKind, if_pos OrderedScalar.largest_le]
  split_ifs <;> simp

theorem boundKind_neg_infinity_ne (u : α) : boundKind (-infinity) u ≠ .double := by
  simp only [boundKind, if_pos OrderedScalar.le_neg_largest]
  split_ifs <;> simp

end Bounds

end MixedInteger

/-! ### Doubles -/

namespace MixedInteger.DoubleOrder

open Float.Model

/-- The place of a double among all others. -/
def rank : UnpackedFloat → ℤ ×ₗ ℤ ×ₗ ℤ
  | .infinity .positive => toLex (2, toLex (0, 0))
  | .finite .positive m e _ => toLex (1, toLex (e, (m : ℤ)))
  | .finite .negative m e _ => toLex (-1, toLex (-e, -(m : ℤ)))
  | .infinity .negative => toLex (-2, toLex (0, 0))
  | _ => toLex (0, toLex (0, 0))

theorem toLex_lt {a b c d e f : ℤ} :
    toLex (a, toLex (b, c)) < toLex (d, toLex (e, f)) ↔
      a < d ∨ a = d ∧ (b < e ∨ b = e ∧ c < f) := by
  simp [Prod.Lex.toLex_lt_toLex]

/-- The comparison of exponents and then significands, as one of ranks. -/
theorem compare_then (e e' : ℤ) (m m' : ℕ) :
    (compare e e').then (compare m m') =
      if e < e' ∨ e = e' ∧ m < m' then .lt else if e = e' ∧ m = m' then .eq else .gt := by
  have he : compare e e' = compareOfLessAndEq e e' := rfl
  have hm : compare m m' = compareOfLessAndEq m m' := rfl
  rw [he, hm]
  rcases lt_trichotomy e e' with h | rfl | h
  · simp [compareOfLessAndEq, h, Ordering.then]
  · rcases lt_trichotomy m m' with h | rfl | h
    · simp [compareOfLessAndEq, h, Ordering.then]
    · simp [compareOfLessAndEq, Ordering.then]
    · simp [compareOfLessAndEq, Ordering.then, h.not_gt, h.ne']
  · simp [compareOfLessAndEq, Ordering.then, h.not_gt, h.ne']

theorem compare_eq {a b : UnpackedFloat} (ha : a.isNaN = false) (hb : b.isNaN = false) :
    a.compare b =
      some (if rank a < rank b then .lt else if rank a = rank b then .eq else .gt) := by
  cases a with
  | notANumber => cases ha
  | infinity s =>
    cases b with
    | notANumber => cases hb
    | infinity t => cases s <;> cases t <;> rfl
    | zero t => cases s <;> rfl
    | finite t m e h =>
      cases s <;> cases t <;> dsimp only [UnpackedFloat.compare, rank] <;> simp [toLex_lt]
  | zero s =>
    cases b with
    | notANumber => cases hb
    | infinity t => cases t <;> rfl
    | zero t => rfl
    | finite t m e h => cases t <;> dsimp only [UnpackedFloat.compare, rank] <;> simp [toLex_lt]
  | finite s m e h =>
    cases b with
    | notANumber => cases hb
    | infinity t =>
      cases s <;> cases t <;> dsimp only [UnpackedFloat.compare, rank] <;> simp [toLex_lt]
    | zero t => cases s <;> dsimp only [UnpackedFloat.compare, rank] <;> simp [toLex_lt]
    | finite t m' e' h' =>
      cases s <;> cases t <;> dsimp only [UnpackedFloat.compare, rank] <;>
        simp only [toLex_lt, compare_then]
      -- below zero the greater magnitude is the lesser number
      · rcases lt_trichotomy e e' with h | rfl | h
        · simp [h, h.not_gt, h.ne]
        · rcases lt_trichotomy m m' with h | rfl | h
          · simp [h, h.not_gt]
            omega
          · simp
          · simp [h, h.not_gt, h.ne']
        · simp [h, h.not_gt, h.ne']
      · simp
      · simp
      · simp only [lt_self_iff_false, Int.ofNat_lt, true_and, false_or,
          EmbeddingLike.apply_eq_iff_eq, Prod.mk.injEq, Int.natCast_inj]

theorem compare_eq_none {a b : UnpackedFloat} (h : a.isNaN = true ∨ b.isNaN = true) :
    a.compare b = none := by
  obtain h | h := h
  · cases a <;> cases h
    rfl
  · cases b <;> cases h
    cases a <;> rfl

/-- The rank of a double. -/
def rankOf (x : Float) : ℤ ×ₗ ℤ ×ₗ ℤ := rank x.toModel.unpack

/-- A comparison holds between numbers only, and there it is one of ranks. -/
theorem le_iff {x y : Float} :
    x ≤ y ↔ x.isNaN = false ∧ y.isNaN = false ∧ rankOf x ≤ rankOf y := by
  have hle : x ≤ y ↔ (x.toModel.unpack.compare y.toModel.unpack).any (·.isLE) = true :=
    decide_eq_true_iff
  change _ ↔ x.toModel.unpack.isNaN = false ∧ y.toModel.unpack.isNaN = false ∧ _
  rw [hle]
  cases hx : x.toModel.unpack.isNaN
  · cases hy : y.toModel.unpack.isNaN
    · rw [compare_eq hx hy]
      rcases lt_trichotomy (rankOf x) (rankOf y) with h | h | h
      · simp [rankOf] at h ⊢; simp [h, h.le]
      · simp [rankOf] at h ⊢; simp [h]
      · simp [rankOf] at h ⊢; simp [h, h.not_gt, h.ne']
    · simp [compare_eq_none (.inr hy)]
  · simp [compare_eq_none (.inl hx)]

theorem lt_iff {x y : Float} :
    x < y ↔ x.isNaN = false ∧ y.isNaN = false ∧ rankOf x < rankOf y := by
  have hlt : x < y ↔ (x.toModel.unpack.compare y.toModel.unpack == some .lt) = true :=
    decide_eq_true_iff
  change _ ↔ x.toModel.unpack.isNaN = false ∧ y.toModel.unpack.isNaN = false ∧ _
  rw [hlt]
  cases hx : x.toModel.unpack.isNaN
  · cases hy : y.toModel.unpack.isNaN
    · rw [compare_eq hx hy]
      simp only [rankOf]
      split_ifs with h h' <;> simp [h]
    · simp [compare_eq_none (.inr hy)]
  · simp [compare_eq_none (.inl hx)]

theorem beq_iff {x y : Float} :
    (x == y) = true ↔ x.isNaN = false ∧ y.isNaN = false ∧ rankOf x = rankOf y := by
  change (x.toModel.unpack.compare y.toModel.unpack == some .eq) = true ↔
    x.toModel.unpack.isNaN = false ∧ y.toModel.unpack.isNaN = false ∧ rankOf x = rankOf y
  cases hx : x.toModel.unpack.isNaN
  · cases hy : y.toModel.unpack.isNaN
    · rw [compare_eq hx hy]
      simp only [rankOf]
      split_ifs with h h'
      · simp [h.ne]
      · simp [h']
      · simp [h']
    · simp [compare_eq_none (.inr hy)]
  · simp [compare_eq_none (.inl hx)]

/-- The sign is the first part of a rank, so the infinities are at the two ends. -/
theorem rank_le_infinity (a : UnpackedFloat) : rank a ≤ rank (.infinity .positive) := by
  rcases a with s | _ | s | ⟨s, m, e, h⟩ <;> try cases s
  all_goals
    dsimp only [rank]
    simp [Prod.Lex.toLex_le_toLex]

theorem infinity_le_rank (a : UnpackedFloat) : rank (.infinity .negative) ≤ rank a := by
  rcases a with s | _ | s | ⟨s, m, e, h⟩ <;> try cases s
  all_goals
    dsimp only [rank]
    simp [Prod.Lex.toLex_le_toLex]

instance : OrderedScalar Float where
  le_trans h h' := by
    rw [le_iff] at *
    exact ⟨h.1, h'.2.1, h.2.2.trans h'.2.2⟩
  le_total ha hb := by
    rw [le_iff, le_iff]
    exact (le_total (rankOf _) (rankOf _)).imp (⟨ha, hb, ·⟩) (⟨hb, ha, ·⟩)
  isNaN_left h := (le_iff.1 h).1
  isNaN_right h := (le_iff.1 h).2.1
  lt_iff := by
    intro a b
    rw [lt_iff, le_iff, le_iff]
    constructor
    · rintro ⟨ha, hb, h⟩
      exact ⟨⟨ha, hb, h.le⟩, fun h' => h'.2.2.not_gt h⟩
    · rintro ⟨⟨ha, hb, _⟩, h⟩
      exact ⟨ha, hb, not_le.1 fun h' => h ⟨hb, ha, h'⟩⟩
  beq_iff := by
    intro a b
    rw [beq_iff, le_iff, le_iff]
    constructor
    · rintro ⟨ha, hb, h⟩
      exact ⟨⟨ha, hb, h.le⟩, hb, ha, h.ge⟩
    · rintro ⟨⟨ha, hb, h⟩, _, _, h'⟩
      exact ⟨ha, hb, h.antisymm h'⟩
  isNaN_zero := by decide
  le_infinity h := le_iff.2 ⟨h, by decide, rank_le_infinity _⟩
  neg_infinity_le h := le_iff.2 ⟨by decide, h, infinity_le_rank _⟩
  isNaN_infinity := by decide
  isNaN_neg_infinity := by decide
  largest_lt := by decide
  lt_neg_largest := by decide

end MixedInteger.DoubleOrder
