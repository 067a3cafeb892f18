import MixedInteger.Number.Scalar
import MixedInteger.Proofs.Number.Order
import Mathlib.Algebra.BigOperators.Group.Finset.Basic
import Mathlib.Algebra.Order.Floor.Ring
import Mathlib.Data.Rat.Floor
import Mathlib.Tactic.FieldSimp
import Mathlib.Tactic.Linarith
import Mathlib.Tactic.NormNum
import Mathlib.Tactic.Ring

/-! Exact numbers: the rationals with two infinities and a value that is not a number. They
compare, and run into the infinities, as doubles do, but nothing is ever rounded. The little
arithmetic that a model relies on between solves holds of them: integers become numbers, and the
first coefficient of a sum is what it was. -/

namespace MixedInteger

inductive Extended where
  | nan
  | bottom
  | rat (q : ℚ)
  | top

namespace Extended

/-! ### Arithmetic -/

protected def neg : Extended → Extended
  | nan => nan
  | bottom => top
  | rat q => rat (-q)
  | top => bottom

protected def add : Extended → Extended → Extended
  | rat p, rat q => rat (p + q)
  | nan, _ | _, nan | bottom, top | top, bottom => nan
  | bottom, _ | _, bottom => bottom
  | top, _ | _, top => top

/-- Negative, zero or positive; not-a-number counts as zero. -/
def sign : Extended → ℤ
  | nan => 0
  | bottom => -1
  | rat q => if q < 0 then -1 else if 0 < q then 1 else 0
  | top => 1

/-- The infinity of a sign. -/
def infinite (s : ℤ) : Extended := if s < 0 then bottom else if 0 < s then top else nan

protected def mul : Extended → Extended → Extended
  | rat p, rat q => rat (p * q)
  | nan, _ | _, nan => nan
  | x, y => infinite (x.sign * y.sign)

protected def div : Extended → Extended → Extended
  | rat p, rat q => if q = 0 then infinite (sign (rat p)) else rat (p / q)
  | rat _, bottom | rat _, top => rat 0
  | bottom, rat q => if q < 0 then top else bottom
  | top, rat q => if q < 0 then bottom else top
  | _, _ => nan

/-! ### Comparison -/

def less : Extended → Extended → Bool
  | rat p, rat q => decide (p < q)
  | bottom, rat _ | bottom, top | rat _, top => true
  | _, _ => false

def atMost : Extended → Extended → Bool
  | rat p, rat q => decide (p ≤ q)
  | bottom, bottom | bottom, rat _ | bottom, top | rat _, top | top, top => true
  | _, _ => false

protected def beq : Extended → Extended → Bool
  | rat p, rat q => p == q
  | bottom, bottom | top, top => true
  | _, _ => false

def isNaN : Extended → Bool
  | nan => true
  | _ => false

def isInf : Extended → Bool
  | bottom | top => true
  | _ => false

def floorInt : Extended → ℤ
  | rat q => ⌊q⌋
  | _ => 0

def text : Extended → String
  | nan => "nan"
  | bottom => "-inf"
  | rat q => toString q
  | top => "inf"

instance : Scalar Extended where
  zero := rat 0
  one := rat 1
  add := Extended.add
  sub x y := x.add y.neg
  mul := Extended.mul
  div := Extended.div
  neg := Extended.neg
  lt x y := x.less y = true
  le x y := x.atMost y = true
  beq := Extended.beq
  decidableLT x y := inferInstanceAs (Decidable (x.less y = true))
  decidableLE x y := inferInstanceAs (Decidable (x.atMost y = true))
  isNaN := isNaN
  isInf := isInf
  infinity := top
  nan := nan
  largest := rat ((2 ^ 53 - 1) * 2 ^ 971)
  epsilon := rat (1 / 2 ^ 52)
  floorInt := floorInt
  ofInt? i := some (rat i)
  ofDecimal m e := rat (m * 10 ^ e)
  text := text

/-! ### The numbers among them -/

section Numbers
variable (p q : ℚ) (k : ℤ)

theorem zero_eq : (0 : Extended) = rat 0 := rfl

theorem one_eq : (1 : Extended) = rat 1 := rfl

theorem infinity_eq : (Scalar.infinity : Extended) = top := rfl

@[simp] theorem rat_inj : rat p = rat q ↔ p = q := Extended.rat.injEq .. ▸ Iff.rfl

@[simp] theorem neg_top : -top = bottom := rfl

@[simp] theorem neg_bottom : -bottom = top := rfl

@[simp] theorem neg_rat : -rat q = rat (-q) := rfl

@[simp] theorem rat_add_rat : rat p + rat q = rat (p + q) := rfl

@[simp] theorem rat_sub_rat : rat p - rat q = rat (p - q) := by
  rw [sub_eq_add_neg]
  rfl

@[simp] theorem rat_mul_rat : rat p * rat q = rat (p * q) := rfl

theorem rat_div_rat (hq : q ≠ 0) : rat p / rat q = rat (p / q) := if_neg hq

@[simp] theorem rat_lt_rat : rat p < rat q ↔ p < q := decide_eq_true_iff

@[simp] theorem rat_le_rat : rat p ≤ rat q ↔ p ≤ q := decide_eq_true_iff

@[simp] theorem rat_beq_rat : (rat p == rat q) = decide (p = q) := rfl

@[simp] theorem bottom_le_rat : bottom ≤ rat q := rfl

@[simp] theorem rat_le_top : rat q ≤ top := rfl

@[simp] theorem bottom_lt_rat : bottom < rat q := rfl

@[simp] theorem rat_lt_top : rat q < top := rfl

@[simp] theorem ofInt_eq : (Scalar.ofInt k : Extended) = rat k := rfl

@[simp] theorem floorInt_rat : Scalar.floorInt (rat q) = ⌊q⌋ := rfl

@[simp] theorem ceilInt_rat : Scalar.ceilInt (rat q) = ⌈q⌉ := by
  rw [Scalar.ceilInt, neg_rat, floorInt_rat, Int.floor_neg, neg_neg]

@[simp] theorem isNaN_rat : Scalar.isNaN (rat q) = false := rfl

@[simp] theorem isInf_rat : Scalar.isInf (rat q) = false := rfl

@[simp] theorem isInf_bottom : Scalar.isInf bottom = true := rfl

@[simp] theorem isInf_top : Scalar.isInf top = true := rfl

@[simp] theorem abs_rat : Scalar.abs (rat q) = rat |q| := by
  simp only [Scalar.abs, zero_eq, rat_lt_rat, rat_beq_rat, neg_rat]
  rcases lt_trichotomy q 0 with hq | rfl | hq
  · rw [if_pos hq, abs_of_neg hq]
  · simp
  · simp [hq.not_gt, hq.ne', abs_of_pos hq]

/-- From a number an infinity is infinitely far away, also relative to another number. -/
theorem not_abs_sub_div_le {x : Extended} (hx : x = bottom ∨ x = top) {q : ℚ} (hq : 0 ≤ q)
    (r : ℚ) : ¬Scalar.abs (rat p - x) / rat q ≤ rat r := by
  have habs : Scalar.abs (rat p - x) = top := by
    rcases hx with rfl | rfl <;> rfl
  have hdiv : top / rat q = top := if_neg hq.not_gt
  rw [habs, hdiv]
  exact Bool.false_ne_true

end Numbers

/-! ### Order -/

section Order
variable {x y z : Extended} {q r : ℚ}

theorem le_trans (h : x ≤ y) (h' : y ≤ z) : x ≤ z := by
  cases x <;> cases y <;> cases z <;>
    first | rfl | exact absurd h Bool.false_ne_true | exact absurd h' Bool.false_ne_true | skip
  rw [rat_le_rat] at h h' ⊢
  exact h.trans h'

/-- What is not below a number, but below another one, separates the two. -/
theorem le_of_not_lt (h : ¬x < rat q) (h' : x ≤ rat r) : q ≤ r := by
  cases x with
  | nan => cases h'
  | bottom => exact absurd (bottom_lt_rat q) h
  | rat p =>
    rw [rat_lt_rat, not_lt] at h
    exact h.trans ((rat_le_rat p r).1 h')
  | top => cases h'

end Order

/-! ### Sums -/

theorem sum_range (n : ℕ) (f : ℕ → ℚ) : Scalar.sum ((List.range n).map fun j => rat (f j)) =
    rat (∑ j ∈ Finset.range n, f j) := by
  induction n with
  | zero => rfl
  | succ n ih =>
    unfold Scalar.sum at ih ⊢
    rw [List.range_succ, List.map_append, List.foldl_append, ih, Finset.sum_range_succ]
    rfl

/-! ### Rounding -/

/-- The nearest integer, a half going to the even one. -/
def nearestTo (q : ℚ) : ℤ := Scalar.nearestInt (rat q)

theorem nearest_rat (q : ℚ) : Scalar.nearest (rat q) = .ok (rat (nearestTo q)) := rfl

theorem floor_le_nearestTo (q : ℚ) : ⌊q⌋ ≤ nearestTo q := by
  simp only [nearestTo, Scalar.nearestInt, floorInt_rat]
  split_ifs <;> omega

theorem nearestTo_le_ceil (q : ℚ) : nearestTo q ≤ ⌈q⌉ := by
  have hhalf : (Scalar.ofDecimal 5 (-1) : Extended) = rat (1 / 2) := by
    change rat _ = rat _
    norm_num
  have hfloor : ⌊q⌋ ≤ ⌈q⌉ := Int.floor_le_ceil q
  simp only [nearestTo, Scalar.nearestInt, floorInt_rat, ofInt_eq, rat_sub_rat, hhalf, rat_lt_rat]
  by_cases hq : q = ⌊q⌋
  · rw [if_pos (by rw [← hq]; norm_num)]
    exact hfloor
  · have hlt : ⌊q⌋ < ⌈q⌉ := by
      rw [Int.lt_ceil]
      exact lt_of_le_of_ne (Int.floor_le q) (Ne.symm hq)
    split_ifs <;> omega

end Extended

/-! ### Laws -/

section

open Scalar

class LawfulScalar (α : Type) [Scalar α] : Prop extends OrderedScalar α where
  isNaN_one : isNaN (1 : α) = false
  isNaN_ofInt (i : Int) : isNaN (ofInt i : α) = false
  zero_add {x : α} : (x == 0) = false → 0 + x = x

namespace Extended

instance : OrderedScalar Extended where
  le_trans := Extended.le_trans
  le_total {a b} ha hb := by
    cases a <;> cases b <;> first | exact absurd ha (by decide) | exact absurd hb (by decide) | skip
    all_goals first | exact .inl rfl | exact .inr rfl | skip
    rw [rat_le_rat, rat_le_rat]
    exact Std.le_total
  isNaN_left {a b} h := by cases a <;> cases b <;> first | rfl | cases h
  isNaN_right {a b} h := by cases a <;> cases b <;> first | rfl | cases h
  lt_iff {a b} := by
    change a.less b = true ↔ a.atMost b = true ∧ ¬b.atMost a = true
    cases a <;> cases b <;> simp [less, atMost]
    exact fun h => h.le
  beq_iff {a b} := by
    change a.beq b = true ↔ a.atMost b = true ∧ b.atMost a = true
    cases a <;> cases b <;> simp [Extended.beq, atMost]
    exact ⟨fun h => ⟨h.le, h.ge⟩, fun h => h.1.antisymm h.2⟩
  isNaN_zero := rfl
  le_infinity {a} h := by cases a <;> first | rfl | cases h
  neg_infinity_le {a} h := by cases a <;> first | rfl | cases h
  isNaN_infinity := rfl
  isNaN_neg_infinity := rfl
  largest_lt := rfl
  lt_neg_largest := rfl

instance : LawfulScalar Extended where
  isNaN_one := rfl
  isNaN_ofInt _ := rfl
  zero_add {x} _ := by
    cases x with
    | rat q =>
      rw [zero_eq, rat_add_rat, zero_add]
    | _ => rfl

end Extended

end

end MixedInteger
