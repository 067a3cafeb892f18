import MixedInteger.Problem.LinearProgram
import MixedInteger.Problem.Query
import MixedInteger.Proofs.Number.Extended
import MixedInteger.Search.Tree
import Mathlib.Algebra.Order.BigOperators.Ring.Finset

/-! Points of a problem whose data are exact. A point gives a rational value to every
column, counted from zero. It is feasible when it keeps to the bounds of the columns, to
the rows and to integrality; without integrality it is a point of the relaxation. -/

namespace MixedInteger

open Extended Finset

/-! ### Values -/

/-- The rational number behind an exact one. -/
def Extended.value : Extended → ℚ
  | rat q => q
  | _ => 0

/-- Neither an infinity nor not-a-number. -/
def Extended.IsRat (x : Extended) : Prop := x = rat x.value

theorem Extended.IsRat.eq {x : Extended} (h : x.IsRat) : x = rat x.value := h

theorem Extended.isRat_rat (q : ℚ) : (rat q).IsRat := rfl

theorem Extended.not_isRat_bottom : ¬(bottom : Extended).IsRat := Extended.noConfusion

theorem Extended.not_isRat_top : ¬(top : Extended).IsRat := Extended.noConfusion

/-- The first `n` values of a point. -/
def firstValues (n : ℕ) (x : ℕ → ℚ) : List Extended := (List.range n).map fun j => rat (x j)

@[simp] theorem length_firstValues (n : ℕ) (x : ℕ → ℚ) : (firstValues n x).length = n := by
  simp [firstValues]

theorem valueAt_firstValues {n j : ℕ} (hj : j < n) (x : ℕ → ℚ) :
    valueAt (firstValues n x) ((j + 1 : ℕ) : ℤ) = rat (x j) := by
  have hpos : ¬((j + 1 : ℕ) : ℤ) < 1 := by omega
  have hindex : (((j + 1 : ℕ) : ℤ) - 1).toNat = j := by omega
  rw [valueAt, if_neg hpos, hindex]
  simp [firstValues, hj]

theorem zipWith_range {β γ δ : Type} {f : β → γ → δ} {g : ℕ → γ} {h : ℕ → δ} {xs : List β}
    (hf : ∀ j x, xs[j]? = some x → f x (g j) = h j) :
    List.zipWith f xs ((List.range xs.length).map g) = (List.range xs.length).map h := by
  refine List.ext_getElem (by simp) fun j hj hj' => ?_
  simp only [List.length_zipWith, List.length_map, List.length_range, min_self] at hj
  simp only [List.getElem_zipWith, List.getElem_map, List.getElem_range]
  exact hf j _ (List.getElem?_eq_getElem hj)

/-! ### Linear forms -/

namespace Row

variable (r : Row Extended) (n : ℕ) (x : ℕ → ℚ)

def coefAt (j : ℕ) : ℚ := (r.coef (j + 1)).value

/-- The value of the linear form of a row at a point. -/
def activity : ℚ := ∑ j ∈ range n, r.coefAt j * x j

/-- The activity keeps to the bounds of the row. -/
def Holds : Prop := r.lower ≤ rat (r.activity n x) ∧ rat (r.activity n x) ≤ r.upper

/-- The data of a row are rational: bounds are finite on the sides that its kind uses, and
infinite elsewhere. -/
structure Rational : Prop where
  coefs : ∀ e ∈ r.coefs, e.2.IsRat
  sides : r.bound.sides r.lower r.upper = (r.lower, r.upper)
  lower : r.bound.hasLower = true → r.lower.IsRat
  upper : r.bound.hasUpper = true → r.upper.IsRat

variable {r}

theorem coef_eq (hr : ∀ e ∈ r.coefs, e.2.IsRat) (j : ℕ) : r.coef (j + 1) = rat (r.coefAt j) := by
  unfold coefAt coef
  cases hl : r.coefs.lookup (j + 1) with
  | none => rfl
  | some v =>
    obtain ⟨e, he, heq⟩ : ∃ e ∈ r.coefs, e.2 = v := by
      obtain ⟨l₁, l₂, heq, -⟩ := List.lookup_eq_some_iff.1 hl
      exact ⟨(j + 1, v), by simp [heq], rfl⟩
    exact heq ▸ hr e he

theorem dense_eq (hr : ∀ e ∈ r.coefs, e.2.IsRat) : r.dense n = firstValues n r.coefAt :=
  List.map_congr_left fun j _ => coef_eq hr j

theorem dot_firstValues (a : ℕ → ℚ) : dot (firstValues n a) (firstValues n x) =
    rat (∑ j ∈ range n, a j * x j) := by
  have hmul : List.zipWith (· * ·) (firstValues n a) (firstValues n x) =
      (List.range n).map fun j => rat (a j * x j) := by
    rw [firstValues, firstValues, List.zipWith_map, List.zipWith_self]
    rfl
  rw [dot, hmul, sum_range]

theorem dot_dense (hr : ∀ e ∈ r.coefs, e.2.IsRat) :
    dot (r.dense n) (firstValues n x) = rat (r.activity n x) := by
  rw [dense_eq n hr, dot_firstValues]
  rfl

end Row

/-! ### Points of a problem -/

namespace Problem

variable (p : Problem Extended) (x : ℕ → ℚ)

def costAt (j : ℕ) : ℚ := ((p.columns[j]?).map fun c => c.cost.value).getD 0

/-- Is the column an integer one? -/
def isInteger (j : ℕ) : Bool := (p.columns[j]?).any fun c => c.kind = .integer

/-- The numbers of the integer columns, counted from zero. -/
def integers : Finset ℕ := (range p.columnCount).filter fun j => p.isInteger j

/-- The objective at a point. -/
def valueOf : ℚ := p.constant.value + ∑ j ∈ range p.columnCount, p.costAt j * x j

/-- The sign that turns the objective into one to minimise. -/
def sign : ℚ := if p.direction = .maximize then -1 else 1

/-- The problem with other rows. -/
def withRows (rows : List (Row Extended)) : Problem Extended := { p with rows := rows }

/-- A point that keeps to bounds and rows. -/
structure Relaxed : Prop where
  within : ∀ {j c}, p.columns[j]? = some c → c.lower ≤ rat (x j) ∧ rat (x j) ≤ c.upper
  holds : ∀ r ∈ p.rows, r.Holds p.columnCount x

def Integral : Prop := ∀ j ∈ p.integers, ∃ k : ℤ, x j = k

/-- A point that keeps to bounds, rows and integrality. -/
structure Feasible : Prop where
  relaxed : p.Relaxed x
  integral : p.Integral x

/-- Bounds that are finite or infinite on their own side. -/
def ProperBounds (lower upper : Extended) : Prop :=
  (lower = bottom ∨ lower.IsRat) ∧ (upper = top ∨ upper.IsRat)

/-- Bounds that are integers or infinite on their own side. -/
def WholeBounds (lower upper : Extended) : Prop :=
  (lower = bottom ∨ ∃ k : ℤ, lower = rat k) ∧ (upper = top ∨ ∃ k : ℤ, upper = rat k)

/-- The data of a problem are rational. A bound may be infinite on its own side, and an integer
column has integers for its finite bounds. -/
structure Rational : Prop where
  constant : p.constant.IsRat
  cost : ∀ c ∈ p.columns, c.cost.IsRat
  proper : ∀ c ∈ p.columns, ProperBounds c.lower c.upper
  whole : ∀ c ∈ p.columns, c.kind = .integer → WholeBounds c.lower c.upper
  rows : ∀ r ∈ p.rows, r.Rational

variable {p x}

theorem mem_integers {j : ℕ} :
    j ∈ p.integers ↔ ∃ c, p.columns[j]? = some c ∧ c.kind = .integer := by
  unfold integers isInteger columnCount
  rw [mem_filter, mem_range]
  constructor
  · rintro ⟨hj, hk⟩
    have hc : p.columns[j]? = some p.columns[j] := List.getElem?_eq_getElem hj
    exact ⟨_, hc, by simpa [hc] using hk⟩
  · rintro ⟨c, hc, hk⟩
    exact ⟨(List.getElem?_eq_some_iff.1 hc).1, by simp [hc, hk]⟩

theorem sense_eq : p.sense = rat p.sign := by
  unfold sense sign
  split_ifs <;> rfl

theorem sign_mul_sign : p.sign * p.sign = 1 := by
  unfold sign
  split_ifs <;> norm_num

theorem abs_sign_mul (a : ℚ) : |p.sign * a| = |a| := by
  unfold sign
  split_ifs <;> simp

/-- The objective of a list of values is the one of the point. -/
theorem objectiveAt_firstValues (hp : p.Rational) :
    Tree.objectiveAt p (firstValues p.columnCount x) = rat (p.valueOf x) := by
  have hterm : ∀ j c, p.columns[j]? = some c → c.cost * rat (x j) = rat (p.costAt j * x j) := by
    intro j c hc
    have hcost := hp.cost c (List.mem_of_getElem? hc)
    simp only [costAt, hc, Option.map_some, Option.getD_some]
    rw [hcost.eq]
    rfl
  unfold Tree.objectiveAt firstValues
  rw [columnCount, zipWith_range hterm, sum_range, hp.constant.eq]
  rfl

/-- How far a linear form can move when the integer columns are rounded. -/
theorem abs_sum_sub_le {a y : ℕ → ℚ} {τ : ℚ} (hint : ∀ j ∈ p.integers, |y j - x j| ≤ τ)
    (hsame : ∀ j, j ∉ p.integers → y j = x j) :
    |∑ j ∈ range p.columnCount, a j * y j - ∑ j ∈ range p.columnCount, a j * x j| ≤
      τ * ∑ j ∈ p.integers, |a j| := by
  have hterm : ∀ j ∈ range p.columnCount,
      |a j * y j - a j * x j| ≤ if p.isInteger j then τ * |a j| else 0 := by
    intro j hj
    rw [← mul_sub, abs_mul, mul_comm]
    split_ifs with hk
    · exact mul_le_mul_of_nonneg_right (hint j (mem_filter.2 ⟨hj, hk⟩)) (abs_nonneg _)
    · rw [hsame j fun h => hk (mem_filter.1 h).2, sub_self, abs_zero, zero_mul]
  rw [← sum_sub_distrib]
  calc |∑ j ∈ range p.columnCount, (a j * y j - a j * x j)|
      ≤ ∑ j ∈ range p.columnCount, |a j * y j - a j * x j| := abs_sum_le_sum_abs ..
    _ ≤ ∑ j ∈ range p.columnCount, if p.isInteger j then τ * |a j| else 0 := sum_le_sum hterm
    _ = τ * ∑ j ∈ p.integers, |a j| := by rw [integers, sum_filter, mul_sum]; simp

end Problem

end MixedInteger
