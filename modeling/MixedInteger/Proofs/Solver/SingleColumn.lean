import MixedInteger.Proofs.Search.Choice
import MixedInteger.Proofs.Solver.Answers

/-! Programs with one column, solved exactly. Each constraint bounds the value from one side, so
the points are those between the greatest lower and the least upper end, and an optimum is at
one of the two. Other programs get no answer. The solver runs, and is exact as asked of one. -/

namespace MixedInteger

open Extended Finset

/-- The values `v` with `slope * v ≤ bound`. -/
structure HalfLine where
  slope : ℚ
  bound : ℚ

namespace HalfLine

def Contains (h : HalfLine) (v : ℚ) : Prop := h.slope * v ≤ h.bound

/-- Where the half-line ends, if it is bounded from below. -/
def lower? (h : HalfLine) : Option ℚ := if h.slope < 0 then some (h.bound / h.slope) else none

def upper? (h : HalfLine) : Option ℚ := if 0 < h.slope then some (h.bound / h.slope) else none

theorem contains_iff {h : HalfLine} {v : ℚ} : h.Contains v ↔
    (h.slope = 0 → 0 ≤ h.bound) ∧ (∀ l, h.lower? = some l → l ≤ v) ∧
      ∀ u, h.upper? = some u → v ≤ u := by
  unfold Contains lower? upper?
  rcases lt_trichotomy h.slope 0 with hneg | hzero | hpos
  · simp [hneg, hneg.ne, hneg.not_gt, div_le_iff_of_neg hneg, mul_comm v]
  · simp [hzero]
  · simp [hpos, hpos.ne', hpos.not_gt, le_div_iff₀ hpos, mul_comm v]

/-! ### Several of them -/

variable (hs : List HalfLine)

def lowers : List ℚ := hs.filterMap lower?

def uppers : List ℚ := hs.filterMap upper?

/-- Some value is in all of them. -/
def consistent : Bool :=
  (hs.all fun h => decide (h.slope = 0 → 0 ≤ h.bound)) &&
    (lowers hs).all fun l => (uppers hs).all fun u => decide (l ≤ u)

def greatestLower : Option ℚ := firstLeast (fun a b => decide (b < a)) (lowers hs)

def leastUpper : Option ℚ := firstLeast (fun a b => decide (a < b)) (uppers hs)

/-- The point where a cost is least, in a list that is consistent. -/
def leastPoint (cost : ℚ) : Option ℚ :=
  if 0 < cost then greatestLower hs
  else if cost < 0 then leastUpper hs
  else some ((greatestLower hs).getD ((leastUpper hs).getD 0))

variable {hs} {v l u : ℚ}

theorem forall_contains_iff : (∀ h ∈ hs, h.Contains v) ↔
    (∀ h ∈ hs, h.slope = 0 → 0 ≤ h.bound) ∧ (∀ l ∈ lowers hs, l ≤ v) ∧ ∀ u ∈ uppers hs, v ≤ u := by
  simp only [contains_iff, lowers, uppers, List.mem_filterMap]
  constructor
  · intro h
    refine ⟨fun a ha => (h a ha).1, ?_, ?_⟩
    · rintro l ⟨a, ha, hl⟩
      exact (h a ha).2.1 l hl
    · rintro u ⟨a, ha, hu⟩
      exact (h a ha).2.2 u hu
  · rintro ⟨hzero, hlower, hupper⟩ a ha
    exact ⟨hzero a ha, fun l hl => hlower l ⟨a, ha, hl⟩, fun u hu => hupper u ⟨a, ha, hu⟩⟩

theorem consistent_iff : consistent hs = true ↔
    (∀ h ∈ hs, h.slope = 0 → 0 ≤ h.bound) ∧ ∀ l ∈ lowers hs, ∀ u ∈ uppers hs, l ≤ u := by
  simp only [consistent, Bool.and_eq_true, List.all_eq_true, decide_eq_true_eq]

theorem consistent_of_contains (h : ∀ h ∈ hs, h.Contains v) : consistent hs = true := by
  obtain ⟨hzero, hlower, hupper⟩ := forall_contains_iff.1 h
  exact consistent_iff.2 ⟨hzero, fun l hl u hu => (hlower l hl).trans (hupper u hu)⟩

theorem greatestLower_spec (h : greatestLower hs = some l) :
    l ∈ lowers hs ∧ ∀ l' ∈ lowers hs, l' ≤ l := by
  refine ⟨firstLeast_mem h, fun l' hl' => ?_⟩
  refine firstLeast_le (R := fun a b => b ≤ a) (fun _ _ => le_rfl) (fun _ _ _ h h' => h'.trans h)
    (fun a _ b _ => ?_) h hl'
  split_ifs with hlt
  · exact (of_decide_eq_true hlt).le
  · exact not_lt.1 fun h => hlt (decide_eq_true h)

theorem leastUpper_spec (h : leastUpper hs = some u) :
    u ∈ uppers hs ∧ ∀ u' ∈ uppers hs, u ≤ u' := by
  refine ⟨firstLeast_mem h, fun u' hu' => ?_⟩
  refine firstLeast_le (R := fun a b => a ≤ b) (fun _ _ => le_rfl) (fun _ _ _ h h' => h.trans h')
    (fun a _ b _ => ?_) h hu'
  split_ifs with hlt
  · exact (of_decide_eq_true hlt).le
  · exact not_lt.1 fun h => hlt (decide_eq_true h)

theorem nil_of_firstLeast {β : Type} {less : β → β → Bool} {xs : List β}
    (h : firstLeast less xs = none) : xs = [] := by
  cases xs with
  | nil => rfl
  | cons x xs => cases h

section
variable (hconsistent : consistent hs = true)
include hconsistent

theorem contains_of_between (hlower : ∀ l ∈ lowers hs, l ≤ v) (hupper : ∀ u ∈ uppers hs, v ≤ u) :
    ∀ h ∈ hs, h.Contains v :=
  forall_contains_iff.2 ⟨(consistent_iff.1 hconsistent).1, hlower, hupper⟩

theorem contains_greatestLower (h : greatestLower hs = some l) : ∀ h ∈ hs, h.Contains l :=
  contains_of_between hconsistent (greatestLower_spec h).2
    ((consistent_iff.1 hconsistent).2 l (greatestLower_spec h).1)

theorem contains_leastUpper (h : leastUpper hs = some u) : ∀ h ∈ hs, h.Contains u :=
  contains_of_between hconsistent
    (fun l hl => (consistent_iff.1 hconsistent).2 l hl u (leastUpper_spec h).1)
    (leastUpper_spec h).2

/-- The point is one of the values, and none of them is cheaper. -/
theorem leastPoint_spec {cost : ℚ} (h : leastPoint hs cost = some v) :
    (∀ h ∈ hs, h.Contains v) ∧ ∀ v', (∀ h ∈ hs, h.Contains v') → cost * v ≤ cost * v' := by
  unfold leastPoint at h
  split_ifs at h with hpos hneg
  · refine ⟨contains_greatestLower hconsistent h, fun v' hv' => ?_⟩
    exact mul_le_mul_of_nonneg_left
      ((forall_contains_iff.1 hv').2.1 v (greatestLower_spec h).1) hpos.le
  · refine ⟨contains_leastUpper hconsistent h, fun v' hv' => ?_⟩
    exact mul_le_mul_of_nonpos_left
      ((forall_contains_iff.1 hv').2.2 v (leastUpper_spec h).1) hneg.le
  · have hzero : cost = 0 := le_antisymm (not_lt.1 hpos) (not_lt.1 hneg)
    refine ⟨?_, fun v' _ => by simp [hzero]⟩
    cases hl : greatestLower hs with
    | some l =>
      rw [hl, Option.getD_some, Option.some.injEq] at h
      exact h ▸ contains_greatestLower hconsistent hl
    | none =>
      cases hu : leastUpper hs with
      | some u =>
        rw [hl, hu, Option.getD_none, Option.getD_some, Option.some.injEq] at h
        exact h ▸ contains_leastUpper hconsistent hu
      | none =>
        have hlowers : lowers hs = [] := nil_of_firstLeast hl
        have huppers : uppers hs = [] := nil_of_firstLeast hu
        exact contains_of_between hconsistent (by simp [hlowers]) (by simp [huppers])

/-- Without an optimum there are values as cheap as one likes. -/
theorem exists_cheaper {cost : ℚ} (h : leastPoint hs cost = none) (b : ℚ) :
    ∃ v, (∀ h ∈ hs, h.Contains v) ∧ cost * v < b := by
  unfold leastPoint at h
  split_ifs at h with hpos hneg
  · have hlowers : lowers hs = [] := nil_of_firstLeast h
    let v := ((leastUpper hs).getD 0) ⊓ ((b - 1) / cost)
    refine ⟨v, contains_of_between hconsistent (by simp [hlowers]) fun u hu => ?_, ?_⟩
    · obtain ⟨u₀, -, hu₀⟩ := exists_firstLeast (fun a b : ℚ => decide (a < b))
        (List.ne_nil_of_mem hu)
      have hle : u₀ ≤ u := (leastUpper_spec hu₀).2 u hu
      refine inf_le_left.trans ?_
      rw [leastUpper, hu₀]
      exact hle
    · calc cost * v ≤ cost * ((b - 1) / cost) := mul_le_mul_of_nonneg_left inf_le_right hpos.le
        _ = b - 1 := mul_div_cancel₀ _ hpos.ne'
        _ < b := by linarith
  · have huppers : uppers hs = [] := nil_of_firstLeast h
    let v := ((greatestLower hs).getD 0) ⊔ ((b - 1) / cost)
    refine ⟨v, contains_of_between hconsistent (fun l hl => ?_) (by simp [huppers]), ?_⟩
    · obtain ⟨l₀, -, hl₀⟩ := exists_firstLeast (fun a b : ℚ => decide (b < a))
        (List.ne_nil_of_mem hl)
      have hle : l ≤ l₀ := (greatestLower_spec hl₀).2 l hl
      refine le_trans ?_ le_sup_left
      rw [greatestLower, hl₀]
      exact hle
    · calc cost * v ≤ cost * ((b - 1) / cost) := mul_le_mul_of_nonpos_left le_sup_right hneg.le
        _ = b - 1 := mul_div_cancel₀ _ hneg.ne
        _ < b := by linarith

end

end HalfLine

/-! ### The solver -/

namespace LinearProgram

/-- The constraints of a program with one column. -/
def halfLines (lp : LinearProgram Extended) : List HalfLine :=
  ((lp.ubMatrix.getD []).zip (lp.ubBound.getD [])).map (fun e => ⟨(e.1.getD 0 0).value, e.2.value⟩) ++
    ((lp.eqMatrix.getD []).zip (lp.eqBound.getD [])).flatMap (fun e =>
      [⟨(e.1.getD 0 0).value, e.2.value⟩, ⟨-(e.1.getD 0 0).value, -e.2.value⟩]) ++
    lp.bounds.flatMap fun b =>
      (b.1.toList.map fun l => ⟨-1, -l.value⟩) ++ b.2.toList.map fun u => ⟨1, u.value⟩

/-- An answer without marginals. -/
def answerAt (lp : LinearProgram Extended) (v : ℚ) : Answer Extended :=
  { point := [rat v]
    value := dot lp.cost [rat v]
    ubMarginals := []
    eqMarginals := []
    lowerMarginals := []
    upperMarginals := [] }

def noAnswer (status : ℤ) : Answer Extended :=
  { status := status
    point := []
    value := 0
    ubMarginals := []
    eqMarginals := []
    lowerMarginals := []
    upperMarginals := [] }

def solveSingle (lp : LinearProgram Extended) : Except SolverError (Answer Extended) :=
  match lp.cost with
  | [cost] =>
    if HalfLine.consistent lp.halfLines then
      match HalfLine.leastPoint lp.halfLines cost.value with
      | some v => .ok (lp.answerAt v)
      | none => .ok (noAnswer 3)
    else .ok (noAnswer 2)
  | _ => .error .exhausted

variable {lp : LinearProgram Extended} {cost : Extended}

theorem dot_single {a : Extended} (ha : a.IsRat) (v : ℚ) : dot [a] [rat v] = rat (a.value * v) := by
  rw [ha.eq]
  change rat (0 + _) = _
  rw [zero_add]
  rfl

theorem eq_single {row : List Extended} (hlength : row.length = 1) (hrat : ∀ a ∈ row, a.IsRat) :
    ∃ a : Extended, row = [a] ∧ a.IsRat := by
  obtain ⟨a, rfl⟩ := List.length_eq_one_iff.1 hlength
  exact ⟨a, rfl, hrat a (List.mem_singleton_self a)⟩

theorem lower_iff {l : Option Extended} (hl : ∀ a, l = some a → a.IsRat) {v : ℚ} :
    (∀ a, l = some a → a ≤ rat v) ↔
      ∀ h ∈ l.toList.map fun a => (⟨-1, -a.value⟩ : HalfLine), h.Contains v := by
  cases l with
  | none => simp
  | some a =>
    have hle : a ≤ rat v ↔ a.value ≤ v := by
      rw [(hl a rfl).eq, rat_le_rat]
      rfl
    simp [HalfLine.Contains, hle]

theorem upper_iff {u : Option Extended} (hu : ∀ a, u = some a → a.IsRat) {v : ℚ} :
    (∀ a, u = some a → rat v ≤ a) ↔
      ∀ h ∈ u.toList.map fun a => (⟨1, a.value⟩ : HalfLine), h.Contains v := by
  cases u with
  | none => simp
  | some a =>
    have hle : rat v ≤ a ↔ v ≤ a.value := by
      rw [(hu a rfl).eq, rat_le_rat]
      rfl
    simp [HalfLine.Contains, hle]

/-- The half-lines hold the points of the program. -/
theorem satisfied_iff_halfLines (hlp : lp.Rational) (hcost : lp.cost = [cost]) {x : ℕ → ℚ} :
    lp.Satisfied x ↔ ∀ h ∈ lp.halfLines, h.Contains (x 0) := by
  have hvalues : lp.values x = [rat (x 0)] := by rw [values, hcost]; rfl
  have hone : lp.cost.length = 1 := by rw [hcost]; rfl
  have hub : ∀ e ∈ (lp.ubMatrix.getD []).zip (lp.ubBound.getD []),
      dot e.1 (lp.values x) ≤ e.2 ↔ (e.1.getD 0 0).value * x 0 ≤ e.2.value := by
    rintro ⟨row, b⟩ he
    obtain ⟨hrow, hb⟩ := List.of_mem_zip he
    obtain ⟨a, rfl, ha⟩ := eq_single ((hlp.ubMatrix row hrow).1.trans hone) (hlp.ubMatrix row hrow).2
    rw [hvalues, dot_single ha, (hlp.ubBound b hb).eq, rat_le_rat]
    rfl
  have heq : ∀ e ∈ (lp.eqMatrix.getD []).zip (lp.eqBound.getD []),
      dot e.1 (lp.values x) = e.2 ↔ (e.1.getD 0 0).value * x 0 = e.2.value := by
    rintro ⟨row, b⟩ he
    obtain ⟨hrow, hb⟩ := List.of_mem_zip he
    obtain ⟨a, rfl, ha⟩ := eq_single ((hlp.eqMatrix row hrow).1.trans hone) (hlp.eqMatrix row hrow).2
    rw [hvalues, dot_single ha, (hlp.eqBound b hb).eq, rat_inj]
    rfl
  obtain ⟨⟨l, u⟩, hbounds⟩ := List.length_eq_one_iff.1 (hlp.boundsLength.trans hone)
  obtain ⟨hl, hu⟩ := hlp.bounds (l, u) (by simp [hbounds])
  have hsatisfied : lp.Satisfied x ↔
      (∀ e ∈ (lp.ubMatrix.getD []).zip (lp.ubBound.getD []), dot e.1 (lp.values x) ≤ e.2) ∧
      (∀ e ∈ (lp.eqMatrix.getD []).zip (lp.eqBound.getD []), dot e.1 (lp.values x) = e.2) ∧
      (∀ a, l = some a → a ≤ rat (x 0)) ∧ ∀ a, u = some a → rat (x 0) ≤ a := by
    have hzip : lp.bounds.zip (lp.values x) = [((l, u), rat (x 0))] := by
      rw [hbounds, hvalues]
      rfl
    constructor
    · exact fun h => ⟨h.ub, h.eq, h.bounds ((l, u), rat (x 0)) (by simp [hzip])⟩
    · rintro ⟨hub, heq, hside⟩
      refine ⟨hub, heq, fun e he => ?_⟩
      rw [hzip, List.mem_singleton] at he
      exact he ▸ hside
  rw [hsatisfied, halfLines, List.forall_mem_append, List.forall_mem_append, and_assoc, hbounds]
  refine and_congr ?_ (and_congr ?_ ?_)
  · rw [List.forall_mem_map]
    exact forall₂_congr hub
  · rw [List.forall_mem_flatMap]
    refine forall₂_congr fun e he => (heq e he).trans ?_
    simp only [List.mem_cons, List.not_mem_nil, or_false, forall_eq_or_imp, forall_eq,
      HalfLine.Contains, neg_mul, neg_le_neg_iff]
    exact le_antisymm_iff
  · rw [List.flatMap_singleton, List.forall_mem_append, lower_iff hl, upper_iff hu]

/-- The solver is right about every program that it answers. -/
theorem solveSingle_answers (hlp : lp.Rational) {a : Answer Extended}
    (h : lp.solveSingle = .ok a) : lp.Answers a := by
  unfold solveSingle at h
  split at h
  · next cost hcost =>
    have hvalues : ∀ v, lp.values (fun _ => v) = [rat v] := by
      intro v
      rw [values, hcost]
      rfl
    have hdot : ∀ x : ℕ → ℚ, dot lp.cost (lp.values x) = rat (cost.value * x 0) := by
      intro x
      have hrat : cost.IsRat := hlp.cost cost (by simp [hcost])
      rw [values, hcost]
      exact dot_single hrat (x 0)
    have hsat := fun x => satisfied_iff_halfLines (x := x) hlp hcost
    split_ifs at h with hconsistent
    · split at h
      · next v hv =>
        cases h
        obtain ⟨hmem, hleast⟩ := HalfLine.leastPoint_spec hconsistent hv
        refine .optimum (x := fun _ => v) rfl (hvalues v).symm ?_ ((hsat _).2 hmem) fun y hy => ?_
        · rw [hvalues]
          rfl
        · rw [hdot, hdot, rat_le_rat]
          exact hleast _ ((hsat y).1 hy)
      · next hnone =>
        cases h
        refine .unbounded rfl fun b => ?_
        obtain ⟨v, hmem, hlt⟩ := HalfLine.exists_cheaper hconsistent hnone b
        refine ⟨fun _ => v, (hsat _).2 hmem, ?_⟩
        rw [hdot, rat_lt_rat]
        exact hlt
    · cases h
      refine .infeasible rfl fun y hy => hconsistent ?_
      exact HalfLine.consistent_of_contains ((hsat y).1 hy)
  · cases h

end LinearProgram

/-- A host that solves programs with one column; its clock stands still. -/
def Host.single {σ : Type} : Host Extended σ where
  solve r w := (r.program.solveSingle, w)
  now _ := 0

theorem Host.single_isExact {σ : Type} : (Host.single (σ := σ)).IsExact :=
  fun _ _ _ hr h => LinearProgram.solveSingle_answers hr h

/-! ### A problem with one column -/

/-- The greatest integer `x` between zero and ten with `2 x ≤ 7`. -/
def halves : Problem Extended where
  direction := .maximize
  columns := [{ bound := .double, lower := 0, upper := rat 10, kind := .integer, cost := 1 }]
  rows := [{ bound := .upper, upper := rat 7, coefs := [(1, rat 2)] }]

theorem halves_rational : halves.Rational where
  constant := rfl
  cost := by simp [halves, Extended.IsRat, one_eq, value]
  proper := by
    simp only [halves, List.mem_singleton, forall_eq]
    exact ⟨.inr rfl, .inr rfl⟩
  whole := by
    simp only [halves, List.mem_singleton, forall_eq]
    exact fun _ => ⟨.inr ⟨0, by simp [zero_eq]⟩, .inr ⟨10, by simp⟩⟩
  rows := by
    simp only [halves, List.mem_singleton, forall_eq]
    exact ⟨by simp [Extended.IsRat, value], rfl, (fun h => nomatch h), fun _ => rfl⟩

end MixedInteger
