import MixedInteger.Proofs.Solver.SingleColumn
import Mathlib.Algebra.BigOperators.Field
import Mathlib.Data.List.GetD

/-! Programs of any size, solved exactly by elimination. The columns are eliminated one after
another from the constraints and from a level that the cost must not exceed, until half-lines
for the level are left. Their least point is the optimum, and the columns get their values back
in the opposite order. Every program gets an answer, and a rational one gets a right answer. -/

namespace MixedInteger

open Extended Finset

/-- The points `x` with `∑ slopes j * x j ≤ bound`, over the coordinates that there are. -/
structure HalfSpace where
  slopes : ℕ → ℚ
  bound : ℚ

namespace HalfSpace

variable (n : ℕ) (h : HalfSpace) (x : ℕ → ℚ)

/-- The linear form in the first `n` coordinates. -/
def form : ℚ := ∑ j ∈ range n, h.slopes j * x j

def Contains : Prop := h.form n x ≤ h.bound

/-- The half-space on the other side. -/
def opposite : HalfSpace := ⟨fun j => -h.slopes j, -h.bound⟩

/-- The values of coordinate `n` when those before it are given. -/
def along : HalfLine := ⟨h.slopes n, h.bound - h.form n x⟩

variable {n h x}

theorem form_congr {y : ℕ → ℚ} (hxy : ∀ j < n, x j = y j) : h.form n x = h.form n y :=
  sum_congr rfl fun j hj => by rw [hxy j (mem_range.1 hj)]

theorem along_congr {y : ℕ → ℚ} (hxy : ∀ j < n, x j = y j) : h.along n x = h.along n y := by
  rw [along, along, form_congr hxy]

theorem contains_opposite : h.opposite.Contains n x ↔ h.bound ≤ h.form n x := by
  simp only [Contains, form, opposite, neg_mul, sum_neg_distrib, neg_le_neg_iff]

theorem contains_succ : h.Contains (n + 1) x ↔ (h.along n x).Contains (x n) := by
  rw [Contains, form, sum_range_succ, HalfLine.Contains, along, form, le_sub_iff_add_le, add_comm]

theorem forall_contains_succ {hs : List HalfSpace} : (∀ h ∈ hs, h.Contains (n + 1) x) ↔
    ∀ l ∈ hs.map (along n · x), l.Contains (x n) := by
  rw [List.forall_mem_map]
  exact forall₂_congr fun _ _ => contains_succ

/-! ### Eliminating a coordinate -/

/-- What a lower and an upper bound of coordinate `n` say of the coordinates before it. -/
def meet (n : ℕ) (l u : HalfSpace) : HalfSpace where
  slopes j := u.slopes j / u.slopes n - l.slopes j / l.slopes n
  bound := u.bound / u.slopes n - l.bound / l.slopes n

/-- The half-spaces that are left when coordinate `n` may take any value. -/
def eliminate (n : ℕ) (hs : List HalfSpace) : List HalfSpace :=
  (hs.filter fun h => h.slopes n = 0) ++
    (hs.filter fun h => h.slopes n < 0).flatMap fun l =>
      (hs.filter fun h => 0 < h.slopes n).map (meet n l)

theorem contains_meet {l u : HalfSpace} : (meet n l u).Contains n x ↔
    (l.bound - l.form n x) / l.slopes n ≤ (u.bound - u.form n x) / u.slopes n := by
  have hform : (meet n l u).form n x =
      u.form n x / u.slopes n - l.form n x / l.slopes n := by
    rw [form, form, form, sum_div, sum_div, ← sum_sub_distrib]
    refine sum_congr rfl fun j _ => ?_
    change (u.slopes j / u.slopes n - l.slopes j / l.slopes n) * x j = _
    ring
  rw [Contains, hform, meet, sub_div, sub_div]
  constructor <;> intro h <;> linarith

variable {hs : List HalfSpace}

theorem mem_lowers_along {v : ℚ} : v ∈ HalfLine.lowers (hs.map (along n · x)) ↔
    ∃ l ∈ hs, l.slopes n < 0 ∧ (l.bound - l.form n x) / l.slopes n = v := by
  simp [HalfLine.lowers, HalfLine.lower?, along]

theorem mem_uppers_along {v : ℚ} : v ∈ HalfLine.uppers (hs.map (along n · x)) ↔
    ∃ u ∈ hs, 0 < u.slopes n ∧ (u.bound - u.form n x) / u.slopes n = v := by
  simp [HalfLine.uppers, HalfLine.upper?, along]

/-- The coordinate has a value exactly when the half-spaces that are left hold the others. -/
theorem consistent_along : HalfLine.consistent (hs.map (along n · x)) = true ↔
    ∀ h ∈ eliminate n hs, h.Contains n x := by
  rw [HalfLine.consistent_iff, eliminate, List.forall_mem_append, List.forall_mem_map]
  refine and_congr ?_ ?_
  · simp only [List.mem_filter, decide_eq_true_eq, and_imp]
    refine forall₂_congr fun h _ => ?_
    change (h.slopes n = 0 → 0 ≤ h.bound - h.form n x) ↔ _
    rw [sub_nonneg, Contains]
  · simp only [mem_lowers_along, mem_uppers_along, List.mem_flatMap, List.mem_map, List.mem_filter,
      decide_eq_true_eq]
    constructor
    · rintro h _ ⟨l, ⟨hl, hneg⟩, u, ⟨hu, hpos⟩, rfl⟩
      exact contains_meet.2 (h _ ⟨l, hl, hneg, rfl⟩ _ ⟨u, hu, hpos, rfl⟩)
    · rintro h _ ⟨l, hl, hneg, rfl⟩ _ ⟨u, hu, hpos, rfl⟩
      exact contains_meet.1 (h _ ⟨l, ⟨hl, hneg⟩, u, ⟨hu, hpos⟩, rfl⟩)

/-! ### Eliminating all but the first -/

/-- Eliminates the coordinates from `n` down to one. -/
def project : ℕ → List HalfSpace → List HalfSpace
  | 0, hs => hs
  | n + 1, hs => project n (eliminate (n + 1) hs)

/-- A point over a value of coordinate zero. -/
def lift : ℕ → List HalfSpace → ℚ → ℕ → ℚ
  | 0, _, v => fun _ => v
  | n + 1, hs, v =>
    let x := lift n (eliminate (n + 1) hs) v
    Function.update x (n + 1) ((HalfLine.leastPoint (hs.map (along (n + 1) · x)) 0).getD 0)

theorem lift_zero (n : ℕ) (hs : List HalfSpace) (v : ℚ) : lift n hs v 0 = v := by
  induction n generalizing hs with
  | zero => rfl
  | succ n ih => exact (Function.update_of_ne (Nat.zero_ne_add_one n) ..).trans (ih _)

theorem contains_project (h : ∀ h ∈ hs, h.Contains (n + 1) x) :
    ∀ h ∈ project n hs, h.Contains 1 x := by
  induction n generalizing hs with
  | zero => exact h
  | succ n ih =>
    refine ih (consistent_along.1 ?_)
    exact HalfLine.consistent_of_contains (forall_contains_succ.1 h)

theorem contains_lift {v : ℚ} (h : ∀ h ∈ project n hs, h.Contains 1 fun _ => v) :
    ∀ h ∈ hs, h.Contains (n + 1) (lift n hs v) := by
  induction n generalizing hs with
  | zero => exact h
  | succ n ih =>
    have hconsistent := consistent_along.2 (ih h)
    rw [forall_contains_succ, lift, Function.update_self]
    have hsame : ∀ j < n + 1, ∀ u, Function.update (lift n (eliminate (n + 1) hs) v) (n + 1) u j =
        lift n (eliminate (n + 1) hs) v j := fun j hj u => Function.update_of_ne hj.ne ..
    simp only [along_congr fun j hj => hsame j hj _]
    -- at no cost every consistent list has a least point
    have hleast : ∀ hs, HalfLine.leastPoint hs 0 = some ((HalfLine.leastPoint hs 0).getD 0) :=
      fun _ => rfl
    exact (HalfLine.leastPoint_spec hconsistent (hleast _)).1

end HalfSpace

/-! ### The solver -/

namespace LinearProgram

variable (lp : LinearProgram Extended)

/-- A row of a program; coordinate zero is the level, and the columns come after it. -/
def halfSpace (level : ℚ) (row : List Extended) (bound : Extended) : HalfSpace where
  slopes
    | 0 => level
    | j + 1 => (row.getD j 0).value
  bound := bound.value

/-- A bound of one column. -/
def sideOf (sign : ℚ) (j : ℕ) (bound : Extended) : HalfSpace where
  slopes k := if k = j + 1 then sign else 0
  bound := sign * bound.value

def constraints : List HalfSpace :=
  ((lp.ubMatrix.getD []).zip (lp.ubBound.getD [])).map (fun e => halfSpace 0 e.1 e.2) ++
    ((lp.eqMatrix.getD []).zip (lp.eqBound.getD [])).flatMap (fun e =>
      [halfSpace 0 e.1 e.2, (halfSpace 0 e.1 e.2).opposite]) ++
    lp.bounds.zipIdx.flatMap fun b =>
      (b.1.1.toList.map (sideOf (-1) b.2)) ++ b.1.2.toList.map (sideOf 1 b.2)

/-- The constraints, and the cost below the level. -/
def system : List HalfSpace := halfSpace (-1) lp.cost 0 :: lp.constraints

/-- The half-lines that are left for the level. -/
def levels : List HalfLine :=
  (HalfSpace.project lp.cost.length lp.system).map (HalfSpace.along 0 · fun _ => 0)

/-! ### The system of a program -/

/-- The cost of a point, as a rational number. -/
def costOf (x : ℕ → ℚ) : ℚ := ∑ j ∈ range lp.cost.length, (lp.cost.getD j 0).value * x j

/-- A point with a level in front of it. -/
def levelled (v : ℚ) (x : ℕ → ℚ) : ℕ → ℚ
  | 0 => v
  | j + 1 => x j

theorem levelled_tail (x : ℕ → ℚ) : levelled (x 0) (fun j => x (j + 1)) = x := by
  funext j
  cases j <;> rfl

variable {lp} {n : ℕ} {v : ℚ} {x : ℕ → ℚ}

theorem dot_eq {row : List Extended} (hlength : row.length = n) (hrow : ∀ a ∈ row, a.IsRat) :
    dot row (firstValues n x) = rat (∑ j ∈ range n, (row.getD j 0).value * x j) := by
  have heq : row = firstValues n fun j => (row.getD j 0).value := by
    refine List.ext_getElem (by simp [hlength]) fun j hj _ => ?_
    simp only [firstValues, List.getElem_map, List.getElem_range, List.getD_eq_getElem _ _ hj]
    exact (hrow _ (List.getElem_mem hj)).eq
  rw [heq, Row.dot_firstValues, ← heq]

theorem Rational.dot_cost (hlp : lp.Rational) (x : ℕ → ℚ) :
    dot lp.cost (lp.values x) = rat (lp.costOf x) := dot_eq rfl hlp.cost

theorem form_halfSpace (level : ℚ) {row : List Extended} (bound : Extended)
    (hlength : row.length = n) (hrow : ∀ a ∈ row, a.IsRat) :
    rat ((halfSpace level row bound).form (n + 1) (levelled v x)) =
      dot row (firstValues n x) + rat (level * v) := by
  rw [HalfSpace.form, sum_range_succ', dot_eq hlength hrow]
  rfl

theorem contains_sideOf {sign : ℚ} {j : ℕ} (hj : j < n) {bound : Extended} :
    (sideOf sign j bound).Contains (n + 1) (levelled v x) ↔ sign * x j ≤ sign * bound.value := by
  have hform : (sideOf sign j bound).form (n + 1) (levelled v x) = sign * x j := by
    rw [HalfSpace.form, sum_range_succ']
    simp [sideOf, levelled, hj]
  rw [HalfSpace.Contains, hform]
  rfl

/-- The bounds of one column. -/
theorem between_iff {j : ℕ} (hj : j < n) {b : Option Extended × Option Extended}
    (hlower : ∀ l, b.1 = some l → l.IsRat) (hupper : ∀ u, b.2 = some u → u.IsRat) :
    ((∀ l, b.1 = some l → l ≤ rat (x j)) ∧ ∀ u, b.2 = some u → rat (x j) ≤ u) ↔
      ∀ h ∈ b.1.toList.map (sideOf (-1) j) ++ b.2.toList.map (sideOf 1 j),
        h.Contains (n + 1) (levelled v x) := by
  simp only [List.forall_mem_append, List.forall_mem_map, Option.mem_toList, contains_sideOf hj]
  refine and_congr (forall₂_congr fun l hl => ?_) (forall₂_congr fun u hu => ?_)
  · rw [(hlower l hl).eq, rat_le_rat, neg_one_mul, neg_one_mul, neg_le_neg_iff]
    rfl
  · rw [(hupper u hu).eq, rat_le_rat, one_mul, one_mul]
    rfl

/-- The constraints say nothing of the level. -/
theorem satisfied_iff_constraints (hlp : lp.Rational) : lp.Satisfied x ↔
    ∀ h ∈ lp.constraints, h.Contains (lp.cost.length + 1) (levelled v x) := by
  have hrow : ∀ {row : List Extended} {bound : Extended}, row.length = lp.cost.length →
      (∀ a ∈ row, a.IsRat) → bound.IsRat → dot row (lp.values x) =
        rat ((halfSpace 0 row bound).form (lp.cost.length + 1) (levelled v x)) ∧
      bound = rat (halfSpace 0 row bound).bound := by
    intro row bound hlength hrat hbound
    refine ⟨?_, hbound⟩
    rw [form_halfSpace 0 bound hlength hrat, values, dot_eq hlength hrat, zero_mul, rat_add_rat,
      add_zero]
  have hub : ∀ e ∈ (lp.ubMatrix.getD []).zip (lp.ubBound.getD []),
      dot e.1 (lp.values x) ≤ e.2 ↔
        (halfSpace 0 e.1 e.2).Contains (lp.cost.length + 1) (levelled v x) := by
    intro e he
    obtain ⟨hmem, hb⟩ := List.of_mem_zip he
    obtain ⟨hdot, hbound⟩ := hrow (hlp.ubMatrix _ hmem).1 (hlp.ubMatrix _ hmem).2 (hlp.ubBound _ hb)
    rw [hdot, hbound, rat_le_rat, ← hbound]
    rfl
  have heq : ∀ e ∈ (lp.eqMatrix.getD []).zip (lp.eqBound.getD []),
      dot e.1 (lp.values x) = e.2 ↔
        (halfSpace 0 e.1 e.2).Contains (lp.cost.length + 1) (levelled v x) ∧
          (halfSpace 0 e.1 e.2).opposite.Contains (lp.cost.length + 1) (levelled v x) := by
    intro e he
    obtain ⟨hmem, hb⟩ := List.of_mem_zip he
    obtain ⟨hdot, hbound⟩ := hrow (hlp.eqMatrix _ hmem).1 (hlp.eqMatrix _ hmem).2 (hlp.eqBound _ hb)
    rw [hdot, hbound, rat_inj, ← hbound, HalfSpace.contains_opposite]
    exact le_antisymm_iff
  have hbounds : (∀ e ∈ lp.bounds.zip (lp.values x),
      (∀ l, e.1.1 = some l → l ≤ e.2) ∧ ∀ u, e.1.2 = some u → e.2 ≤ u) ↔
      ∀ b ∈ lp.bounds.zipIdx, ∀ h ∈ (b.1.1.toList.map (sideOf (-1) b.2)) ++
        b.1.2.toList.map (sideOf 1 b.2), h.Contains (lp.cost.length + 1) (levelled v x) := by
    rw [values, ← hlp.boundsLength]
    simp only [mem_zip_firstValues, List.mem_zipIdx_iff_getElem?]
    have hside : ∀ {j b}, lp.bounds[j]? = some b → _ := fun {j b} hb =>
      between_iff (v := v) (x := x) (List.getElem?_eq_some_iff.1 hb).1
        (hlp.bounds b (List.mem_of_getElem? hb)).1 (hlp.bounds b (List.mem_of_getElem? hb)).2
    constructor
    · rintro h ⟨b, j⟩ hb
      exact (hside hb).1 (h _ ⟨j, b, hb, rfl⟩)
    · rintro h _ ⟨j, b, hb, rfl⟩
      exact (hside hb).2 (h (b, j) hb)
  have hsatisfied : lp.Satisfied x ↔
      (∀ e ∈ (lp.ubMatrix.getD []).zip (lp.ubBound.getD []), dot e.1 (lp.values x) ≤ e.2) ∧
      (∀ e ∈ (lp.eqMatrix.getD []).zip (lp.eqBound.getD []), dot e.1 (lp.values x) = e.2) ∧
      ∀ e ∈ lp.bounds.zip (lp.values x),
        (∀ l, e.1.1 = some l → l ≤ e.2) ∧ ∀ u, e.1.2 = some u → e.2 ≤ u :=
    ⟨fun h => ⟨h.ub, h.eq, h.bounds⟩, fun h => ⟨h.1, h.2.1, h.2.2⟩⟩
  rw [hsatisfied, constraints, List.forall_mem_append, List.forall_mem_append, and_assoc]
  refine and_congr ?_ (and_congr ?_ ?_)
  · rw [List.forall_mem_map]
    exact forall₂_congr hub
  · rw [List.forall_mem_flatMap]
    refine forall₂_congr fun e he => (heq e he).trans ?_
    simp only [List.mem_cons, List.not_mem_nil, or_false, forall_eq_or_imp, forall_eq]
  · rw [List.forall_mem_flatMap]
    exact hbounds

theorem contains_system (hlp : lp.Rational) :
    (∀ h ∈ lp.system, h.Contains (lp.cost.length + 1) (levelled v x)) ↔
      lp.costOf x ≤ v ∧ lp.Satisfied x := by
  have hcost : (halfSpace (-1) lp.cost 0).Contains (lp.cost.length + 1) (levelled v x) ↔
      lp.costOf x ≤ v := by
    have hform := form_halfSpace (v := v) (x := x) (-1) 0 rfl hlp.cost
    rw [dot_eq rfl hlp.cost, rat_add_rat, rat_inj] at hform
    rw [HalfSpace.Contains, hform, neg_one_mul, costOf, ← sub_eq_add_neg]
    exact sub_nonpos
  rw [system, List.forall_mem_cons, hcost, ← satisfied_iff_constraints hlp]

/-! ### The levels of a program -/

/-- The point over a level. -/
def pointOver (lp : LinearProgram Extended) (v : ℚ) (j : ℕ) : ℚ :=
  HalfSpace.lift lp.cost.length lp.system v (j + 1)

theorem contains_levels : (∀ l ∈ lp.levels, l.Contains v) ↔
    ∀ h ∈ HalfSpace.project lp.cost.length lp.system, h.Contains 1 fun _ => v :=
  (HalfSpace.forall_contains_succ (n := 0) (x := fun _ => v)).symm

/-- A point is no cheaper than every level. -/
theorem Satisfied.contains_levels (hlp : lp.Rational) (hx : lp.Satisfied x) :
    ∀ l ∈ lp.levels, l.Contains (lp.costOf x) := by
  refine LinearProgram.contains_levels.2 fun h hh => ?_
  have := HalfSpace.contains_project ((contains_system hlp).2 ⟨le_rfl, hx⟩) h hh
  rwa [HalfSpace.Contains, HalfSpace.form_congr (y := fun _ => lp.costOf x) fun j hj => by
    rw [Nat.lt_one_iff.1 hj]; rfl] at this

/-- Over every level there is a point that does not exceed it. -/
theorem pointOver_spec (hlp : lp.Rational) (h : ∀ l ∈ lp.levels, l.Contains v) :
    lp.costOf (lp.pointOver v) ≤ v ∧ lp.Satisfied (lp.pointOver v) := by
  have hlift := HalfSpace.contains_lift (LinearProgram.contains_levels.1 h)
  rw [← levelled_tail (HalfSpace.lift _ _ v), HalfSpace.lift_zero] at hlift
  exact (contains_system hlp).1 hlift

def solve (lp : LinearProgram Extended) : Answer Extended :=
  if HalfLine.consistent lp.levels then
    match HalfLine.leastPoint lp.levels 1 with
    | some v =>
      let x := lp.values (lp.pointOver v)
      { noAnswer 0 with point := x, value := dot lp.cost x }
    | none => noAnswer 3
  else noAnswer 2

/-- Every rational program gets a right answer. -/
theorem solve_answers (hlp : lp.Rational) : lp.Answers lp.solve := by
  unfold solve
  split_ifs with hconsistent
  · split
    · next v hv =>
      obtain ⟨hmem, hleast⟩ := HalfLine.leastPoint_spec hconsistent hv
      obtain ⟨hcost, hsat⟩ := pointOver_spec hlp hmem
      refine .optimum (x := lp.pointOver v) rfl rfl rfl hsat fun y hy => ?_
      have hle := hleast _ (hy.contains_levels hlp)
      rw [hlp.dot_cost, hlp.dot_cost, rat_le_rat]
      linarith
    · next hnone =>
      refine .unbounded rfl fun b => ?_
      obtain ⟨v, hmem, hlt⟩ := HalfLine.exists_cheaper hconsistent hnone b
      obtain ⟨hcost, hsat⟩ := pointOver_spec hlp hmem
      refine ⟨lp.pointOver v, hsat, ?_⟩
      rw [hlp.dot_cost, rat_lt_rat]
      linarith
  · refine .infeasible rfl fun y hy => hconsistent ?_
    exact HalfLine.consistent_of_contains (hy.contains_levels hlp)

end LinearProgram

/-! ### The host -/

/-- A host that has an answer to every rational program. -/
def Host.Decides {σ : Type} (host : Host Extended σ) : Prop :=
  ∀ r w, r.program.Rational → ∃ a, (host.solve r w).1 = .ok a

/-- A host that solves programs by elimination; its clock stands still. -/
def Host.eliminating {σ : Type} : Host Extended σ where
  solve r w := (.ok r.program.solve, w)
  now _ := 0

theorem Host.eliminating_isExact {σ : Type} : (Host.eliminating (σ := σ)).IsExact := by
  rintro r w a hr ⟨⟩
  exact LinearProgram.solve_answers hr

theorem Host.eliminating_decides {σ : Type} : (Host.eliminating (σ := σ)).Decides :=
  fun _ _ _ => ⟨_, rfl⟩

end MixedInteger
