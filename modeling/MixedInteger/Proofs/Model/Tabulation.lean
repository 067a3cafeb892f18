import MixedInteger.Proofs.Model.CallbackFrame
import MixedInteger.Proofs.Model.Copying
import MixedInteger.Proofs.Model.Solve
import MixedInteger.Proofs.Problem.Point
import MixedInteger.Proofs.Problem.Program

/-! Values of variables. An assignment gives every variable a rational value, and with it every
function over variables. The columns of a model make a point of it; a function over live
variables then has the value of a linear form at that point, whether it is kept in a row, in
the costs or nowhere. A solver that answers with an optimum gives every column a number. A
continuous method keeps the values of the columns, and the activities of the rows there; a search
keeps the incumbent, and sums its rows up. Either way the rows have the values of their linear
forms at the point of the columns. Without a point nothing is stored. -/

namespace MixedInteger

open Extended Finset

abbrev Assignment := VariableIndex → ℚ

def AffineFunction.valueAt (f : AffineFunction Extended) (z : Assignment) : ℚ :=
  f.constant.value + (f.terms.map fun t => t.coefficient.value * z t.var).sum

def Function.valueAt : Function Extended → Assignment → ℚ
  | .single v, z => z v
  | .affine f, z => f.valueAt z

def ScalarSet.Contains : ScalarSet Extended → ℚ → Prop
  | .lessThan u, v => rat v ≤ u
  | .greaterThan l, v => l ≤ rat v
  | .equalTo e, v => rat v = e
  | .interval l u, v => l ≤ rat v ∧ rat v ≤ u
  | .zeroOne, v => v = 0 ∨ v = 1
  | .integer, v => ∃ k : ℤ, v = k

/-! ### Numbers -/

namespace Extended

theorem sum_eq {xs : List Extended} (h : ∀ x ∈ xs, x.IsRat) :
    Scalar.sum xs = rat (xs.map value).sum := by
  have hfold : ∀ (xs : List Extended) (q : ℚ), (∀ x ∈ xs, x.IsRat) →
      xs.foldl (· + ·) (rat q) = rat (q + (xs.map value).sum) := by
    intro xs
    induction xs with
    | nil => exact fun q _ => by simp
    | cons x xs ih =>
      intro q h
      rw [List.foldl_cons, (h x List.mem_cons_self).eq, rat_add_rat,
        ih _ fun y hy => h y (List.mem_cons_of_mem x hy)]
      simp [value, add_assoc]
  have hsum := hfold xs 0 h
  rwa [zero_add] at hsum

/-- Leaving a zero out does not change a value. -/
theorem value_nonzero? (x : Extended) : ((nonzero? x).getD 0).value = x.value := by
  rw [nonzero?]
  split_ifs with hx
  · cases x with
    | rat q =>
      rw [zero_eq, rat_beq_rat, decide_eq_true_eq] at hx
      rw [Option.getD_none, hx, zero_eq]
    | nan => cases hx
    | bottom => cases hx
    | top => cases hx
  · rfl

end Extended

namespace Model

variable (m : Model Extended)

/-- The point of the problem that an assignment makes. -/
def pointOf (z : Assignment) (j : ℕ) : ℚ := z (m.variableOf (j + 1))

/-- The values of variables at a point of the problem. -/
def assignmentOf (x : ℕ → ℚ) : Assignment := fun v =>
  ((m.vars.get? v.value).map fun info => x (info.column - 1)).getD 0

/-- The linear form with these coefficients. -/
def linear (c : Terms Extended) (z : Assignment) : ℚ :=
  ∑ j ∈ range m.problem.columnCount, ((c (m.variableOf (j + 1))).getD 0).value * m.pointOf z j

/-- The assignment satisfies all constraints of the model. -/
def Satisfied (z : Assignment) : Prop :=
  ∀ c, m.isValid (.constraint c) = true → ∃ f s, m.constraintFunction (.constraint c) = .ok f ∧
    m.constraintSet (.constraint c) = .ok s ∧ s.Contains (f.valueAt z)

variable {m}

/-! ### Places of variables -/

section At
variable {i k : ℕ} {info : VariableInfo} {c : Column Extended}

theorem VariableAt.variableOf (h : m.VariableAt i k info c) : m.variableOf (i + 1) = ⟨k⟩ := by
  have hkey : m.vars.keys[i]? = some k := by
    rw [Registry.keys, List.getElem?_map, h.entry]
    rfl
  rw [Model.variableOf, Nat.add_sub_cancel, List.getD_eq_getElem?_getD, hkey]
  rfl

theorem VariableAt.pointOf (h : m.VariableAt i k info c) (z : Assignment) :
    m.pointOf z i = z ⟨k⟩ := by
  rw [Model.pointOf, h.variableOf]

theorem VariableAt.assignmentOf (h : m.VariableAt i k info c) (hm : m.WellFormed) (x : ℕ → ℚ) :
    m.assignmentOf x ⟨k⟩ = x i := by
  rw [Model.assignmentOf, h.get? hm, Option.map_some, h.number, Nat.add_sub_cancel]
  rfl

end At

section
variable (hm : m.WellFormed)
include hm

theorem WellFormed.variableAt_of_lt {j : ℕ} (hj : j < m.problem.columnCount) :
    ∃ k info c, m.VariableAt j k info c := by
  have hlt : j < m.vars.entries.length := by
    rw [← hm.columnCount]
    exact hj
  have hentry : m.vars.entries[j]? = some (m.vars.entries[j].1, m.vars.entries[j].2) :=
    List.getElem?_eq_getElem hlt
  obtain ⟨c, hat⟩ := hm.variableAt_of_getElem hentry
  exact ⟨_, _, c, hat⟩

theorem WellFormed.pointOf_assignmentOf (x : ℕ → ℚ) {j : ℕ} (hj : j < m.problem.columnCount) :
    m.pointOf (m.assignmentOf x) j = x j := by
  obtain ⟨k, info, c, hat⟩ := hm.variableAt_of_lt hj
  rw [hat.pointOf, hat.assignmentOf hm]

/-! ### Linear forms -/

/-- A term counts at the column of its variable. -/
theorem WellFormed.sum_term {t : Term Extended} (ht : (m.vars.get? t.var.value).isSome = true)
    (z : Assignment) :
    ∑ j ∈ range m.problem.columnCount,
      (if t.var = m.variableOf (j + 1) then t.coefficient.value else 0) * m.pointOf z j =
        t.coefficient.value * z t.var := by
  obtain ⟨info, hinfo⟩ := Option.isSome_iff_exists.1 ht
  obtain ⟨i, k, c, hk, hat⟩ := hm.variableAt hinfo
  have hvar : t.var = ⟨k⟩ := congrArg VariableIndex.mk hk
  have hi : i ∈ range m.problem.columnCount :=
    mem_range.2 hat.place_lt
  rw [sum_eq_single_of_mem i hi fun j hj hji => ?_, if_pos (hvar.trans hat.variableOf.symm),
    hat.pointOf, hvar]
  obtain ⟨l, info', d, hat'⟩ := hm.variableAt_of_lt (mem_range.1 hj)
  rw [if_neg, zero_mul]
  intro heq
  rw [hvar, hat'.variableOf, VariableIndex.mk.injEq, Nat.cast_inj] at heq
  exact hji ((hat.place_eq_iff hm hat').2 heq).symm

/-- A function over live variables is a linear form and a constant. -/
theorem WellFormed.valueAt_eq {f : AffineFunction Extended}
    (hlive : ∀ t ∈ f.terms, (m.vars.get? t.var.value).isSome = true)
    (hrat : ∀ t ∈ f.terms, t.coefficient.IsRat) (z : Assignment) :
    f.valueAt z = f.constant.value + m.linear f.term? z := by
  have hcoefficient : ∀ v, ((f.term? v).getD 0).value =
      ((f.terms.filter fun t => t.var = v).map fun t => t.coefficient.value).sum := by
    intro v
    rw [AffineFunction.term?, value_nonzero?, AffineFunction.coefficient, sum_eq, List.map_map]
    · rfl
    · intro x hx
      obtain ⟨t, ht, rfl⟩ := List.mem_map.1 hx
      exact hrat t (List.mem_filter.1 ht).1
  have hterms : ∀ ts : List (Term Extended),
      (∀ t ∈ ts, (m.vars.get? t.var.value).isSome = true) →
      (ts.map fun t => t.coefficient.value * z t.var).sum =
        ∑ j ∈ range m.problem.columnCount, ((ts.filter fun t => t.var = m.variableOf (j + 1)).map
          fun t => t.coefficient.value).sum * m.pointOf z j := by
    intro ts
    induction ts with
    | nil => simp
    | cons t ts ih =>
      intro hts
      have hsplit : ∀ v, (((t :: ts).filter fun t => t.var = v).map
          fun t => t.coefficient.value).sum = (if t.var = v then t.coefficient.value else 0) +
            ((ts.filter fun t => t.var = v).map fun t => t.coefficient.value).sum := by
        intro v
        by_cases hv : t.var = v <;> simp [hv]
      simp only [hsplit, add_mul, sum_add_distrib]
      rw [hm.sum_term (hts t List.mem_cons_self), List.map_cons, List.sum_cons,
        ih fun u hu => hts u (List.mem_cons_of_mem t hu)]
  simp only [AffineFunction.valueAt, linear, hcoefficient, hterms f.terms hlive]

/-- A row has the value of the linear form of its terms. -/
theorem WellFormed.activity_eq (r : Row Extended) (z : Assignment) :
    r.activity m.problem.columnCount (m.pointOf z) = m.linear (m.termOf r) z := by
  refine sum_congr rfl fun j hj => ?_
  obtain ⟨k, info, c, hat⟩ := hm.variableAt_of_lt (mem_range.1 hj)
  rw [hat.variableOf, hat.termOf hm]
  rfl

/-- The objective of the problem is the linear form of the costs, with the constant. -/
theorem WellFormed.valueOf_eq (z : Assignment) :
    m.problem.valueOf (m.pointOf z) = m.problem.constant.value + m.linear m.cost? z := by
  refine congrArg (m.problem.constant.value + ·) (sum_congr rfl fun j hj => ?_)
  obtain ⟨k, info, c, hat⟩ := hm.variableAt_of_lt (mem_range.1 hj)
  rw [hat.variableOf, hat.cost? hm, value_nonzero?, Problem.costAt, hat.column]
  rfl

end

end Model

variable {σ : Type}

/-! ### Lists of numbers -/

theorem isRat_of_mem_firstValues {n : ℕ} {x : ℕ → ℚ} {v : Extended} (h : v ∈ firstValues n x) :
    v.IsRat := by
  obtain ⟨j, -, rfl⟩ := List.mem_map.1 h
  exact isRat_rat _

theorem exists_firstValues {xs : List Extended} (h : ∀ v ∈ xs, v.IsRat) :
    ∃ x, xs = firstValues xs.length x := by
  refine ⟨fun j => (xs.getD j 0).value, List.ext_getElem (by simp) fun j hj _ => ?_⟩
  have hget : xs.getD j 0 = xs[j] := by simp [hj]
  simp only [firstValues, List.getElem_map, List.getElem_range, hget]
  exact h _ (List.getElem_mem hj)

theorem getD_firstValues {n j : ℕ} (hj : j < n) (x : ℕ → ℚ) :
    (firstValues n x).getD j 0 = rat (x j) := by
  simp [firstValues, hj]

theorem isRat_valueAt {xs : List Extended} (h : ∀ v ∈ xs, v.IsRat) (j : ℤ) :
    (valueAt xs j).IsRat := by
  unfold valueAt
  split_ifs
  · exact isRat_rat 0
  · rw [List.getD_eq_getElem?_getD]
    cases hx : xs[(j - 1).toNat]? with
    | none => exact isRat_rat 0
    | some v => exact h v (List.mem_of_getElem? hx)

theorem isRat_padded {n : ℕ} {xs : List Extended} (h : ∀ v ∈ xs, v.IsRat) :
    ∀ v ∈ padded n xs, v.IsRat := by
  unfold padded
  split_ifs
  · exact h
  · intro v hv
    obtain hv | hv := List.mem_append.1 hv
    · exact h v hv
    · rw [List.eq_of_mem_replicate hv]
      exact isRat_rat 0

/-! ### Rows -/

/-- The coefficients of a row are numbers. -/
def Row.IsNumeric (r : Row Extended) : Prop := ∀ e ∈ r.coefs, e.2.IsRat

/-- The sum over the entries of a row is its activity. -/
theorem Row.sum_coefs {n : ℕ} {r : Row Extended} (hfits : r.Fits n) (hr : r.IsNumeric)
    (x : ℕ → ℚ) : Scalar.sum (r.coefs.map fun e => e.2 * (firstValues n x).getD (e.1 - 1) 0) =
      rat (r.activity n x) := by
  have hterm : ∀ e ∈ r.coefs, e.2 * (firstValues n x).getD (e.1 - 1) 0 =
      rat (e.2.value * x (e.1 - 1)) := by
    intro e he
    obtain ⟨hpos, hle⟩ := hfits.range e he
    rw [getD_firstValues (by omega), ← rat_mul_rat, ← (hr e he).eq]
  rw [List.map_congr_left hterm, sum_eq fun v hv => ?_, List.map_map]
  · exact congrArg rat (hfits.placed.total_eq x)
  · obtain ⟨e, -, rfl⟩ := List.mem_map.1 hv
    exact isRat_rat _

/-! ### What is stored -/

/-- The columns have the values of a point and the rows those of their linear forms there, or
there are no values at all. -/
inductive Solution.Tabulates (n : ℕ) (rows : List (Row Extended)) (s : Solution Extended) : Prop
  | blank (optimal : s.status ≠ .optimal) (feasible : s.status ≠ .feasible)
      (colPrimal : s.colPrimal = []) (rowPrimal : s.rowPrimal = [])
  | point (x : ℕ → ℚ) (unbounded : s.status ≠ .unbounded) (colPrimal : s.colPrimal = firstValues n x)
      (rowPrimal : (∀ r ∈ rows, r.IsNumeric) → s.rowPrimal = rows.map fun r => rat (r.activity n x))

theorem Solution.Tabulates.isRat {n : ℕ} {rows : List (Row Extended)} {s : Solution Extended}
    (h : s.Tabulates n rows) : ∀ v ∈ s.colPrimal, v.IsRat := by
  cases h with
  | blank _ _ hcolumns _ => simp [hcolumns]
  | point x _ hcolumns _ =>
    rw [hcolumns]
    exact fun v => isRat_of_mem_firstValues

theorem Solution.tabulates_blank {n : ℕ} {rows : List (Row Extended)} {status : SolutionStatus}
    {dual : SolutionStatus} (hoptimal : status ≠ .optimal) (hfeasible : status ≠ .feasible) :
    ({ status := status, dualStatus := dual } : Solution Extended).Tabulates n rows :=
  .blank hoptimal hfeasible rfl rfl

/-- An answer other than a failure has a number for every column. -/
def Host.GivesPoints (host : Host Extended σ) : Prop :=
  ∀ r w a, (host.solve r w).1 = .ok a → a.status ∉ ([1, 2, 3, 4] : List ℤ) →
    ∃ x, a.point = r.program.values x

theorem Host.GivesPoints.watched {host : Host Extended σ} (h : host.GivesPoints) :
    host.watched.GivesPoints := fun r w a ha => h r w.world a ha

/-! ### Continuous methods -/

section
variable {host : Host Extended σ} (hhost : host.GivesPoints) (p : Problem Extended)

theorem Problem.tabulates_emptySolution (hempty : p.columns = []) :
    p.emptySolution.Tabulates p.columnCount p.rows := by
  have hcount : p.columnCount = 0 := by rw [columnCount, hempty]; rfl
  refine .point (fun _ => 0) (by unfold emptySolution; dsimp only; split_ifs <;> simp) ?_
    fun _ => p.rowPrimal_emptySolution hempty _
  rw [hcount]
  rfl

theorem Problem.tabulates_optimum {a : Answer Extended} {x : ℕ → ℚ}
    (ha : a.point = p.linearProgram.values x) :
    (p.optimum p.linearProgram a).Tabulates p.columnCount p.rows := by
  have hpoint : a.point = firstValues p.columnCount x := ha.trans (p.values_linearProgram x)
  exact .point x (by simp [optimum]) hpoint fun hr => rowPrimal_optimum hr hpoint

theorem Solution.Tabulates.withBasis {n : ℕ} {rows : List (Row Extended)} {s : Solution Extended}
    (h : s.Tabulates n rows) : (s.withBasis p).Tabulates n rows := by
  cases h with
  | blank hoptimal hfeasible hcolumns hrows => exact .blank hoptimal hfeasible hcolumns hrows
  | point x hunbounded hcolumns hrows => exact .point x hunbounded hcolumns hrows

/-- The method stores values in one place. -/
def Task.Tabulates (x : Task Extended σ (Problem Extended × ReturnCode)) (p : Problem Extended)
    (write : Problem Extended → Solution Extended → Problem Extended) : Prop :=
  Task.Keeps (fun _ => True) x fun r => ∃ s : Solution Extended,
    r.1 = write p s ∧ s.Tabulates p.columnCount p.rows

theorem Solution.Stored.tabulates {s : Solution Extended}
    (h : s.Stored p fun a => ∃ x, a.point = p.linearProgram.values x) :
    s.Tabulates p.columnCount p.rows := by
  cases h with
  | blank hoptimal hfeasible => exact tabulates_blank hoptimal hfeasible
  | empty hempty => exact p.tabulates_emptySolution hempty
  | optimum ha => exact p.tabulates_optimum ha.choose_spec
  | basis ha => exact (p.tabulates_optimum ha.choose_spec).withBasis p

include hhost

theorem Host.GivesPoints.offers :
    host.Offers p.linearProgram fun a => ∃ x, a.point = p.linearProgram.values x := by
  rintro r w a hr ha hstatus
  rw [← hr]
  exact hhost r w a ha hstatus

theorem simplex_tabulates (params : Parameter.Simplex Extended) :
    (simplex host params p).Tabulates p Problem.withBasic :=
  Task.Keeps.imp (simplex_stores (hhost.offers p) params) fun _ ⟨s, hr, hs⟩ => ⟨s, hr, hs.tabulates p⟩

theorem exact_tabulates (params : Parameter.Simplex Extended) :
    (exact host params p).Tabulates p Problem.withBasic :=
  Task.Keeps.imp (exact_stores (hhost.offers p) params) fun _ ⟨s, hr, hs⟩ => ⟨s, hr, hs.tabulates p⟩

theorem interior_tabulates (params : Parameter.Interior) :
    (interior host params p).Tabulates p Problem.withInterior :=
  Task.Keeps.imp (interior_stores (hhost.offers p) params)
    fun _ ⟨s, hr, hs⟩ => ⟨s, hr, hs.tabulates p⟩

end

/-! ### Searches -/

namespace Search

/-- The incumbent is a point in as many columns as the problem has, and relaxations have numbers
for values. -/
structure Tabular (n : ℕ) (rows : List (Row Extended)) (t : Tree Extended) : Prop where
  original : t.original.rows = rows
  columns : t.problem.columns.length = n
  basic : ∀ v ∈ t.problem.basic.colPrimal, v.IsRat
  incumbent : ∀ i, t.incumbent = some i → ∃ x, i.point = firstValues n x

variable {n : ℕ} {rows : List (Row Extended)} {t t' : Tree Extended}

theorem Tabular.frame : Tree.Frame (Tabular n rows) where
  stop _ h := ⟨h.original, h.columns, h.basic, h.incumbent⟩
  rows _ _ h := ⟨h.original, h.columns, h.basic, h.incumbent⟩
  pad _ h := ⟨h.original, h.columns, isRat_padded h.basic, h.incumbent⟩

/-- The point of a relaxation is rounded to another point. -/
theorem Tabular.exists_candidate (h : Tabular n rows t) {i : Incumbent Extended}
    (hi : t.candidate = .ok (some i)) : ∃ x, i.point = firstValues n x := by
  have hround := forall₂_of_mapM (Tree.roundedPoint_of_candidate hi)
  have hlength : i.point.length = n := by
    rw [← hround.length_eq, ← h.columns, Problem.numberedColumns, Problem.columnCount]
    simp
  have hnearest : ∀ {v w : Extended}, v.IsRat → Scalar.nearest v = .ok w → w.IsRat := by
    intro v w hv hw
    rw [hv.eq, nearest_rat] at hw
    cases hw
    exact isRat_rat _
  have hnumbers : List.Forall₂ (fun _ (w : Extended) => w.IsRat) t.problem.numberedColumns i.point := by
    refine hround.imp fun e w hw => ?_
    have hbasic := isRat_valueAt h.basic e.1
    dsimp only at hw
    split_ifs at hw
    · exact hnearest hbasic hw
    · cases hw
      exact hbasic
  have hrat : ∀ v ∈ i.point, v.IsRat := by
    intro v hv
    obtain ⟨k, hk, rfl⟩ := List.mem_iff_getElem.1 hv
    exact hnumbers.get (hnumbers.length_eq ▸ hk) hk
  obtain ⟨x, hx⟩ := exists_firstValues hrat
  exact ⟨x, by rw [hx, hlength]⟩

variable {c : Company Extended σ} (hhost : c.host.GivesPoints)
  (hlistener : ∀ hear, c.listener = some hear → SearchTask.Keeps (Tabular n rows) hear)
include hhost hlistener

theorem invariant_tabular : Invariant c (Tabular n rows) where
  alike h h' := by
    refine ⟨?_, ?_, ?_, ?_⟩
    · rw [h'.original]; exact h.original
    · rw [h'.problem]; exact h.columns
    · rw [h'.problem]; exact h.basic
    · rw [h'.incumbent]; exact h.incumbent
  activate h ht := by
    obtain ⟨⟨columns, hkinds, -, hproblem⟩, horiginal, hincumbent⟩ := Tree.activate_eq ht
    have hlength := congrArg List.length hkinds
    rw [List.length_map, List.length_map] at hlength
    refine ⟨?_, ?_, ?_, ?_⟩
    · rw [horiginal]; exact h.original
    · rw [hproblem]; exact hlength.trans h.columns
    · rw [hproblem]; exact h.basic
    · rw [hincumbent]; exact h.incumbent
  relaxed {t} settings session h := by
    refine ((simplex_tabulates hhost t.problem settings session trivial).imp ?_).weaken
      fun _ _ => trivial
    rintro ⟨_, code⟩ _ ⟨⟨s, rfl, hs⟩, -⟩
    exact ⟨h.original, h.columns, hs.isRat, h.incumbent⟩
  recorded h hi := ⟨h.original, h.columns, h.basic, by rintro _ ⟨⟩; exact h.exists_candidate hi⟩
  hear := hlistener

end Search

/-- A search stores the incumbent, with the sums of the rows there. -/
theorem intopt_tabulates {c : Search.Company Extended σ} (hhost : c.host.GivesPoints)
    {p : Problem Extended} (hfits : ∀ r ∈ p.rows, r.Fits p.columnCount)
    (hlistener : ∀ hear, c.listener = some hear →
      SearchTask.Keeps (Search.Tabular p.columnCount p.rows) hear)
    (params : Parameter.Search Extended) (fuel : ℕ) :
    Task.Keeps (fun _ => True) (intopt c params fuel p)
      fun r => r.1.integer.Tabulates p.columnCount p.rows := by
  refine (Search.invariant_tabular hhost hlistener).intopt_stores
    (fun status => Solution.tabulates_blank) (fun {t i} h hi status hstatus => ?_)
    (fun now => ⟨rfl, rfl, by simp [Tree.ofProblem, Problem.copy, Problem.forgetSolutions],
      fun i hi => nomatch hi⟩) fuel
  obtain ⟨x, hx⟩ := h.incumbent i hi
  rw [Tree.solution, hi]
  refine .point x (by obtain rfl | rfl := hstatus <;> simp) hx fun hr => ?_
  dsimp only
  rw [h.original, hx]
  exact List.map_congr_left fun r hmem => Row.sum_coefs (hfits r hmem) (hr r hmem) x

end MixedInteger
