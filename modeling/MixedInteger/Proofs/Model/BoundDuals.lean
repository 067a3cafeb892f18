import MixedInteger.Proofs.Model.RowDuals

/-! Duals of bounds at an optimum. The engine has one dual for a column, and each of the bounds of
its variable asks for itself whether the column is close to it. Where one of them is close, the two
bounds split the reduced cost of the column between them, each with the sign of its sense. Where
both are close, as a box can be closed or nearly so, neither asks for the other: the reduced cost is
reported twice. -/

namespace MixedInteger

open Extended Finset

theorem isClose_self (q : ℚ) : isClose (rat q) (rat q) = true := by
  simp [isClose, rat_beq_rat]

/-! ### Two sides and one dual -/

/-- A side reports a dual if the value is close to it. -/
def sideDual (x side : Extended) (q : ℚ) : ℚ := if isClose x side then q else 0

section
variable {x q : ℚ} {l u : Extended}

/-- Two sides that are both close have the dual twice. -/
theorem sideDual_of_close (hl : isClose (rat x) l = true) (hu : isClose (rat x) u = true) :
    sideDual (rat x) l q = q ∧ sideDual (rat x) u q = q := by
  simp [sideDual, hl, hu]

/-- Two sides of which one is not close split a dual that is for the side the value is at. -/
theorem sideDual_splits (hlower : 0 < q → l = rat x) (hupper : q < 0 → u = rat x)
    (hapart : (isClose (rat x) l && isClose (rat x) u) = false) :
    0 ≤ sideDual (rat x) l q ∧ sideDual (rat x) u q ≤ 0 ∧
      sideDual (rat x) l q + sideDual (rat x) u q = q := by
  obtain hneg | rfl | hpos := lt_trichotomy q 0
  · have hu : isClose (rat x) u = true := by rw [hupper hneg, isClose_self]
    have hl : isClose (rat x) l = false := by simpa [hu] using hapart
    simp [sideDual, hl, hu, hneg.le]
  · simp [sideDual]
  · have hl : isClose (rat x) l = true := by rw [hlower hpos, isClose_self]
    have hu : isClose (rat x) u = false := by simpa [hl] using hapart
    simp [sideDual, hl, hu, hpos.le]

end

/-! ### Reduced costs -/

namespace Model

variable {m : Model Extended} {x d e : ℕ → ℚ} {j k : ℕ}

/-- What the rows leave of the cost of a column, as it is minimised, when they have these duals. -/
def reducedCost (m : Model Extended) (y : ℕ → ℚ) (j : ℕ) : ℚ :=
  m.problem.sign * m.problem.costAt j -
    ∑ i ∈ range m.problem.rowCount, y i * (m.problem.rowAt i).coefAt j

namespace Priced

variable (h : m.Priced x d e)
include h

/-- The dual of a column is its reduced cost. -/
theorem reducedCost_eq (hj : j < m.problem.columnCount) :
    m.reducedCost (fun i => m.problem.sign * d i) j = m.problem.sign * e j :=
  sub_eq_of_eq_add' (h.solution.prices.cost j hj).symm

theorem rowDual {i : ℕ} (hi : i < m.problem.rowCount) :
    m.rowDual (i + 1) = .ok (rat (m.problem.sign * d i)) := by
  obtain ⟨r, hr⟩ := Problem.exists_row_of_lt hi
  rw [rowDual_of_getElem hr fun _ => h.bySearch, h.certificate]
  dsimp only
  rw [h.solution.rowDual, getD_firstValues hi, dualSign_eq, rat_mul_rat]

section
variable {info : VariableInfo} {c : Column Extended} (hat : m.VariableAt j k info c)
  (hm : m.WellFormed)
include hat hm

theorem variablePrimal : m.variablePrimal (.var ⟨k⟩) = .ok (rat (x j)) := by
  have hj : j < m.problem.columnCount := hat.place_lt
  rw [hat.variablePrimal (by rw [info_var, hat.get? hm]), h.ray]
  dsimp only
  rw [h.solution.colPrimal, getD_firstValues hj]

theorem constraintDual_side :
    (info.carries .greaterThan = true →
      m.constraintDual (.constraint ⟨.singleVariable, .greaterThan, k⟩) =
        .ok (rat (sideDual (rat (x j)) c.lower (m.problem.sign * e j)))) ∧
    (info.carries .lessThan = true →
      m.constraintDual (.constraint ⟨.singleVariable, .lessThan, k⟩) =
        .ok (rat (sideDual (rat (x j)) c.upper (m.problem.sign * e j)))) := by
  have hj : j < m.problem.columnCount := hat.place_lt
  have hside : ∀ side, (if isClose (rat (x j)) side then rat (m.problem.sign * e j) else 0) =
      rat (sideDual (rat (x j)) side (m.problem.sign * e j)) := fun side => by
    rw [sideDual]
    split_ifs <;> rfl
  have hdual : ∀ {kind : Kind}, kind.isBound = true → info.carries kind = true →
      m.constraintDual (.constraint ⟨.singleVariable, kind, k⟩) =
        .ok (c.boundDual kind (rat (x j)) (rat (m.problem.sign * e j))) := by
    intro kind hbound hcarries
    rw [hat.constraintDual h.bySearch hbound (hat.liveInfo hm hcarries), h.solution.colPrimal,
      h.solution.colDual, getD_firstValues hj, getD_firstValues hj, dualSign_eq, rat_mul_rat]
  exact ⟨fun hcarries => (hdual rfl hcarries).trans (congrArg Except.ok (hside _)),
    fun hcarries => (hdual rfl hcarries).trans (congrArg Except.ok (hside _))⟩

end

end Priced

/-- What is read of a variable that has a bound on either side. -/
structure TwoSided (m : Model Extended) (v : VariableIndex) (x : ℚ) (l u : Extended) (g h : ℚ) :
    Prop where
  value : m.variablePrimal (.var v) = .ok (rat x)
  lower : m.constraintSet (.constraint ⟨.singleVariable, .greaterThan, v.value⟩) =
    .ok (.greaterThan l)
  upper : m.constraintSet (.constraint ⟨.singleVariable, .lessThan, v.value⟩) = .ok (.lessThan u)
  lowerDual : m.constraintDual (.constraint ⟨.singleVariable, .greaterThan, v.value⟩) = .ok (rat g)
  upperDual : m.constraintDual (.constraint ⟨.singleVariable, .lessThan, v.value⟩) = .ok (rat h)

theorem carries_of_isValid (hm : m.WellFormed) {kind : Kind} {info : VariableInfo}
    {c : Column Extended} (hat : m.VariableAt j k info c)
    (hlive : m.isValid (.constraint ⟨.singleVariable, kind, k⟩) = true) :
    info.carries kind = true := by
  rw [isValid, carries, hat.get? hm] at hlive
  exact hlive

/-- Either the sides share the reduced cost, or the variable is close to both and they have all of
it. -/
theorem Priced.exists_twoSided (h : m.Priced x d e) (hm : m.Sound) {v : VariableIndex}
    (hlower : m.isValid (.constraint ⟨.singleVariable, .greaterThan, v.value⟩) = true)
    (hupper : m.isValid (.constraint ⟨.singleVariable, .lessThan, v.value⟩) = true) :
    ∃ info j x l u g h, m.info (.var v) = .ok info ∧ info.column = j + 1 ∧
      m.TwoSided v x l u g h ∧
      let q := m.reducedCost (fun i => m.problem.sign * d i) j
      if isClose (rat x) l && isClose (rat x) u then g = q ∧ h = q
      else 0 ≤ g ∧ h ≤ 0 ∧ g + h = q := by
  have hwf := hm.named.wf
  have hv : m.isValid (.var v) = true := isValid_var_of_single rfl hlower hwf
  obtain ⟨j, k, info, c, rfl, hinfo, hat⟩ := hwf.exists_variableAt hv
  have hl := carries_of_isValid hwf hat hlower
  have hu := carries_of_isValid hwf hat hupper
  obtain ⟨hlowerDual, hupperDual⟩ := h.constraintDual_side hat hwf
  obtain ⟨hat_lower, hat_upper⟩ := h.solution.prices.column hat.column
  refine ⟨info, j, x j, c.lower, c.upper, _, _, hinfo, hat.number,
    ⟨h.variablePrimal hat hwf, (hm.answers_single hat (info.mem_kinds.2 ⟨hl, rfl⟩)).2,
      (hm.answers_single hat (info.mem_kinds.2 ⟨hu, rfl⟩)).2, hlowerDual hl, hupperDual hu⟩, ?_⟩
  dsimp only
  rw [h.reducedCost_eq hat.place_lt]
  split_ifs with hclose
  · obtain ⟨hl, hu⟩ := Bool.and_eq_true_iff.1 hclose
    exact sideDual_of_close hl hu
  · exact sideDual_splits hat_lower hat_upper (Bool.not_eq_true _ ▸ hclose)

end Model

/-- With a solver that gives marginals, after every solve without a search that ends with an optimum:
rows have duals that leave each column a reduced cost. Of a variable with a bound on either side the
two bounds split it between them, unless the variable is close to both. Then each of them reports
the whole of it. -/
theorem optimize_splits_reduced_costs {σ : Type} {host : Host Extended σ}
    (hhost : host.GivesMarginals) {m : Model Extended} (hm : m.Reachable) (hr : m.Rational)
    (hmixed : ¬m.IsMixed) {callback : Option (Callback Extended σ)} {fuel : ℕ}
    {session : Session Extended σ} {w : Workbench Extended σ}
    (hrun : Solving.optimize host callback fuel ⟨session, m⟩ = .ok () w)
    (hoptimal : w.model.terminationStatus = .ok .optimal) :
    ∃ y : ℕ → ℚ, (∀ i < w.model.problem.rowCount, w.model.rowDual (i + 1) = .ok (rat (y i))) ∧
      ∀ v : VariableIndex,
        w.model.isValid (.constraint ⟨.singleVariable, .greaterThan, v.value⟩) = true →
        w.model.isValid (.constraint ⟨.singleVariable, .lessThan, v.value⟩) = true →
        ∃ info j x l u g h, w.model.info (.var v) = .ok info ∧ info.column = j + 1 ∧
          w.model.TwoSided v x l u g h ∧
          if isClose (rat x) l && isClose (rat x) u then
            g = w.model.reducedCost y j ∧ h = w.model.reducedCost y j
          else 0 ≤ g ∧ h ≤ 0 ∧ g + h = w.model.reducedCost y j := by
  have hdual := (Solving.optimize_promises_duals (w := ⟨session, m⟩) hmixed).ok hrun hoptimal
  obtain ⟨x, d, e, hpriced⟩ := (Solving.optimize_prices hhost (w := ⟨session, m⟩) hm.sound hr).ok
    hrun hdual
  have hunsolved := hm.sound.unsolved_after host callback fuel session
  rw [after_ok hrun] at hunsolved
  exact ⟨_, fun i hi => hpriced.rowDual hi, fun v hlower hupper =>
    hpriced.exists_twoSided (hm.sound.of_unsolved hunsolved) hlower hupper⟩

/-! ### A variable in a box -/

/-- A variable between one and `u` that is minimised. -/
def enclosed (u : ℚ) : Model Extended :=
  falling.solo { index := ⟨1⟩, column := 1, bound := .lessAndGreaterThan }
    { bound := boundKind (rat 1) (rat u), lower := rat 1, upper := rat u, cost := 1 }

section
variable {u : ℚ}

theorem enclosed_reachable (hu : UpperBound (rat u)) : (enclosed u).Reachable := by
  have hone : LowerBound (rat 1) := by decide +kernel
  have hkind : boundKind (rat 1) top = .lower := by decide +kernel
  have hlower := falling_reachable.call
    (c := .edit (.addConstraint (.single ⟨1⟩) (.set (.greaterThan (rat 1))))) (by decide +kernel)
  rw [falling_reachable.sound.named.wf.after_bound rfl falling_columns rfl rfl
    (s := .greaterThan (rat 1)) (b := .greaterThan) rfl rfl rfl hone (.inl rfl) hkind] at hlower
  have hboth := hlower.call
    (c := .edit (.addConstraint (.single ⟨1⟩) (.set (.lessThan (rat u))))) (by
      rintro _ ⟨⟩ _ ⟨⟩
      exact ⟨(by rintro _ ⟨⟩), by rintro _ ⟨⟩; exact hu⟩)
  rw [hlower.sound.named.wf.after_bound rfl rfl rfl rfl (s := .lessThan (rat u))
    (b := .lessAndGreaterThan) rfl rfl rfl hone hu rfl] at hboth
  exact hboth

theorem enclosed_rational : (enclosed u).Rational where
  constant := rfl
  cost c hc := by
    cases List.mem_singleton.1 hc
    rfl
  rows _ hr := nomatch hr

theorem enclosed_unmixed : ¬(enclosed u).IsMixed := not_or.2 ⟨lt_irrefl 0, lt_irrefl 0⟩

theorem enclosed_linear : (enclosed u).problem.Linear where
  constant := rfl
  cost := enclosed_rational.cost
  proper c hc := by
    cases List.mem_singleton.1 hc
    exact ⟨.inr (isRat_rat 1), .inr (isRat_rat u)⟩
  rows := enclosed_rational.rows

/-- The optimum of `enclosed`, at the lower bound. -/
def enclosedOptimum : Answer Extended where
  point := [rat 1]
  value := rat 1
  ubMarginals := []
  eqMarginals := []
  lowerMarginals := [rat 1]
  upperMarginals := [rat 0]

theorem enclosed_satisfied {x : ℕ → ℚ} :
    (enclosed u).problem.linearProgram.Satisfied x ↔ 1 ≤ x 0 ∧ x 0 ≤ u := by
  rw [enclosed_linear.satisfied_iff]
  constructor
  · intro h
    simpa using h.within (j := 0) rfl
  · intro h
    refine ⟨fun {j c} hc => ?_, fun _ hr => nomatch hr⟩
    obtain rfl : j = 0 := Nat.lt_one_iff.1 (List.getElem?_eq_some_iff.1 hc).1
    cases hc
    simpa using h

theorem enclosedOptimum_answers (hle : 1 ≤ u) :
    (enclosed u).problem.linearProgram.Answers enclosedOptimum := by
  have hcost : ∀ x, dot (enclosed u).problem.linearProgram.cost
      ((enclosed u).problem.linearProgram.values x) = rat (x 0) := by
    intro x
    have hcount : (enclosed u).problem.columnCount = 1 := rfl
    have hcost : (enclosed u).problem.costAt 0 = 1 := rfl
    have hconstant : (enclosed u).problem.constant.value = 0 := rfl
    have hsign : (enclosed u).problem.sign = 1 := rfl
    rw [enclosed_linear.dot_cost, Problem.valueOf, hcount, sum_range_one, hcost, hconstant, hsign]
    simp
  refine .optimum (x := fun _ => 1) rfl rfl ?_ ?_ fun y hy => ?_
  · rw [hcost]
    rfl
  · exact enclosed_satisfied.2 ⟨le_rfl, hle⟩
  · rw [hcost, hcost, rat_le_rat]
    exact (enclosed_satisfied.1 hy).1

theorem enclosedOptimum_marginal : (enclosed u).problem.linearProgram.Marginal enclosedOptimum where
  ub := .nil
  eq := .nil
  lower := .cons ⟨1, rfl, zero_le_one, fun _ => rfl⟩ .nil
  upper := .cons ⟨0, rfl, le_rfl, by simp⟩ .nil
  cost := by
    intro j hj
    obtain rfl : j = 0 := Nat.lt_one_iff.1 hj
    change (1 : ℚ) * 1 = 0 + 0 + (1 + 0)
    norm_num

/-- A host that knows the optimum of `enclosed`. -/
def Host.enclosing {σ : Type} (u : ℚ) : Host Extended σ :=
  .knowing (enclosed u).problem.linearProgram enclosedOptimum .denying

theorem Host.enclosing_givesMarginals {σ : Type} (hle : 1 ≤ u) :
    (Host.enclosing (σ := σ) u).GivesMarginals :=
  (Host.knowing_isExact (enclosedOptimum_answers hle)).givesMarginals
    (Host.knowing_hasMarginals enclosedOptimum_marginal)

/-- It solves `enclosed`. -/
def solveEnclosed (u : ℚ) : Workbench Extended Unit :=
  after (Solving.optimize (Host.enclosing u) none 20) ⟨⟨(), #[]⟩, enclosed u⟩

/-- An optimum at one with the reduced cost one. -/
def Model.endsAtOne (m : Model Extended) : Bool :=
  m.terminationStatus.toOption == some .optimal && !m.last.bySearch && m.last.ray.isNone &&
    m.solution.colPrimal.map (· == rat 1) == [true] && m.solution.colDual.map (· == rat 1) == [true]

/-- A solve of `enclosed`, as it is when it returns. -/
structure SolvedEnclosed (u : ℚ) (w : Workbench Extended Unit) : Prop where
  run : Solving.optimize (Host.enclosing u) none 20 ⟨⟨(), #[]⟩, enclosed u⟩ = .ok () w
  optimal : w.model.terminationStatus = .ok .optimal
  bySearch : w.model.last.bySearch = false
  ray : w.model.last.ray = none
  colPrimal : w.model.solution.colPrimal = [rat 1]
  colDual : w.model.solution.colDual = [rat 1]
  sound : w.model.Sound
  unsolved : w.model.unsolved = (enclosed u).unsolved

theorem exists_solvedEnclosed (hu : UpperBound (rat u))
    (hreturns : passes (Solving.optimize (Host.enclosing (σ := Unit) u) none 20)
      ⟨⟨(), #[]⟩, enclosed u⟩ (fun _ => true) = true)
    (hend : (solveEnclosed u).model.endsAtOne = true) : ∃ w, SolvedEnclosed u w := by
  obtain ⟨_, w, hrun, -⟩ := exists_of_passes (fun _ => true) hreturns
  have hm := (enclosed_reachable hu).sound
  have hunsolved := hm.unsolved_after (Host.enclosing u) none 20 ⟨(), #[]⟩
  rw [solveEnclosed, after_ok hrun] at hend
  rw [after_ok hrun] at hunsolved
  simp only [Model.endsAtOne, Bool.and_eq_true, beq_iff_eq, Bool.not_eq_true',
    Option.isNone_iff_eq_none] at hend
  obtain ⟨⟨⟨⟨hoptimal, hsearch⟩, hray⟩, hprimal⟩, hdual⟩ := hend
  exact ⟨w, hrun, ok_of_toOption hoptimal, hsearch, hray, eq_singleton_of_beq hprimal,
    eq_singleton_of_beq hdual, hm.of_unsolved hunsolved, hunsolved⟩

namespace SolvedEnclosed

variable {w : Workbench Extended Unit} (h : SolvedEnclosed u w)
include h

theorem variableAt : w.model.VariableAt 0 1
    { index := ⟨1⟩, column := 1, bound := .lessAndGreaterThan }
    { bound := boundKind (rat 1) (rat u), lower := rat 1, upper := rat u, cost := 1 } := by
  have hvars : w.model.vars = (enclosed u).vars := congrArg (fun m => m.vars) h.unsolved
  have hcolumns : w.model.problem.columns = (enclosed u).problem.columns :=
    congrArg (fun m => m.problem.columns) h.unsolved
  exact ⟨by rw [hvars]; rfl, by rw [hcolumns]; rfl, rfl, rfl⟩

theorem get?_one : w.model.vars.get? 1 =
    some { index := ⟨1⟩, column := 1, bound := .lessAndGreaterThan } :=
  h.variableAt.get? h.sound.named.wf

theorem isValid {kind : Kind} (hkind : kind = .greaterThan ∨ kind = .lessThan) :
    w.model.isValid (.constraint ⟨.singleVariable, kind, 1⟩) = true := by
  rw [Model.isValid, Model.carries, h.get?_one]
  obtain rfl | rfl := hkind <;> rfl

/-- What is read of the variable. -/
theorem reads {x g h' : ℚ} {l v : Extended} (hread : w.model.TwoSided ⟨1⟩ x l v g h') :
    x = 1 ∧ l = rat 1 ∧ v = rat u := by
  have hat := h.variableAt
  have hvalue := hread.value
  rw [hat.variablePrimal (by rw [Model.info_var, h.get?_one]), h.ray] at hvalue
  dsimp only at hvalue
  rw [h.colPrimal] at hvalue
  have hkinds : Kind.greaterThan ∈ BoundState.lessAndGreaterThan.kinds ∧
      Kind.lessThan ∈ BoundState.lessAndGreaterThan.kinds := by decide
  have hlower := (h.sound.answers_single hat hkinds.1).2
  have hupper := (h.sound.answers_single hat hkinds.2).2
  cases hread.lower.symm.trans hlower
  cases hread.upper.symm.trans hupper
  exact ⟨((rat_inj _ _).1 (Except.ok.inj hvalue)).symm, rfl, rfl⟩

/-- Without rows the cost is left. -/
theorem reducedCost (y : ℕ → ℚ) {info : VariableInfo} {j : ℕ}
    (hinfo : w.model.info (.var ⟨1⟩) = .ok info) (hnumber : info.column = j + 1) :
    w.model.reducedCost y j = 1 := by
  have hrows : w.model.problem.rowCount = 0 :=
    congrArg (fun m : Model Extended => m.problem.rowCount) h.unsolved
  have hsign : w.model.problem.sign = 1 :=
    congrArg (fun m : Model Extended => m.problem.sign) h.unsolved
  rw [Model.info_var, h.get?_one] at hinfo
  cases hinfo
  obtain rfl : j = 0 := (Nat.succ.inj hnumber).symm
  have hcost : w.model.problem.costAt 0 = 1 := by
    rw [Problem.costAt, h.variableAt.column]
    rfl
  rw [Model.reducedCost, hrows, hsign, hcost, range_zero, sum_empty]
  norm_num

/-- In a closed box the upper bound reports the dual of the lower one. -/
theorem constraintDual_upper (hclosed : u = 1) :
    w.model.constraintDual (.constraint ⟨.singleVariable, .lessThan, 1⟩) = .ok (rat 1) := by
  have hsign : w.model.dualSign = rat 1 := congrArg (fun m => m.dualSign) h.unsolved
  have hlive : w.model.liveInfo ⟨.singleVariable, .lessThan, 1⟩ = .ok _ :=
    h.variableAt.liveInfo h.sound.named.wf rfl
  have hdual := h.variableAt.constraintDual h.bySearch rfl hlive
  rw [h.colPrimal, h.colDual, hsign] at hdual
  refine hdual.trans (congrArg Except.ok ?_)
  change (if isClose (rat 1) (rat u) then rat 1 * rat 1 else 0) = rat 1
  rw [hclosed, isClose_self, if_pos rfl, rat_mul_rat, one_mul]

end SolvedEnclosed

end

theorem exists_solvedEnclosed_one : ∃ w, SolvedEnclosed 1 w :=
  exists_solvedEnclosed (by decide +kernel) (by decide +kernel) (by decide +kernel)

/-- In a box that is not closed the bounds share the reduced cost. -/
theorem optimize_splits_reduced_costs_enclosed : ∃ w g h,
    Solving.optimize (Host.enclosing 5) none 20 ⟨⟨(), #[]⟩, enclosed 5⟩ = .ok () w ∧
      w.model.constraintDual (.constraint ⟨.singleVariable, .greaterThan, 1⟩) = .ok (rat g) ∧
      w.model.constraintDual (.constraint ⟨.singleVariable, .lessThan, 1⟩) = .ok (rat h) ∧
      0 ≤ g ∧ h ≤ 0 ∧ g + h = 1 := by
  have hu : UpperBound (rat 5) := by decide +kernel
  obtain ⟨w, hw⟩ := exists_solvedEnclosed hu (by decide +kernel) (by decide +kernel)
  obtain ⟨y, -, hsplits⟩ := optimize_splits_reduced_costs (Host.enclosing_givesMarginals
    (by norm_num)) (enclosed_reachable hu) enclosed_rational enclosed_unmixed hw.run hw.optimal
  obtain ⟨info, j, x, l, u, g, h, hinfo, hnumber, hread, hcases⟩ := hsplits ⟨1⟩
    (hw.isValid (.inl rfl)) (hw.isValid (.inr rfl))
  obtain ⟨rfl, rfl, rfl⟩ := hw.reads hread
  have hapart : (isClose (rat 1) (rat 1) && isClose (rat 1) (rat 5)) = false := by decide +kernel
  rw [hapart, if_neg Bool.false_ne_true, hw.reducedCost y hinfo hnumber] at hcases
  exact ⟨w, g, h, hw.run, hread.lowerDual, hread.upperDual, hcases⟩

/-- Not always do two bounds split a reduced cost between them. -/
theorem not_forall_bounds_split : ¬∀ (host : Host Extended Unit) (m : Model Extended)
    (session : Session Extended Unit) (w : Workbench Extended Unit), host.GivesMarginals →
      m.Reachable → m.Rational → ¬m.IsMixed →
      Solving.optimize host none 20 ⟨session, m⟩ = .ok () w →
      w.model.terminationStatus = .ok .optimal →
      ∃ y : ℕ → ℚ, (∀ i < w.model.problem.rowCount, w.model.rowDual (i + 1) = .ok (rat (y i))) ∧
        ∀ v : VariableIndex,
          w.model.isValid (.constraint ⟨.singleVariable, .greaterThan, v.value⟩) = true →
          w.model.isValid (.constraint ⟨.singleVariable, .lessThan, v.value⟩) = true →
          ∃ info j x l u g h, w.model.info (.var v) = .ok info ∧ info.column = j + 1 ∧
            w.model.TwoSided v x l u g h ∧
            0 ≤ g ∧ h ≤ 0 ∧ g + h = w.model.reducedCost y j := by
  intro hall
  obtain ⟨w, hw⟩ := exists_solvedEnclosed_one
  obtain ⟨y, -, hsplits⟩ := hall (Host.enclosing 1) (enclosed 1) ⟨(), #[]⟩ w
    (Host.enclosing_givesMarginals le_rfl) (enclosed_reachable (by decide +kernel))
    enclosed_rational enclosed_unmixed hw.run hw.optimal
  obtain ⟨info, j, x, l, u, g, h, -, -, hread, -, hle, -⟩ := hsplits ⟨1⟩
    (hw.isValid (.inl rfl)) (hw.isValid (.inr rfl))
  have hone := hread.upperDual
  rw [hw.constraintDual_upper rfl] at hone
  rw [← (rat_inj _ _).1 (Except.ok.inj hone)] at hle
  exact absurd hle (by norm_num)

end MixedInteger
