import MixedInteger.Proofs.Model.Agreement
import MixedInteger.Proofs.Model.Satisfaction
import MixedInteger.Proofs.Model.Tabulation

/-! Values of variables and of constraints. When a solve reports a point, variables have the values
of an assignment, and every constraint has the value of its function there. A solve that finds a
direction without end keeps the direction for the variables only: affine constraints are still
read from a solution without values, and have the value zero. -/

namespace MixedInteger

open Extended Finset

/-! ### Reported values -/

namespace Model

/-- Variables have the values of an assignment, and so do the constraints on one of them. -/
structure ValuedAt (m : Model Extended) (z : Assignment) : Prop where
  vars : ∀ v, m.isValid (.var v) = true → m.variablePrimal (.var v) = .ok (rat (z v))
  single : ∀ c : ConstraintIndex, c.function = .singleVariable →
    m.isValid (.constraint c) = true → m.constraintPrimal (.constraint c) = .ok (rat (z ⟨c.value⟩))

/-- Affine constraints have the values of their functions at an assignment. -/
def RowsValuedAt (m : Model Extended) (z : Assignment) : Prop :=
  ∀ c : ConstraintIndex, c.function = .scalarAffine → m.isValid (.constraint c) = true →
    ∃ f, m.constraintFunction (.constraint c) = .ok f ∧
      m.constraintPrimal (.constraint c) = .ok (rat (f.valueAt z))

/-- A direction without end, if one is held, has a number for every variable. -/
def HasNumericRay (m : Model Extended) : Prop :=
  ∀ ray, m.last.ray = some ray → ∀ y ∈ ray, Scalar.isNaN y = false

/-- What is read of a solve: the stored solution, and the direction if one is held. -/
structure Tabulated (n : ℕ) (rows : List (Row Extended)) (m : Model Extended) : Prop where
  columns : m.problem.columnCount = n
  solution : m.solution.Tabulates n rows
  ray : ∀ ray, m.last.ray = some ray →
    ray = List.replicate n nan ∨ ∃ x, ray = firstValues n x

variable {m : Model Extended} {n : ℕ} {rows : List (Row Extended)}

theorem isValid_var_of_single {c : ConstraintIndex} (hc : c.function = .singleVariable)
    (h : m.isValid (.constraint c) = true) (hm : m.WellFormed) :
    m.isValid (.var ⟨c.value⟩) = true := by
  rw [isValid, carries, hc] at h
  rw [isValid, hm.vars.contains_eq]
  cases hget : m.vars.get? c.value with
  | some info => rfl
  | none =>
    rw [hget] at h
    cases h

/-- Constraints on one variable have the value of the variable. -/
theorem valuedAt_of_variables {z : Assignment} (hm : m.WellFormed)
    (h : ∀ v, m.isValid (.var v) = true → m.variablePrimal (.var v) = .ok (rat (z v))) :
    m.ValuedAt z where
  vars := h
  single c hc hlive := by
    unfold constraintPrimal
    rw [IndexArg.constraint?, bind_ok, if_pos hc]
    exact h _ (isValid_var_of_single hc hlive hm)

theorem RowAt.constraintPrimal {i k : ℕ} {c : ConstraintIndex} (hc : c.function = .scalarAffine)
    {info : ConstraintInfo Extended} {r : Row Extended} (h : m.RowAt i k info r)
    (hinfo : m.affineInfo c = .ok info) :
    m.constraintPrimal (.constraint c) = .ok (m.solution.rowPrimal.getD i 0) := by
  have hne : c.function ≠ .singleVariable := by simp [hc]
  unfold Model.constraintPrimal
  rw [IndexArg.constraint?, bind_ok, if_neg hne, hinfo, bind_ok, h.number, Problem.rowValue,
    Problem.row_of_getElem h.row, bind_ok, valueAt_succ]
  rfl

end Model

/-! ### Directions -/

section
variable {σ : Type} {host : Host Extended σ} (hhost : host.GivesPoints)
include hhost

theorem Host.GivesPoints.fillsPoints : host.FillsPoints := by
  intro r w a ha hstatus
  obtain ⟨x, hx⟩ := hhost r w a ha (by simp [hstatus])
  rw [hx, LinearProgram.values, length_firstValues]

theorem unboundedRay_points (p : Problem Extended) :
    Task.Keeps (fun _ => True) (unboundedRay host p) fun ray =>
      ray = List.replicate p.columnCount nan ∨ ∃ x, ray = firstValues p.columnCount x := by
  unfold unboundedRay
  refine (Task.Keeps.ask host.keeps_true fun w a ha => hhost _ w a ha).bind fun a ha => ?_
  split_ifs with hnone
  · exact (Task.Keeps.any _).bind fun _ _ => .pure (.inl rfl)
  · obtain ⟨x, hx⟩ := ha (by simp [not_not.1 (not_or.1 hnone).1])
    refine .pure (.inr ⟨x, hx.trans ?_⟩)
    rw [LinearProgram.values]
    exact congrArg (firstValues · x) (List.length_map _)

end

/-! ### Solves -/

namespace Solving

variable {σ : Type} {host : Host Extended σ} (hhost : host.GivesPoints)
  {w : Workbench Extended σ} {n : ℕ} {rows : List (Row Extended)}

include hhost

theorem attempt_tabulates (m : Model Extended) : Task.Keeps (fun _ => True) (m.attempt host)
    fun r => ∃ b, r.1 = m.place b ∧ b.Tabulates m.problem.columnCount m.problem.rows := by
  unfold Model.attempt Model.place
  cases m.method with
  | simplex => exact simplex_tabulates hhost m.problem _
  | exact => exact exact_tabulates hhost m.problem _
  | interior => exact interior_tabulates hhost m.problem _

/-- A solve with a search stores what the search came to, which holds no direction. -/
theorem optimize_tabulates_mixed (hm : w.model.Sound) (hmixed : w.model.IsMixed)
    {callback : Option (Callback Extended σ)}
    (hcallback : ∀ call, callback = some call → call.EditsRows) (fuel : ℕ) :
    Runs (optimize host callback fuel) w (fun _ w' =>
      w'.model.Tabulated w.model.problem.columnCount w.model.problem.rows) fun _ => True := by
  have hcount := hm.named.wf.innerCount
  have hfinds : Finds (w.model.begun.withColumns w.model.innerColumns) host callback fuel
      fun _ s _ => s.Tabulates w.model.problem.columnCount w.model.problem.rows := by
    intro b k session
    let ready := ((w.model.begun.withColumns w.model.innerColumns).withBasis b).withPresolve k
    have hready : ready.problem.columnCount = w.model.problem.columnCount := hcount
    have hrun := intopt_tabulates (c := ⟨host.watched, some (ready.watch callback)⟩) (p := ready.problem)
      hhost.watched (by rw [hready]; exact hm.named.wf.fits) (by
        rintro _ ⟨⟩
        exact ready.watch_keeps fun call hcall => hcallback call hcall _ Search.Tabular.frame)
      ready.stores.search fuel (session.watched w.model.last.objectiveBound w.model.last.relativeGap)
      trivial
    rw [hready] at hrun
    exact (hrun.imp fun _ _ h => h.1).weaken fun _ _ => trivial
  refine ((optimize_searches hm.roundable hmixed hfinds).imp ?_).weaken fun _ _ => trivial
  rintro _ w' ⟨b, v, code, s, seconds, htabulates, -, hw'⟩
  rw [hw']
  refine ⟨rfl, ?_, fun ray h => nomatch h⟩
  rw [Model.solution_of_search rfl]
  exact htabulates

/-- Whatever the method, a solve that returns holds values of points. -/
theorem optimize_tabulates (hm : w.model.Sound) {callback : Option (Callback Extended σ)}
    (hcallback : ∀ call, callback = some call → call.EditsRows) (fuel : ℕ) :
    Runs (optimize host callback fuel) w (fun _ w' =>
      w'.model.Tabulated w.model.problem.columnCount w.model.problem.rows) fun _ => True := by
  by_cases hmixed : w.model.IsMixed
  · exact optimize_tabulates_mixed hhost hm hmixed hcallback fuel
  have hcount : ∀ b, (w.model.place b).columnCount = w.model.problem.columnCount := by
    intro b
    unfold Model.place
    cases w.model.method <;> rfl
  refine (optimize_settles hmixed (C := fun _ => True)
    (S := fun _ b => b.Tabulates w.model.problem.columnCount w.model.problem.rows)
    (attempt_tabulates hhost w.model).runs
    (fun _ b _ _ => (hcount b ▸ unboundedRay_points hhost (w.model.place b)).runs)
    fun _ _ _ _ => (Task.Keeps.any _).runs).imp ?_
  rintro _ w' ⟨code, b, ray, certificate, seconds, htabulates, hray, -, hw'⟩
  rw [hw']
  refine ⟨hcount b, ?_, hray.holds⟩
  rw [Model.settled, Model.solution_place b rfl]
  exact htabulates

end Solving

/-! ### What is read of a solve -/

namespace Model

section
variable {m : Model Extended} (hm : m.Sound)
include hm

/-- A column that has the value of a point is read at the assignment that the point makes. -/
theorem Sound.valuedAt {x : ℕ → ℚ} (hvalue : ∀ {i k : ℕ} {info : VariableInfo} {c : Column Extended} {v},
      m.VariableAt i k info c → m.info (.var v) = .ok info →
        m.variablePrimal (.var v) = .ok (rat (x i))) :
    m.ValuedAt (m.assignmentOf x) := by
  refine valuedAt_of_variables hm.named.wf fun v hv => ?_
  obtain ⟨i, k, info, c, rfl, hinfo, hat⟩ := hm.named.wf.exists_variableAt hv
  rw [hvalue hat hinfo, hat.assignmentOf hm.named.wf]

/-- The function of an affine constraint has the activity of its row for value. -/
theorem Sound.exists_constraintFunction {c : ConstraintIndex} (hc : c.function = .scalarAffine)
    (hlive : m.isValid (.constraint c) = true) :
    ∃ i k info r f, m.RowAt i k info r ∧ m.constraintFunction (.constraint c) = .ok f ∧
      (r.IsNumeric → ∀ z, f.valueAt z = r.activity m.problem.columnCount (m.pointOf z)) ∧
      m.constraintPrimal (.constraint c) = .ok (m.solution.rowPrimal.getD i 0) := by
  obtain ⟨L, hL, -⟩ := hm.ledger
  obtain ⟨i, k, info, r, hk, hinfo, hat⟩ := hm.named.wf.exists_rowAt hc hlive
  obtain ⟨rec, hrec, -, hfunction, -⟩ := hL.affine_of_isValid hc (hL.isValid _ ▸ hlive)
  have haffine := (hL.affine k).trans (hat.affineRecord? hm.named.wf)
  rw [hk] at hrec
  cases hrec.symm.trans haffine
  exact ⟨i, k, info, r, _, hat, hfunction, fun hr z => hL.valueAt_row hat hr z,
    hat.constraintPrimal hc hinfo⟩

variable (h : m.Tabulated m.problem.columnCount m.problem.rows)
include h

/-- A point that is reported has a value for every variable and for every constraint. -/
theorem Sound.exists_valuedAt (hrows : ∀ r ∈ m.problem.rows, r.IsNumeric)
    (hstatus : m.solution.status = .optimal ∨ m.solution.status = .feasible)
    (hray : m.last.ray = none) : ∃ z, m.ValuedAt z ∧ m.RowsValuedAt z := by
  obtain ⟨hoptimal, hfeasible, -, -⟩ | ⟨x, -, hcolumns, hactivities⟩ := h.solution
  · exact absurd hstatus (not_or.2 ⟨hoptimal, hfeasible⟩)
  refine ⟨m.assignmentOf x, hm.valuedAt fun hat hinfo => ?_, fun c hc hlive => ?_⟩
  · rw [hat.variablePrimal hinfo, hray, hcolumns]
    exact congrArg _ (getD_firstValues hat.place_lt x)
  · obtain ⟨i, k, info, r, f, hat, hf, hvalue, hprimal⟩ := hm.exists_constraintFunction hc hlive
    have hactivity : r.activity m.problem.columnCount (m.pointOf (m.assignmentOf x)) =
        r.activity m.problem.columnCount x := sum_congr rfl fun j hj => by
      rw [hm.named.wf.pointOf_assignmentOf x (mem_range.1 hj)]
    refine ⟨f, hf, ?_⟩
    rw [hprimal, hvalue (hrows r (List.mem_of_getElem? hat.row)), hactivity, hactivities hrows,
      List.getD_eq_getElem?_getD, List.getElem?_map, hat.row]
    rfl

/-- A direction has a value for every variable, and zero for every affine constraint. -/
theorem Sound.exists_valuedAt_ray (hstatus : m.solution.status = .unbounded)
    (hray : m.last.ray.isSome = true) (hnumeric : m.HasNumericRay) :
    ∃ z, m.ValuedAt z ∧ ∀ c : ConstraintIndex, c.function = .scalarAffine →
      m.isValid (.constraint c) = true → m.constraintPrimal (.constraint c) = .ok 0 := by
  obtain ⟨ray, hsome⟩ := Option.isSome_iff_exists.1 hray
  have hblank : m.solution.rowPrimal = [] := by
    obtain ⟨-, -, -, hempty⟩ | ⟨x, hunbounded, -, -⟩ := h.solution
    · exact hempty
    · exact absurd hstatus hunbounded
  obtain ⟨x, hx⟩ : ∃ x : ℕ → ℚ, ∀ i < m.problem.columnCount, ray[i]? = some (rat (x i)) := by
    obtain rfl | ⟨x, rfl⟩ := h.ray ray hsome
    · refine ⟨fun _ => 0, fun i hi => ?_⟩
      have hnan := hnumeric _ hsome nan (List.mem_replicate.2 ⟨by omega, rfl⟩)
      cases hnan
    · exact ⟨x, fun i hi => by simp [firstValues, hi]⟩
  refine ⟨m.assignmentOf x, hm.valuedAt fun hat hinfo => ?_, fun c hc hlive => ?_⟩
  · rw [hat.variablePrimal hinfo, hsome]
    exact component_of_getElem (hx _ hat.place_lt)
  · obtain ⟨i, k, info, r, f, -, -, -, hprimal⟩ := hm.exists_constraintFunction hc hlive
    rw [hprimal, hblank]
    rfl

end

end Model

/-- Whatever the model and the method and whatever the solver answers: a solve that returns with a
point reports one assignment, for variables, for constraints on one of them and, by their
functions, for affine constraints. One that returns with a direction reports it for variables and
constraints on one of them; affine constraints have the value zero then. -/
theorem optimize_reports_values {σ : Type} {host : Host Extended σ} (hhost : host.GivesPoints)
    {callback : Option (Callback Extended σ)}
    (hcallback : ∀ call, callback = some call → call.EditsRows)
    {m : Model Extended} (hm : m.Reachable) (hrows : ∀ r ∈ m.problem.rows, r.IsNumeric) {fuel : ℕ}
    {session : Session Extended σ} {w : Workbench Extended σ}
    (hrun : Solving.optimize host callback fuel ⟨session, m⟩ = .ok () w) :
    (w.model.primalStatus = .ok .feasiblePoint →
      ∃ z, w.model.ValuedAt z ∧ w.model.RowsValuedAt z) ∧
    (w.model.primalStatus = .ok .certificate → w.model.HasNumericRay →
      ∃ z, w.model.ValuedAt z ∧ ∀ c : ConstraintIndex, c.function = .scalarAffine →
        w.model.isValid (.constraint c) = true → w.model.constraintPrimal (.constraint c) = .ok 0) := by
  have hunsolved : w.model.unsolved = m.unsolved := by
    have := hm.sound.unsolved_after host callback fuel session
    rwa [after_ok hrun] at this
  have hsound : w.model.Sound := hm.sound.of_unsolved hunsolved
  have hcolumns : w.model.problem.columns = m.problem.columns :=
    congrArg (fun m => m.problem.columns) hunsolved
  have hkept : w.model.problem.rows = m.problem.rows :=
    congrArg (fun m => m.problem.rows) hunsolved
  have htabulated := (Solving.optimize_tabulates hhost (w := ⟨session, m⟩) hm.sound hcallback fuel).ok
    hrun
  dsimp only at htabulated
  rw [Problem.columnCount, ← hcolumns, ← hkept] at htabulated
  rw [← hkept] at hrows
  have hconsistent := optimize_consistent hhost.fillsPoints hrun
  constructor
  · intro hstatus
    refine hsound.exists_valuedAt htabulated hrows ((Model.status_of_primalStatus hstatus).1 rfl) ?_
    rw [← Option.not_isSome_iff_eq_none, hconsistent.ray, hstatus]
    simp
  · intro hstatus
    exact hsound.exists_valuedAt_ray htabulated ((Model.status_of_primalStatus hstatus).2 rfl)
      (hconsistent.ray.2 hstatus)

/-! ### A point and a direction -/

theorem Host.single_givesPoints {σ : Type} : (Host.single (σ := σ)).GivesPoints := by
  intro r w a ha hstatus
  change r.program.solveSingle = .ok a at ha
  unfold LinearProgram.solveSingle at ha
  split at ha
  · next cost hcost =>
    split_ifs at ha
    · split at ha
      · next v _ =>
        cases ha
        refine ⟨fun _ => v, ?_⟩
        rw [LinearProgram.values, hcost]
        rfl
      · cases ha
        simp [LinearProgram.noAnswer] at hstatus
    · cases ha
      simp [LinearProgram.noAnswer] at hstatus
  · cases ha

theorem fenced_reachable {s : ScalarSet Extended} {b : BoundKind × Extended × Extended}
    (hs : s.isRow = true) (hb : s.rowBound? = some b) : (fenced s b).Reachable := by
  rw [← after_fence hs hb]
  exact falling_reachable.call (by rintro _ ⟨⟩ _ ⟨⟩)

theorem fenced_isNumeric {s : ScalarSet Extended} {b : BoundKind × Extended × Extended} :
    ∀ r ∈ (fenced s b).problem.rows, r.IsNumeric := by
  intro r hr e he
  cases List.mem_singleton.1 hr
  cases List.mem_singleton.1 he
  rfl

/-- The row of `fenced`. -/
def fenceIndex (s : ScalarSet Extended) : ConstraintIndex := ⟨.scalarAffine, s.kind, 1⟩

section
variable {s : ScalarSet Extended} {b : BoundKind × Extended × Extended} {m : Model Extended}

/-- What a solve leaves of the variable and the row of `fenced`. -/
theorem fenced_reads (hb : s.rowBound? = some b) (hm : m.Sound)
    (hunsolved : m.unsolved = (fenced s b).unsolved) :
    (∃ info c, m.VariableAt 0 1 info c ∧ m.info (.var ⟨1⟩) = .ok info) ∧
      m.isValid (.var ⟨1⟩) = true ∧ m.isValid (.constraint (fenceIndex s)) = true ∧
      m.constraintPrimal (.constraint (fenceIndex s)) = .ok (m.solution.rowPrimal.getD 0 0) ∧
      ∃ f, m.constraintFunction (.constraint (fenceIndex s)) = .ok f ∧ ∀ z, f.valueAt z = z ⟨1⟩ := by
  have hvars : m.vars = (fenced s b).vars := congrArg (fun m => m.vars) hunsolved
  have haffine : m.affine = (fenced s b).affine := congrArg (fun m => m.affine) hunsolved
  have hcolumns : m.problem.columns = (fenced s b).problem.columns :=
    congrArg (fun m => m.problem.columns) hunsolved
  have hrows : m.problem.rows = (fenced s b).problem.rows :=
    congrArg (fun m => m.problem.rows) hunsolved
  have hat : m.VariableAt 0 1 { index := ⟨1⟩, column := 1 } { cost := 1 } :=
    ⟨by rw [hvars]; rfl, by rw [hcolumns, fenced_columns]; rfl, rfl, rfl⟩
  have hrow : m.RowAt 0 1 ⟨1, s, ""⟩ (({ coefs := [(1, 1)] } : Row Extended).within b) :=
    ⟨by rw [haffine]; rfl, by rw [hrows]; rfl, rfl, hb⟩
  have hlive : m.isValid (.constraint (fenceIndex s)) = true := by
    have hget : m.affine.get? 1 = some ⟨1, s, ""⟩ := hrow.get? hm.named.wf
    simp [Model.isValid, Model.carries, fenceIndex, hget]
  obtain ⟨i, k, info, r, f, hat', hfunction, hvalue, hprimal⟩ :=
    hm.exists_constraintFunction (c := fenceIndex s) rfl hlive
  have hlength : m.affine.entries.length = 1 := by rw [haffine]; rfl
  obtain rfl : i = 0 := by
    have := (List.getElem?_eq_some_iff.1 hat'.entry).1
    omega
  cases hat'.row.symm.trans hrow.row
  have hget : m.vars.get? 1 = some { index := ⟨1⟩, column := 1 } := hat.get? hm.named.wf
  refine ⟨⟨_, _, hat, by rw [Model.info_var, hget]⟩, ?_, hlive, hprimal, f, hfunction, fun z => ?_⟩
  · rw [Model.isValid, hm.named.wf.vars.contains_eq, hget]
    rfl
  · have hnumeric : (({ coefs := [(1, 1)] } : Row Extended).within b).IsNumeric :=
      fenced_isNumeric (s := s) (b := b) _ (List.mem_singleton_self _)
    have hcount : m.problem.columnCount = 1 := by
      rw [Problem.columnCount, hcolumns, fenced_columns]
      rfl
    rw [hvalue hnumeric, hcount, Row.activity, sum_range_one, hat.pointOf]
    exact one_mul _

end

theorem eq_singleton_of_beq {xs : List Extended} {q : ℚ} (h : xs.map (· == rat q) = [true]) :
    xs = [rat q] := by
  obtain ⟨y, rfl, hy⟩ := List.map_eq_singleton_iff.1 h
  rw [eq_of_beq hy]

/-- A solve of `fenced`, as it is when it returns. -/
structure SolvedFenced (s : ScalarSet Extended) (b : BoundKind × Extended × Extended)
    (w : Workbench Extended Unit) : Prop where
  run : Solving.optimize Host.single none 20 ⟨⟨(), #[]⟩, fenced s b⟩ = .ok () w
  sound : w.model.Sound
  unsolved : w.model.unsolved = (fenced s b).unsolved

section
variable {s : ScalarSet Extended} {b : BoundKind × Extended × Extended}

theorem exists_solvedFenced (hs : s.isRow = true) (hb : s.rowBound? = some b)
    (hreturns : passes (Solving.optimize (Host.single (σ := Unit)) none 20)
      ⟨⟨(), #[]⟩, fenced s b⟩ (fun _ => true) = true) :
    ∃ w, SolvedFenced s b w ∧
      after (Solving.optimize Host.single none 20) ⟨⟨(), #[]⟩, fenced s b⟩ = w := by
  obtain ⟨_, w, hrun, -⟩ := exists_of_passes (fun _ => true) hreturns
  have hm := (fenced_reachable hs hb).sound
  have hunsolved := hm.unsolved_after Host.single none 20 ⟨(), #[]⟩
  rw [after_ok hrun] at hunsolved
  exact ⟨w, ⟨hrun, hm.of_unsolved hunsolved, hunsolved⟩, after_ok hrun⟩

/-- The value that the variable is reported with. -/
theorem SolvedFenced.value {w : Workbench Extended Unit} (h : SolvedFenced s b w)
    (hb : s.rowBound? = some b) {z : Assignment} (hz : w.model.ValuedAt z) {q : ℚ}
    (hq : w.model.last.ray = some [rat q] ∨
      w.model.last.ray = none ∧ w.model.solution.colPrimal = [rat q]) : z ⟨1⟩ = q := by
  obtain ⟨⟨info, c, hat, hinfo⟩, hlive, -⟩ := fenced_reads hb h.sound h.unsolved
  have hvalue := hz.vars ⟨1⟩ hlive
  rw [hat.variablePrimal hinfo] at hvalue
  obtain hray | ⟨hray, hpoint⟩ := hq
  · rw [hray] at hvalue
    exact ((rat_inj _ _).1 (Except.ok.inj hvalue)).symm
  · rw [hray, hpoint] at hvalue
    exact ((rat_inj _ _).1 (Except.ok.inj hvalue)).symm

end

theorem exists_solved_floored : ∃ w, SolvedFenced (.greaterThan (rat 3)) (.lower, rat 3, top) w ∧
    w.model.primalStatus = .ok .feasiblePoint ∧ w.model.last.ray = none ∧
    w.model.solution.colPrimal = [rat 3] := by
  obtain ⟨w, h, hafter⟩ := exists_solvedFenced (s := .greaterThan (rat 3))
    (b := (.lower, rat 3, top)) rfl rfl (by decide +kernel)
  have hstatus : (after (Solving.optimize (Host.single (σ := Unit)) none 20)
      ⟨⟨(), #[]⟩, floored⟩).model.primalStatus.toOption = some .feasiblePoint := by decide +kernel
  have hray : (after (Solving.optimize (Host.single (σ := Unit)) none 20)
      ⟨⟨(), #[]⟩, floored⟩).model.last.ray.isNone = true := by decide +kernel
  have hpoint : (after (Solving.optimize (Host.single (σ := Unit)) none 20)
      ⟨⟨(), #[]⟩, floored⟩).model.solution.colPrimal.map (· == rat 3) = [true] := by decide +kernel
  rw [floored, hafter] at hstatus hray hpoint
  exact ⟨w, h, ok_of_toOption hstatus, Option.isNone_iff_eq_none.1 hray, eq_singleton_of_beq hpoint⟩

theorem exists_solved_roofed : ∃ w, SolvedFenced (.lessThan (rat 3)) (.upper, bottom, rat 3) w ∧
    w.model.primalStatus = .ok .certificate ∧ w.model.last.ray = some [rat (-1)] ∧
    w.model.solution.rowPrimal = [] := by
  obtain ⟨w, h, hafter⟩ := exists_solvedFenced (s := .lessThan (rat 3))
    (b := (.upper, bottom, rat 3)) rfl rfl (by decide +kernel)
  have hstatus : (after (Solving.optimize (Host.single (σ := Unit)) none 20)
      ⟨⟨(), #[]⟩, roofed⟩).model.primalStatus.toOption = some .certificate := by decide +kernel
  have hray : (after (Solving.optimize (Host.single (σ := Unit)) none 20)
      ⟨⟨(), #[]⟩, roofed⟩).model.last.ray.map (·.map (· == rat (-1))) = some [true] := by
    decide +kernel
  have hrows : (after (Solving.optimize (Host.single (σ := Unit)) none 20)
      ⟨⟨(), #[]⟩, roofed⟩).model.solution.rowPrimal.isEmpty = true := by decide +kernel
  rw [roofed, hafter] at hstatus hray hrows
  obtain ⟨ray, hsome, hray⟩ := Option.map_eq_some_iff.1 hray
  exact ⟨w, h, ok_of_toOption hstatus, hsome.trans (congrArg some (eq_singleton_of_beq hray)),
    List.isEmpty_iff.1 hrows⟩

theorem hasNumericRay_of_singleton {m : Model Extended} {q : ℚ} (h : m.last.ray = some [rat q]) :
    m.HasNumericRay := by
  intro ray hray y hy
  cases h.symm.trans hray
  rw [List.mem_singleton.1 hy]
  rfl

/-- At least three and falling comes to three; at most three and falling has a direction. -/
theorem optimize_reports_values_fenced :
    (∃ w z, Solving.optimize Host.single none 20 ⟨⟨(), #[]⟩, floored⟩ = .ok () w ∧
      w.model.ValuedAt z ∧ w.model.RowsValuedAt z ∧ z ⟨1⟩ = 3) ∧
    ∃ w z, Solving.optimize Host.single none 20 ⟨⟨(), #[]⟩, roofed⟩ = .ok () w ∧
      w.model.ValuedAt z ∧ z ⟨1⟩ = -1 ∧
      w.model.constraintPrimal (.constraint (fenceIndex (.lessThan (rat 3)))) = .ok 0 := by
  constructor
  · obtain ⟨w, h, hstatus, hray, hpoint⟩ := exists_solved_floored
    obtain ⟨z, hz, hrows⟩ := (optimize_reports_values Host.single_givesPoints (by simp)
      (fenced_reachable rfl rfl) fenced_isNumeric h.run).1 hstatus
    exact ⟨w, z, h.run, hz, hrows, h.value rfl hz (.inr ⟨hray, hpoint⟩)⟩
  · obtain ⟨w, h, hstatus, hray, -⟩ := exists_solved_roofed
    obtain ⟨z, hz, hzero⟩ := (optimize_reports_values Host.single_givesPoints (by simp)
      (fenced_reachable rfl rfl) fenced_isNumeric h.run).2 hstatus (hasNumericRay_of_singleton hray)
    obtain ⟨-, -, hlive, -⟩ := fenced_reads rfl h.sound h.unsolved
    exact ⟨w, z, h.run, hz, h.value rfl hz (.inl hray), hzero _ rfl hlive⟩

/-- Not every direction that is reported is one that affine constraints are valued at. -/
theorem not_forall_reports_values : ¬∀ (host : Host Extended Unit) (m : Model Extended)
    (session : Session Extended Unit) (w : Workbench Extended Unit), host.GivesPoints →
      m.Reachable → (∀ r ∈ m.problem.rows, r.IsNumeric) →
      Solving.optimize host none 20 ⟨session, m⟩ = .ok () w →
      w.model.primalStatus = .ok .certificate → w.model.HasNumericRay →
      ∃ z, w.model.ValuedAt z ∧ w.model.RowsValuedAt z := by
  intro hall
  obtain ⟨w, h, hstatus, hray, hrows⟩ := exists_solved_roofed
  obtain ⟨z, hz, hvalued⟩ := hall Host.single roofed ⟨(), #[]⟩ w Host.single_givesPoints
    (fenced_reachable rfl rfl) fenced_isNumeric h.run hstatus (hasNumericRay_of_singleton hray)
  obtain ⟨-, -, hlive, hprimal, f, hf, hvalue⟩ := fenced_reads rfl h.sound h.unsolved
  obtain ⟨g, hg, hprimal'⟩ := hvalued _ rfl hlive
  cases hf.symm.trans hg
  rw [hvalue, h.value rfl hz (.inl hray), hprimal, hrows] at hprimal'
  cases (rat_inj _ _).1 (Except.ok.inj hprimal')

end MixedInteger
