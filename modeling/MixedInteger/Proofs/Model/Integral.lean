import MixedInteger.Proofs.Model.CallbackFrame
import MixedInteger.Proofs.Model.Solve
import MixedInteger.Proofs.Model.Reachable
import MixedInteger.Proofs.Model.Run

/-! The values of integer variables. A solve that returns reports a point with whole values for
them, and so it stays when later solves of the same model are broken off, as the solution of a
search is replaced by that of another one only. After a first solve that is broken off the model
still goes by the algorithm before, so the point of a relaxation may be reported, whole or not. -/

namespace MixedInteger

variable {α σ : Type} [Scalar α]

/-! ### What is reported -/

namespace Model

variable {m m' : Model α}

/-- The variable lies in a set of integers. -/
def IsIntegral (m : Model α) (v : VariableIndex) : Prop :=
  m.isValid (.constraint ⟨.singleVariable, .zeroOne, v.value⟩) = true ∨
    m.isValid (.constraint ⟨.singleVariable, .integer, v.value⟩) = true

/-- When a point is reported it has whole values for variables that lie in sets of integers. -/
def ReportsWhole (m : Model α) : Prop :=
  m.primalStatus = .ok .feasiblePoint → ∀ v, m.IsIntegral v →
    ∃ x, m.variablePrimal (.var v) = .ok x ∧ Scalar.IsWhole x

/-- The last solve was a search, and its point is whole at the integer columns. -/
structure HoldsWhole (m : Model α) : Prop where
  bySearch : m.last.bySearch = true
  ray : m.last.ray = none
  point : m.problem.integer.Whole (m.problem.columns.map (·.kind))

/-- A variable in a set of integers has an integer column. -/
theorem Sound.exists_integerColumn (h : m.Sound) {v : VariableIndex} (hv : m.IsIntegral v) :
    ∃ i k info c, m.info (.var v) = .ok info ∧ m.VariableAt i k info c ∧ c.kind = .integer := by
  have hcarries : ∀ kind, m.isValid (.constraint ⟨.singleVariable, kind, v.value⟩) = true →
      ∃ info, m.vars.get? v.value = some info ∧ info.carries kind = true := by
    intro kind hvalid
    rw [isValid, carries] at hvalid
    cases hinfo : m.vars.get? v.value with
    | none =>
      rw [hinfo] at hvalid
      cases hvalid
    | some info =>
      rw [hinfo] at hvalid
      exact ⟨info, rfl, hvalid⟩
  have htyped : ∃ info, m.vars.get? v.value = some info ∧ info.type ≠ .continuous := by
    obtain hv | hv := hv
    all_goals
      obtain ⟨info, hinfo, hkind⟩ := hcarries _ hv
      refine ⟨info, hinfo, fun htype => ?_⟩
      rw [VariableInfo.carries, htype] at hkind
      cases hkind
  obtain ⟨info, hinfo, htype⟩ := htyped
  obtain ⟨i, k, c, hk, hat⟩ := h.named.wf.variableAt hinfo
  exact ⟨i, k, info, c, by rw [info_var, hinfo], hat, (h.kind_column hat).2 htype⟩

theorem HoldsWhole.reports (h : m.HoldsWhole) (hm : m.Sound) : m.ReportsWhole := by
  intro hstatus v hv
  obtain ⟨i, k, info, c, hinfo, hat, hkind⟩ := hm.exists_integerColumn hv
  have hstored := (status_of_primalStatus hstatus).1 rfl
  rw [solution_of_search h.bySearch] at hstored
  have hpoint := h.point hstored
  have hcolumn : (m.problem.columns.map (·.kind))[i]? = some .integer := by
    rw [List.getElem?_map, hat.column, ← hkind]
    rfl
  obtain ⟨x, hx, hwhole⟩ := hpoint.getElem hcolumn
  refine ⟨x, ?_, hwhole⟩
  rw [hat.variablePrimal hinfo, h.ray, solution_of_search h.bySearch]
  dsimp only
  rw [List.getD_eq_getElem?_getD, hx, Option.getD_some]

end Model

/-! ### Solves, one after another -/

/-- A solve that is tried. -/
structure Attempt (α σ : Type) [Scalar α] where
  host : Host α σ
  callback : Option (Callback α σ)
  fuel : Nat
  session : Session α σ

namespace Attempt

/-- The model that is left, whether the solve returns or fails. -/
def on (a : Attempt α σ) (m : Model α) : Model α :=
  (after (Solving.optimize a.host a.callback a.fuel) ⟨a.session, m⟩).model

/-- Its callback lets columns and incumbents be. -/
def Spares (a : Attempt α σ) : Prop := ∀ call, a.callback = some call → call.Spares

variable [LawfulScalar α] {m : Model α} (hm : m.Sound) (hmixed : m.IsMixed) {a : Attempt α σ}
  (ha : a.Spares)
include hm hmixed ha

/-- A solve that returns holds a whole point, and one that is broken off holds what was held
before. -/
theorem runs : Runs (Solving.optimize a.host a.callback a.fuel) ⟨a.session, m⟩
    (fun _ w' => w'.model.HoldsWhole) fun w' => m.HoldsWhole → w'.model.HoldsWhole := by
  have hkinds : m.innerColumns.map (·.kind) = m.problem.columns.map (·.kind) :=
    Model.map_kind_innerColumns (by
      rw [Registry.values, List.length_map]
      exact hm.named.wf.columnCount.symm)
  have hfinds : Solving.Finds (m.begun.withColumns m.innerColumns) a.host a.callback a.fuel
      fun _ s _ => s.Whole (m.problem.columns.map (·.kind)) := by
    intro b k session
    let ready := ((m.begun.withColumns m.innerColumns).withBasis b).withPresolve k
    let company : Search.Company α (Watched α σ) :=
      ⟨a.host.watched, some (ready.watch a.callback)⟩
    have hspares : ∀ hear, company.listener = some hear → SearchTask.Spares hear := by
      rintro _ ⟨⟩
      exact ready.watch_spares ha
    have hwhole := intopt_whole hspares ready.stores.search a.fuel ready.problem
      (session.watched m.last.objectiveBound m.last.relativeGap) trivial
    rw [← hkinds]
    exact (hwhole.imp fun _ _ h => h.1).weaken fun _ _ => trivial
  have hrun := Solving.optimize_searches (w := ⟨a.session, m⟩) hm.roundable hmixed hfinds
  refine (hrun.imp ?_).weaken ?_
  · rintro _ w' ⟨b, v, code, s, seconds, hwhole, -, hw'⟩
    rw [hw']
    exact ⟨rfl, rfl, hwhole⟩
  · rintro w' ⟨b, v, hw'⟩ h
    rw [hw']
    exact ⟨h.bySearch, rfl, h.point⟩

end Attempt

/-- When a solve of a reachable model has returned, the point that is reported has whole values
for integer variables, and so has the one that is reported after any later solves of the same
model, whether these return or fail, whatever the solver answers and wherever a callback raises. -/
theorem optimize_reports_whole [LawfulScalar α] {m : Model α} (hm : m.Reachable)
    (hmixed : m.IsMixed) {first : Attempt α σ} (hfirst : first.Spares)
    {later : List (Attempt α σ)} (hlater : ∀ a ∈ later, a.Spares) {w : Workbench α σ}
    (hreturns :
      Solving.optimize first.host first.callback first.fuel ⟨first.session, m⟩ = .ok () w) :
    (later.foldl (fun m a => a.on m) w.model).ReportsWhole := by
  have hunsolved : w.model.unsolved = m.unsolved := by
    have h := hm.sound.unsolved_after first.host first.callback first.fuel first.session
    rwa [after_ok hreturns] at h
  have hholds : w.model.HoldsWhole := (first.runs hm.sound hmixed hfirst).ok hreturns
  clear hreturns
  generalize w.model = m' at hunsolved hholds ⊢
  induction later generalizing m' with
  | nil => exact hholds.reports (hm.sound.of_unsolved hunsolved)
  | cons a later ih =>
    have hsound := hm.sound.of_unsolved hunsolved
    have hmixed' : m'.IsMixed := by
      have hcounts := And.intro (congrArg (·.binaries) hunsolved) (congrArg (·.integers) hunsolved)
      unfold Model.IsMixed
      rwa [show m'.binaries = m.binaries from hcounts.1,
        show m'.integers = m.integers from hcounts.2]
    have hstep := a.runs hsound hmixed' (hlater a List.mem_cons_self)
    have hkept : (a.on m').unsolved = m'.unsolved :=
      hsound.unsolved_after a.host a.callback a.fuel a.session
    refine ih (fun b hb => hlater b (List.mem_cons_of_mem a hb)) (a.on m')
      (hkept.trans hunsolved) ?_
    unfold Attempt.on after
    unfold Runs at hstep
    cases hrun : Solving.optimize a.host a.callback a.fuel ⟨a.session, m'⟩ with
    | ok u w =>
      rw [hrun] at hstep
      exact hstep
    | error e w =>
      rw [hrun] at hstep
      exact hstep hholds

/-! ### A relaxation that is not whole -/

section

open Extended

theorem lone_reachable : lone.Reachable := by
  have hcall := (Model.Reachable.emptied ({} : Model Extended)).call (c := .edit (.addVariables 1))
    (by decide)
  rwa [Call.after_addVariables (.emptied _) le_rfl] at hcall

/-- The variable is an integer. -/
def loneInteger : Model Extended :=
  { lone with
    vars := { lone.vars with entries := [(1, { index := ⟨1⟩, column := 1, type := .integer })] }
    integers := 1
    problem := { lone.problem with columns := [{ kind := .integer }] } }

theorem loneInteger_reachable : loneInteger.Reachable := by
  have hcall := lone_reachable.call (c := .edit (.addConstraint (.single ⟨1⟩) (.set .integer)))
    (by decide +kernel)
  have hentry : lone.vars.entries[0]? = some (1, { index := ⟨1⟩, column := 1 }) := rfl
  have hrun := Modelling.addTypeConstraint_run lone_wellFormed (c := {}) ⟨hentry, rfl, rfl, rfl⟩
    rfl .integer .integer
  rw [Model.withVariable, Model.withColumn, lone_wellFormed.vars.modify_of_getElem hentry] at hrun
  have hafter :
      Call.after lone (.edit (.addConstraint (.single ⟨1⟩) (.set .integer))) = loneInteger :=
    (after_return (Modelling.addConstraint _ _) Reply.newConstraint).trans (after_ok hrun)
  rwa [hafter] at hcall

theorem loneInteger_get? :
    loneInteger.vars.get? 1 = some { index := ⟨1⟩, column := 1, type := .integer } :=
  loneInteger_reachable.sound.named.wf.vars.get?_of_getElem (i := 0) rfl

/-- Its double. -/
def twice : AffineFunction Extended := ⟨[⟨rat 2, ⟨1⟩⟩], 0⟩

/-- Its double is at most seven. -/
def loneCapped : Model Extended :=
  { loneInteger with
    affine := (lone.affine.add ⟨1, .lessThan (rat 7), ""⟩).1
    problem :=
      { loneInteger.problem with
        rows := [{ bound := .upper, lower := bottom, upper := rat 7, coefs := [(1, rat 2)] }]
      }.padSolutions }

theorem loneCapped_reachable : loneCapped.Reachable := by
  have hcall := loneInteger_reachable.call
    (c := .edit (.addConstraint (.affine twice) (.set (.lessThan (rat 7))))) (by decide +kernel)
  have hnonzero : (rat 2 == 0) = false := by decide +kernel
  have hcoefs : loneInteger.coefsOf twice = [(1, rat 2)] := by
    simp [Model.coefsOf, twice, AffineFunction.canonical_single hnonzero, loneInteger_get?]
  have hlive : loneInteger.firstDead twice.canonical.terms = none := by
    simp [Model.firstDead, twice, AffineFunction.canonical_single hnonzero, loneInteger_get?]
  have hrun := Modelling.addAffineConstraint_run loneInteger_reachable.sound.named.wf (f := twice)
    (s := .lessThan (rat 7)) rfl hlive rfl
  rw [hcoefs] at hrun
  have hafter : Call.after loneInteger
      (.edit (.addConstraint (.affine twice) (.set (.lessThan (rat 7))))) = loneCapped :=
    (after_return (Modelling.addConstraint _ _) Reply.newConstraint).trans (after_ok hrun)
  rwa [hafter] at hcall

/-- The variable is the objective. -/
def loneObjective : Model Extended :=
  { loneCapped with
    problem :=
      { loneCapped.problem with
        columns :=
          [{ kind := .integer, cost := AffineFunction.coefficient ⟨[⟨1, ⟨1⟩⟩], 0⟩ ⟨1⟩ }] }
    objectiveKind := .singleVariable }

theorem loneObjective_reachable : loneObjective.Reachable := by
  have hcall := loneCapped_reachable.call (c := .edit (.setObjective (.single ⟨1⟩)))
    (by decide +kernel)
  have hlive : loneCapped.firstDead [⟨1, ⟨1⟩⟩] = none := by
    simp [Model.firstDead, show loneCapped.vars.get? 1 = _ from loneInteger_get?]
  have hrun := Modelling.setAffineObjective_run (f := ⟨[⟨1, ⟨1⟩⟩], 0⟩)
    loneCapped_reachable.sound.named.wf hlive .singleVariable
  have hafter : Call.after loneCapped (.edit (.setObjective (.single ⟨1⟩))) = loneObjective :=
    (after_return (Modelling.setAffineObjective _ _) fun _ => Reply.done).trans (after_ok hrun)
  rwa [hafter] at hcall

/-- An integer variable, twice of which is at most seven, is maximised. -/
def capped : Model Extended := loneObjective.withSense .maximize

theorem capped_reachable : capped.Reachable := loneObjective_reachable.sense .maximize

/-- A solve with a callback that raises at once. -/
def raising : Attempt Extended Unit := ⟨Host.single, some fun _ => throw .pastEnd, 20, ⟨(), #[]⟩⟩

/-- A solve with a callback that cuts off what is above two. -/
def curbing : Attempt Extended Unit := ⟨Host.single, some fun d => do
  if (← d.reason) = 1 then discard (d.addCut ⟨[⟨1, ⟨1⟩⟩], 0⟩ (.set (.lessThan (rat 2)))), 20,
  ⟨(), #[]⟩⟩

theorem raising_spares : raising.Spares := by
  rintro _ ⟨⟩
  exact Callback.EditsRows.spares (Callback.Written.editsRows fun _ => .throw _)

theorem curbing_spares : curbing.Spares := by
  rintro _ ⟨⟩
  refine Callback.EditsRows.spares (Callback.Written.editsRows fun d => .bind .reason fun r => ?_)
  split_ifs
  · exact .bind (.addCut _ _) fun _ => .pure _
  · exact .pure _

/-- Without a callback three is reported, also after a second solve that is broken off. What is
reported after a third one, which cuts off three, is whole as well. -/
theorem optimize_reports_whole_capped : ∃ w,
    Solving.optimize Host.single none 20 ⟨⟨(), #[]⟩, capped⟩ = .ok () w ∧
      (raising.on w.model).primalStatus = .ok .feasiblePoint ∧
      (raising.on w.model).problem.integer.colPrimal.map (·.value) = [3] ∧
      (raising.on w.model).ReportsWhole ∧
      (curbing.on (raising.on w.model)).ReportsWhole := by
  obtain ⟨_, w, hrun, -⟩ := exists_of_passes (x := Solving.optimize Host.single none 20)
    (s := ⟨⟨(), #[]⟩, capped⟩) (fun _ => true) (by decide +kernel)
  have hafter := after_ok hrun
  have hstatus : (raising.on (after (Solving.optimize Host.single none 20)
      ⟨⟨(), #[]⟩, capped⟩).model).primalStatus.toOption = some .feasiblePoint := by
    decide +kernel
  have hpoint : (raising.on (after (Solving.optimize Host.single none 20)
      ⟨⟨(), #[]⟩, capped⟩).model).problem.integer.colPrimal.map (·.value) = [3] := by
    decide +kernel
  rw [hafter] at hstatus hpoint
  have hfirst : (⟨Host.single, none, 20, ⟨(), #[]⟩⟩ : Attempt Extended Unit).Spares :=
    fun _ h => nomatch h
  have hmixed : capped.IsMixed := .inr (by decide +kernel)
  have hwhole : ∀ later : List (Attempt Extended Unit), (∀ a ∈ later, a.Spares) →
      (later.foldl (fun m a => a.on m) w.model).ReportsWhole := fun _ hlater =>
    optimize_reports_whole capped_reachable hmixed hfirst hlater hrun
  refine ⟨w, hrun, ok_of_toOption hstatus, hpoint, hwhole [raising] ?_,
    hwhole [raising, curbing] ?_⟩
  · simpa using raising_spares
  · simpa using ⟨raising_spares, curbing_spares⟩

/-- Broken off at once, the first solve leaves the relaxation as what is reported, and its point
need not be whole. -/
theorem not_forall_reportsWhole : ¬∀ m : Model Extended, m.Reachable → m.IsMixed →
    ∀ a : Attempt Extended Unit, a.Spares → (a.on m).ReportsWhole := by
  intro hall
  have hstatus : (raising.on capped).primalStatus.toOption = some .feasiblePoint := by
    decide +kernel
  have hpoint : (raising.on capped).solution.colPrimal.map (·.value) = [7 / 2] := by
    decide +kernel
  have hray : (raising.on capped).last.ray = none := by decide +kernel
  have hunsolved : (raising.on capped).unsolved = capped.unsolved :=
    capped_reachable.sound.unsolved_after _ _ _ _
  have hwf := (capped_reachable.sound.of_unsolved hunsolved).named.wf
  have hvars : (raising.on capped).vars = loneInteger.vars := congrArg (·.vars) hunsolved
  have hget : (raising.on capped).vars.get? 1 = _ := hvars ▸ loneInteger_get?
  have hintegral : (raising.on capped).IsIntegral ⟨1⟩ := .inr (by
    simp [Model.isValid, Model.carries, hget, VariableInfo.carries])
  obtain ⟨x, hx, y, -, hwhole⟩ := hall capped capped_reachable (.inr (by decide +kernel)) raising
    raising_spares (ok_of_toOption hstatus) ⟨1⟩ hintegral
  obtain ⟨i, k, c, hk, hat⟩ := hwf.variableAt hget
  obtain ⟨rfl⟩ : i = 0 := by simpa using hat.number.symm
  obtain ⟨z, hz, hvalue⟩ : ∃ z, (raising.on capped).solution.colPrimal = [z] ∧ z.value = 7 / 2 := by
    simpa [List.map_eq_cons_iff] using hpoint
  rw [hat.variablePrimal (by rw [Model.info_var, hget]), hray, hz, hwhole] at hx
  have hx : z = Scalar.ofInt (Scalar.nearestInt y) := Except.ok.inj hx
  rw [hx, ofInt_eq] at hvalue
  have htwice : (2 * Scalar.nearestInt y : ℚ) = 7 := by
    have : (Scalar.nearestInt y : ℚ) = 7 / 2 := hvalue
    linarith
  exact absurd (by exact_mod_cast htwice : 2 * Scalar.nearestInt y = 7) (by omega)

end

end MixedInteger
