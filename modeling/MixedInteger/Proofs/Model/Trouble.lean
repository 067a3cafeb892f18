import MixedInteger.Proofs.Model.ReturnCodes

/-! Trouble with the numbers and what is said of it. A method asks one question about the problem
itself; the questions after it are about certificates. When the solver gives up on that question,
the simplex and exact methods both end with the code for a failure, and the interior method ends
with one of two codes of its own. The tables of the simplex and interior methods call this a
numerical error or slow progress. In the table of the exact method the same code stands for a
problem without rows or columns, so there the model is called invalid. No other answer has that
said of a model with rows, columns and bounds in order. -/

namespace MixedInteger

variable {α σ : Type} [Scalar α]

/-! ### The question of a method -/

namespace Parameter.Simplex

/-- The options with the limits that are in force, unless the time limit is too large a number. -/
def limits? (s : Simplex α) (o : SolverOptions α) : Option (SolverOptions α) :=
  let o := if s.iterationLimit < unlimited then { o with iterationLimit := some s.iterationLimit }
    else o
  if s.timeLimit < unlimited then
    (Scalar.ofInt? s.timeLimit).map fun limit =>
      { o with timeLimit := some (limit / Scalar.ofNat 1000) }
  else some o

/-- Looking for the limits does nothing else. -/
theorem limited_runs (params : Parameter.Simplex α) (o : SolverOptions α) (s : Session α σ) :
    Runs (params.limited o) s (fun o' s' => params.limits? o = some o' ∧ s' = s)
      fun _ => params.limits? o = none := by
  unfold limited limits?
  dsimp only
  by_cases htime : params.timeLimit < unlimited
  · rw [if_pos htime, if_pos htime, Task.number]
    cases Scalar.ofInt? params.timeLimit (α := α) with
    | none => exact rfl
    | some limit => exact ⟨rfl, rfl⟩
  · rw [if_neg htime, if_neg htime]
    exact ⟨rfl, rfl⟩

end Parameter.Simplex

/-- What the method of the model asks about its problem, if it comes to that. -/
def Model.question? (m : Model α) : Option (Request α) :=
  let lp := m.problem.linearProgram
  let params := m.stores.simplex
  match m.method with
  | .simplex =>
    (params.limits? (params.options params.boundTolerance params.dualTolerance)).map
      fun o => ⟨lp, .simplex, o⟩
  | .exact =>
    let params := { params with presolve := 0 }
    let tight : α := Scalar.ofDecimal 1 (-10)
    (params.limits? (params.options tight tight)).map fun o => ⟨lp, .simplex, o⟩
  | .interior => some ⟨lp, .interior, {}⟩

/-! ### Codes for an answer -/

/-- The codes of a method for trouble with the numbers. -/
def Method.troubles : Method → List ReturnCode
  | .interior => [.unstable, .noConvergence]
  | _ => [.failure]

/-- The code fits the status of the answer: it tells of trouble, or it does not blame the model. -/
structure Method.Heeds (method : Method) (status : Int) (code : ReturnCode) : Prop where
  trouble : status = 4 → code ∈ method.troubles
  blameless : status ≠ 4 → (method.algorithm.verdict code).1 ≠ .invalidModel

namespace Method.Heeds

variable {method : Method} {status : Int} {code : ReturnCode}

theorem of_trouble (hstatus : status = 4) (hcode : code ∈ method.troubles) :
    method.Heeds status code := ⟨fun _ => hcode, fun hne => absurd hstatus hne⟩

theorem of_blameless (hstatus : status ≠ 4)
    (hcode : (method.algorithm.verdict code).1 ≠ .invalidModel) : method.Heeds status code :=
  ⟨fun heq => absurd heq hstatus, fun _ => hcode⟩

/-- Of the codes that a simplex run can end with, the tables of the simplex and exact methods blame
the model for a failure and for bad bounds at most. -/
theorem of_basic (hmethod : method ≠ .interior) (hstatus : status ≠ 4)
    (hcode : code ∈ [.done, .timeLimit, .iterationLimit, .objectiveLower, .objectiveUpper, .noPrimal,
      .noDual]) : method.Heeds status code := by
  have hcodes : ∀ code ∈ [.done, .timeLimit, .iterationLimit, .objectiveLower, .objectiveUpper,
      .noPrimal, .noDual], (method.algorithm.verdict code).1 ≠ .invalidModel := by
    cases method with
    | simplex => decide
    | exact => decide
    | interior => exact absurd rfl hmethod
  exact of_blameless hstatus (hcodes code hcode)

end Method.Heeds

section
variable {host : Host α σ} {p : Problem α}

theorem noOptimum_heeds (params : Parameter.Simplex α) (name : String) (unbounded : Bool)
    {method : Method} (hmethod : method ≠ .interior) {status : Int} (hstatus : status ≠ 4) :
    Task.Returns (noOptimum (σ := σ) params name p unbounded) fun r =>
      method.Heeds status r.2 := by
  have hends : ∀ (b : Solution α) (code : ReturnCode), code ∈ [.done, .objectiveUpper, .noPrimal,
      .noDual] → Task.Returns (pure (p.withBasic b, code) : Task α σ _) fun r =>
        method.Heeds status r.2 := fun b code hcode => .pure <| by
    simp only [List.mem_cons, List.not_mem_nil, or_false] at hcode
    exact .of_basic hmethod hstatus (by simp; tauto)
  unfold noOptimum
  split_ifs
  · exact (Task.Returns.tellAt _ _ _).bind fun _ _ => hends _ _ (by simp)
  · exact (Task.Returns.tellAt _ _ _).bind fun _ _ => hends _ _ (by simp)
  · exact hends _ _ (by simp)
  · exact (Task.Returns.tellAt _ _ _).bind fun _ _ => hends _ _ (by simp)
  · exact (Task.Returns.tellAt _ _ _).bind fun _ _ => hends _ _ (by simp)

variable (hhost : host.Responds)
include hhost

theorem isUnbounded_responds (r : Request α) :
    Task.Returns (isUnbounded host r) fun _ => True :=
  (Task.Returns.responds hhost _).bind fun _ _ => .pure trivial

theorem unboundedRay_responds : Task.Returns (unboundedRay host p) fun _ => True := by
  refine (Task.Returns.responds hhost _).bind fun a _ => ?_
  split_ifs
  · exact (Task.Returns.tell _).bind fun _ _ => .pure trivial
  · exact .pure trivial

theorem infeasibilityRay_responds : Task.Returns (infeasibilityRay host p) fun _ => True := by
  unfold infeasibilityRay
  dsimp only
  split_ifs
  · exact .pure trivial
  refine (Task.Returns.responds hhost _).bind fun a _ => ?_
  split_ifs
  · exact (Task.Returns.tell _).bind fun _ _ => .pure trivial
  · exact .pure trivial

theorem solveBasic_heeds (hcolumns : p.columns ≠ []) (params : Parameter.Simplex α)
    (options : SolverOptions α) (name : String) {method : Method} (hmethod : method ≠ .interior) :
    (solveBasic host params options name p).Heeds host
      ((params.limits? options).map fun o => ⟨p.linearProgram, .simplex, o⟩)
      fun a r => method.Heeds a.status r.2 := by
  have hfailure : .failure ∈ method.troubles := by
    cases method with
    | interior => exact absurd rfl hmethod
    | _ => exact List.mem_cons_self
  intro s
  unfold solveBasic
  refine Runs.bind (P := fun _ s' => s' = s) (.of_ok rfl rfl) ?_
  rintro start s₀ rfl
  refine Task.tellAt_bind fun s₁ hs₁ => ?_
  rw [if_neg (by rwa [List.isEmpty_iff])]
  refine ((params.limited_runs options s₁).weaken fun _ hnone => by rw [hnone]; rfl).bind ?_
  rintro o s₂ ⟨ho, rfl⟩
  refine Task.ask_bind hhost fun a s₃ ha => ?_
  rw [hs₁] at ha
  have hquestion : ((params.limits? options).map fun o =>
      (⟨p.linearProgram, .simplex, o⟩ : Request α)) = some ⟨p.linearProgram, .simplex, o⟩ := by
    rw [ho]
    rfl
  refine Task.Returns.heeds
    (Q := fun (a : Answer α) (r : Problem α × ReturnCode) => method.Heeds a.status r.2)
    ?_ hquestion ha
  split_ifs with hlimit htime hfour hnone hunbounded
  · exact (Task.Returns.tellAt _ _ _).bind fun _ _ =>
      .pure (.of_basic hmethod (by omega) (by simp))
  · exact (Task.Returns.tellAt _ _ _).bind fun _ _ =>
      .pure (.of_basic hmethod (by omega) (by simp))
  · exact (Task.Returns.tellAt _ _ _).bind fun _ _ => .pure (.of_trouble hfour hfailure)
  · exact (isUnbounded_responds hhost _).bind fun unbounded _ =>
      noOptimum_heeds params name unbounded hmethod (by omega)
  · exact noOptimum_heeds params name true hmethod (by omega)
  · refine (Task.Returns.now host).bind fun now _ => (Task.Returns.tellAt _ _ _).bind fun _ _ =>
      .pure (.of_basic hmethod hfour ?_)
    unfold objectiveLimit
    split_ifs <;> simp

theorem interior_heeds (hcolumns : p.columns ≠ []) (hrows : p.rows ≠ [])
    (params : Parameter.Interior) :
    (interior host params p).Heeds host (some ⟨p.linearProgram, .interior, {}⟩)
      fun a r => Method.interior.Heeds a.status r.2 := by
  have hlimit : (Method.interior.algorithm.verdict .iterationLimit).1 ≠ .invalidModel := by decide
  have hdone : (Method.interior.algorithm.verdict .done).1 ≠ .invalidModel := by decide
  intro s
  unfold interior
  dsimp only
  rw [if_neg (by simp [hcolumns, hrows])]
  refine Task.tellAt_bind fun s₁ hs₁ => Task.ask_bind hhost fun a s₂ ha => ?_
  rw [hs₁] at ha
  refine Task.Returns.heeds
    (Q := fun (a : Answer α) (r : Problem α × ReturnCode) => Method.interior.Heeds a.status r.2)
    ?_ rfl ha
  split_ifs with hone hfour hunstable hnone
  · exact .pure (.of_blameless (by omega) hlimit)
  · exact (Task.Returns.tellAt _ _ _).bind fun _ _ => .pure (.of_trouble hfour (by simp [Method.troubles]))
  · exact (Task.Returns.tellAt _ _ _).bind fun _ _ => .pure (.of_trouble hfour (by simp [Method.troubles]))
  · exact (Task.Returns.tellAt _ _ _).bind fun _ _ => .pure (.of_blameless (by omega) hdone)
  · exact (Task.Returns.tellAt _ _ _).bind fun _ _ => .pure (.of_blameless hfour hdone)

end

/-! ### Solves -/

namespace Model

variable {m : Model α}

/-- Bounds that are in order are handed to the solver. -/
theorem attempt_heeds {host : Host α σ} (hhost : host.Responds) (hcolumns : m.problem.columns ≠ [])
    (hrows : m.problem.rows ≠ []) (hbounds : m.problem.badBounds = none) :
    (m.attempt host).Heeds host m.question? fun a r => m.method.Heeds a.status r.2 := by
  unfold attempt question?
  cases m.method with
  | simplex =>
    dsimp only [simplex]
    rw [hbounds]
    exact solveBasic_heeds hhost hcolumns _ _ _ (by decide)
  | exact =>
    dsimp only
    rw [exact_eq, if_neg (by simp [hcolumns, hrows]), hbounds]
    exact solveBasic_heeds hhost hcolumns _ _ _ (by decide)
  | interior => exact interior_heeds hhost hcolumns hrows _

/-- The status after an answer: the model is called invalid by an exact solve in trouble only. -/
structure Blames (method : Method) (status : Int) (t : TerminationStatus) : Prop where
  invalid : t = .invalidModel ↔ method = .exact ∧ status = 4
  trouble : status = 4 → method ≠ .exact → t = .numericalError ∨ t = .slowProgress

theorem solutionVerdict_ne_invalidModel {v : Verdict} (h : m.solutionVerdict = .ok v) :
    v.1 ≠ .invalidModel := by
  unfold solutionVerdict at h
  cases hstatus : m.solution.status <;> rw [hstatus] at h <;> cases h <;> decide

/-- What is made of a code that fits the answer. -/
theorem blames_of_heeds {status : Int} {t : TerminationStatus} (hcalled : m.last.called = true)
    (hsearch : m.last.bySearch = false) (h : m.method.Heeds status m.last.code)
    (ht : m.terminationStatus = .ok t) : Blames m.method status t := by
  have hverdict : m.last.code ≠ .done → t = (m.method.algorithm.verdict m.last.code).1 := by
    intro hcode
    rw [terminationStatus, verdict, hcalled, if_neg (by simp), if_pos hcode,
      algorithm_of_continuous hsearch] at ht
    exact (Except.ok.inj ht).symm
  by_cases hstatus : status = 4
  · have htrouble := h.trouble hstatus
    cases hmethod : m.method <;> rw [hmethod] at htrouble hverdict <;>
      simp only [Method.troubles, List.mem_cons, List.not_mem_nil, or_false] at htrouble
    case simplex =>
      rw [htrouble] at hverdict
      rw [hverdict (by decide)]
      exact ⟨iff_of_false (by decide) (by simp), fun _ _ => .inl rfl⟩
    case exact =>
      rw [htrouble] at hverdict
      rw [hverdict (by decide)]
      exact ⟨⟨fun _ => ⟨rfl, hstatus⟩, fun _ => rfl⟩, fun _ hne => absurd rfl hne⟩
    case interior =>
      obtain hcode | hcode := htrouble <;> rw [hcode] at hverdict <;> rw [hverdict (by decide)]
      · exact ⟨iff_of_false (by decide) (by simp), fun _ _ => .inl rfl⟩
      · exact ⟨iff_of_false (by decide) (by simp), fun _ _ => .inr rfl⟩
  · refine ⟨⟨fun hinvalid => absurd hinvalid ?_, fun hexact => absurd hexact.2 hstatus⟩,
      fun heq => absurd heq hstatus⟩
    by_cases hcode : m.last.code = .done
    · rw [terminationStatus, verdict, hcalled, if_neg (by simp), if_neg (by simp [hcode]),
        except_map_eq_ok] at ht
      obtain ⟨v, hv, rfl⟩ := ht
      exact solutionVerdict_ne_invalidModel hv
    · rw [hverdict hcode]
      exact h.blameless hstatus

end Model

/-- A failure of the solver and the model. Let a model without integer variables have rows and
columns and no crossed bounds, and let the solver answer all that it is asked, in any way. Then the
solve returns, unless its time limit is too large to ask with, and the first question is that of
the method. When that meets trouble with the numbers, the simplex and interior methods end with a
numerical error or slow progress. In no case do they call the model invalid; the exact method does
so exactly when it meets such trouble. -/
theorem optimize_blames {host : Host α σ} (hhost : host.Responds)
    (callback : Option (Callback α σ)) (fuel : Nat) {w : Workbench α σ}
    (hmixed : ¬w.model.IsMixed) (hcolumns : w.model.problem.columns ≠ [])
    (hrows : w.model.problem.rows ≠ []) (hbounds : w.model.problem.badBounds = none) :
    Runs (Solving.optimize host callback fuel) w
      (fun _ u => ∃ r a world t, w.model.question? = some r ∧
        host.solve r w.session.world = (.ok a, world) ∧ u.model.terminationStatus = .ok t ∧
        (t = .invalidModel ↔ w.model.method = .exact ∧ a.status = 4) ∧
        (a.status = 4 → w.model.method ≠ .exact → t = .numericalError ∨ t = .slowProgress))
      fun _ => w.model.question? = none := by
  let S : ReturnCode → Solution α → Prop := fun code b => code.Agrees b.status ∧
    ∃ r a world, w.model.question? = some r ∧ host.solve r w.session.world = (.ok a, world) ∧
      w.model.method.Heeds a.status code
  have hrun : ∀ s, s.world = w.session.world → Runs (w.model.attempt host) s
      (fun r _ => ∃ b, r.1 = w.model.place b ∧ S r.2 b) fun _ => w.model.question? = none := by
    intro s hs
    have hstores : Task.Keeps (fun _ => True) (w.model.attempt host) fun r =>
        ∃ b, r.1 = w.model.place b ∧ b.Stored w.model.problem fun _ => True :=
      w.model.attempt_stores fun _ _ _ _ _ _ => trivial
    have hheeds := w.model.attempt_heeds hhost hcolumns hrows hbounds s
    rw [hs] at hheeds
    refine ((hheeds.and ((hstores.runs s).and (w.model.attempt_agrees host s))).imp ?_).weaken
      fun _ hfails => hfails.1
    rintro r _ ⟨hanswer, ⟨b, hb, -⟩, hagrees⟩
    exact ⟨b, hb, hagrees b hb, hanswer⟩
  refine (Solving.optimize_settles_from hmixed hrun (R := fun _ => True) (C := fun _ => True)
    (fun _ _ _ _ s => (unboundedRay_responds hhost s).weaken fun _ => False.elim)
    fun _ _ _ _ s => (infeasibilityRay_responds hhost s).weaken fun _ => False.elim).imp ?_
  rintro _ u ⟨code, b, ray, certificate, seconds, ⟨hagrees, r, a, world, hr, ha, hheeds⟩, -, -, hu⟩
  have hsolution : (w.model.settled code b ray certificate seconds).solution = b :=
    Model.solution_place (m := w.model) b rfl
  obtain ⟨t, ht⟩ := Model.exists_terminationStatus
    (m := w.model.settled code b ray certificate seconds) (by rw [hsolution]; exact hagrees.known)
  have hblames := Model.blames_of_heeds rfl rfl hheeds ht
  exact ⟨r, a, world, t, hr, ha, hu ▸ ht, hblames.invalid, hblames.trouble⟩

/-! ### Trouble with the numbers of `floored` -/

/-- The solver gives up. -/
def troubled : Answer Extended where
  status := 4
  point := []
  value := 0
  ubMarginals := []
  eqMarginals := []
  lowerMarginals := []
  upperMarginals := []

theorem troubled_responds : (Host.steady (σ := σ) troubled).Responds := fun _ w => ⟨_, w, rfl⟩

theorem floored_unmixed : ¬floored.IsMixed := by
  rintro (hbinary | hinteger)
  · exact absurd hbinary (by decide)
  · exact absurd hinteger (by decide)

theorem optimize_blames_floored : (Host.steady (σ := Unit) troubled).Responds ∧
    ¬floored.IsMixed ∧ floored.problem.columns ≠ [] ∧ floored.problem.rows ≠ [] ∧
    floored.problem.badBounds = none ∧
    Runs (Solving.optimize (Host.steady (σ := Unit) troubled) none 0) ⟨⟨(), #[]⟩, floored⟩
      (fun _ u => ∃ r a world t, floored.question? = some r ∧
        (Host.steady troubled).solve r () = (.ok a, world) ∧ u.model.terminationStatus = .ok t ∧
        (t = .invalidModel ↔ floored.method = .exact ∧ a.status = 4) ∧
        (a.status = 4 → floored.method ≠ .exact → t = .numericalError ∨ t = .slowProgress))
      fun _ => floored.question? = none :=
  ⟨troubled_responds, floored_unmixed, List.cons_ne_nil _ _, List.cons_ne_nil _ _,
    floored_continuous.uncrossed,
    optimize_blames troubled_responds none 0 floored_unmixed (List.cons_ne_nil _ _)
      (List.cons_ne_nil _ _) floored_continuous.uncrossed⟩

/-- An exact solve blames a model that is in order. -/
theorem not_forall_blameless : ¬∀ (host : Host Extended Unit) (m : Model Extended)
    (callback : Option (Callback Extended Unit)) (fuel : Nat) (session : Session Extended Unit)
    (w : Workbench Extended Unit),
    (∀ r s, ∃ a, (host.solve r s).1 = .ok a ∧ a.status ∈ ([0, 1, 2, 3, 4] : List Int)) →
      m.Reachable → ¬m.IsMixed → m.problem.columns ≠ [] → m.problem.rows ≠ [] →
      m.problem.badBounds = none → Solving.optimize host callback fuel ⟨session, m⟩ = .ok () w →
      w.model.terminationStatus ≠ .ok .invalidModel := by
  intro hall
  let m : Model Extended := { floored with method := .exact }
  obtain ⟨_, w, hrun, -⟩ := exists_of_passes
    (x := Solving.optimize (Host.steady (σ := Unit) troubled) none 0) (s := ⟨⟨(), #[]⟩, m⟩)
    (fun _ => true) (by decide +kernel)
  have hstatus : (after (Solving.optimize (Host.steady (σ := Unit) troubled) none 0)
      ⟨⟨(), #[]⟩, m⟩).model.terminationStatus.toOption = some .invalidModel := by
    decide +kernel
  rw [after_ok hrun] at hstatus
  have hm : m.Reachable := (fenced_reachable rfl rfl).settings floored.presolve .exact
    floored.stores floored.given floored.silent
  exact hall (.steady troubled) m none 0 ⟨(), #[]⟩ w (fun _ _ => ⟨_, rfl, by decide⟩) hm
    floored_unmixed (List.cons_ne_nil _ _) (List.cons_ne_nil _ _) floored_continuous.uncrossed hrun
    (ok_of_toOption hstatus)

end MixedInteger
