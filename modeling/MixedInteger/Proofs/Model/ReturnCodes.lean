import MixedInteger.Proofs.Continuous.Variants
import MixedInteger.Proofs.Model.RowDuals

/-! Return codes and what is made of them. An algorithm ends in one of a few ways, each with return
codes of its own, and each algorithm has a table that explains its codes. The exact method runs as
the simplex method does but has another table: of the codes that it can end with, those for a limit
of the objective are missing there. All others are explained, and after code zero the stored
solution tells the outcome. -/

namespace MixedInteger

variable {α σ : Type} [Scalar α]

/-! ### How the methods end -/

/-- The ways in which a run of the simplex method ends: it comes to its end with a solution that
says something, it is refused or stopped, the presolver ends it, or the dual method is past the
limit. -/
inductive Parameter.Simplex.Ends (params : Parameter.Simplex α) (d : Direction) :
    ReturnCode → SolutionStatus → Prop
  | finished {s : SolutionStatus} : s ≠ .undefined → Ends params d .done s
  | stopped {code : ReturnCode} {s : SolutionStatus} :
    code ∈ [.badBounds, .failure, .iterationLimit, .timeLimit] → Ends params d code s
  | presolved {code : ReturnCode} {s : SolutionStatus} :
    params.presolve ≠ 0 → code ∈ [.noPrimal, .noDual] → Ends params d code s
  | pastLimit {s : SolutionStatus} : params.isDual = true → Ends params d d.limitCode s

/-- The algorithm ends with `E` for its code and for the status of the solution that it stores. -/
def Task.EndsWith (x : Task α σ (Problem α × ReturnCode)) (place : Problem α → Solution α)
    (E : ReturnCode → SolutionStatus → Prop) : Prop :=
  Task.Keeps (fun _ => True) x fun r => E r.2 (place r.1).status

namespace Task.EndsWith

variable {β : Type} {place : Problem α → Solution α} {E : ReturnCode → SolutionStatus → Prop}

theorem after {x : Task α σ β} {f : β → Task α σ (Problem α × ReturnCode)}
    (h : ∀ b, (f b).EndsWith place E) : (x >>= f).EndsWith place E :=
  (Task.Keeps.any x).bind fun b _ => h b

theorem pure {p : Problem α} {code : ReturnCode} (h : E code (place p).status) :
    (Pure.pure (p, code) : Task α σ (Problem α × ReturnCode)).EndsWith place E := Task.Keeps.pure h

end Task.EndsWith

section
variable (host : Host α σ) (p : Problem α) (params : Parameter.Simplex α)

open Parameter.Simplex

theorem objectiveLimit_cases (x : α) : objectiveLimit params p x = .done ∨
    params.isDual = true ∧ objectiveLimit params p x = p.direction.limitCode := by
  unfold objectiveLimit
  cases hdual : params.isDual <;> cases hdirection : p.direction <;>
    simp only [Direction.limitCode, Bool.not_true, Bool.not_false, if_true, reduceCtorEq,
      Bool.false_eq_true, if_false, true_or, true_and]
  all_goals split_ifs <;> simp

theorem noOptimum_ends (name : String) (unbounded : Bool) :
    (noOptimum (σ := σ) params name p unbounded).EndsWith (·.basic)
      (params.Ends p.direction) := by
  unfold noOptimum
  split_ifs with hpresolve hunbounded hdual
  · exact .after fun _ => .pure (.presolved hpresolve (by simp))
  · exact .after fun _ => .pure (.presolved hpresolve (by simp))
  · simp only [Bool.and_eq_true, decide_eq_true_eq] at hdual
    have hcode : p.direction.limitCode = .objectiveUpper := by
      cases hdirection : p.direction
      · rfl
      · exact absurd hdirection hdual.1.2
    exact .pure (hcode ▸ .pastLimit hdual.1.1.2)
  · exact .after fun _ => .pure (.finished fun h => nomatch h)
  · exact .after fun _ => .pure (.finished fun h => nomatch h)

theorem solveBasic_ends (options : SolverOptions α) (name : String) :
    (solveBasic host params options name p).EndsWith (·.basic) (params.Ends p.direction) := by
  have hempty : p.emptySolution.status ≠ .undefined := by
    unfold Problem.emptySolution
    dsimp only
    split_ifs <;> simp
  unfold solveBasic
  refine .after fun start => .after fun _ => ?_
  split_ifs
  · exact .pure (.finished hempty)
  refine .after fun options => .after fun a => ?_
  split_ifs
  · exact .after fun _ => .pure (.stopped (by simp))
  · exact .after fun _ => .pure (.stopped (by simp))
  · exact .after fun _ => .pure (.stopped (by simp))
  · exact .after fun b => noOptimum_ends p params name b
  · exact noOptimum_ends p params name true
  · refine .after fun now => .after fun _ => .pure ?_
    obtain hcode | ⟨hdual, hcode⟩ := objectiveLimit_cases p params
      ((p.optimum p.linearProgram a).withBasis p).objective <;> rw [hcode]
    · exact .finished fun h => nomatch h
    · exact .pastLimit hdual

theorem refuse_ends (name : String) (why : Obstacle α) :
    (refuse (σ := σ) params name p why).EndsWith (·.basic) (params.Ends p.direction) :=
  .after fun _ => .pure (.stopped (by simp))

theorem simplex_ends :
    (simplex host params p).EndsWith (·.basic) (params.Ends p.direction) := by
  unfold simplex
  cases p.badBounds with
  | some why => exact refuse_ends p params "simplex" why
  | none => exact solveBasic_ends host p params _ "simplex"

/-- The exact method does not presolve. -/
theorem exact_ends : (exact host params p).EndsWith (·.basic)
    ({ params with presolve := 0 }.Ends p.direction) := by
  rw [exact_eq]
  split_ifs
  · exact .after fun _ => .pure (.stopped (by simp))
  · cases p.badBounds with
    | some why => exact .after fun _ => .pure (.stopped (by simp))
    | none => exact solveBasic_ends host p _ _ "exact"

theorem interior_tells (params : Parameter.Interior) :
    (interior host params p).EndsWith (·.interior) Algorithm.interior.Tells := by
  unfold interior
  dsimp only
  split_ifs
  · exact .after fun _ => .pure ⟨fun _ => rfl, by simp⟩
  refine .after fun _ => .after fun a => ?_
  split_ifs
  · exact .pure ⟨fun _ => rfl, by simp⟩
  · exact .after fun _ => .pure ⟨fun _ => rfl, by simp⟩
  · exact .after fun _ => .pure ⟨fun _ => rfl, by simp⟩
  · exact .after fun _ => .pure ⟨fun h => absurd rfl h, fun _ h => nomatch h⟩
  · exact .after fun _ => .pure ⟨fun h => absurd rfl h, fun _ h => nomatch h⟩

end

namespace Parameter.Simplex.Ends

variable {params : Parameter.Simplex α} {d : Direction} {code : ReturnCode} {s : SolutionStatus}

/-- The table of the simplex method has them all. -/
theorem simplex_tells (h : params.Ends d code s) : Algorithm.simplex.Tells code s := by
  cases h with
  | finished hs => exact ⟨fun h => absurd rfl h, fun _ => hs⟩
  | stopped hcode =>
    simp only [List.mem_cons, List.not_mem_nil, or_false] at hcode
    obtain rfl | rfl | rfl | rfl := hcode <;> exact ⟨fun _ => rfl, by simp⟩
  | presolved _ hcode =>
    simp only [List.mem_cons, List.not_mem_nil, or_false] at hcode
    obtain rfl | rfl := hcode <;> exact ⟨fun _ => rfl, by simp⟩
  | pastLimit => cases d <;> exact ⟨fun _ => rfl, by simp [Direction.limitCode]⟩

/-- The table of the exact method has all but the limit of the objective. -/
theorem exact_tells (h : { params with presolve := 0 }.Ends d code s) :
    Algorithm.exact.Tells code s ∨ params.isDual = true ∧ code = d.limitCode := by
  cases h with
  | finished hs => exact .inl ⟨fun h => absurd rfl h, fun _ => hs⟩
  | stopped hcode =>
    simp only [List.mem_cons, List.not_mem_nil, or_false] at hcode
    obtain rfl | rfl | rfl | rfl := hcode <;> exact .inl ⟨fun _ => rfl, by simp⟩
  | presolved hpresolve => exact absurd rfl hpresolve
  | pastLimit hdual => exact .inr ⟨hdual, rfl⟩

end Parameter.Simplex.Ends

/-! ### What tables say -/

/-- The verdict is not the one on a code without a meaning. -/
def Verdict.Explains (v : Verdict) : Prop :=
  v.1 ≠ .otherError ∧ ¬"Unexpected return code".toList <+: v.2.toList

namespace Verdict

variable {t : TerminationStatus} {text : List Char}

theorem not_prefix (h : ¬['U', 'n', 'e', 'x'] <+: text) :
    ¬"Unexpected return code".toList <+: text := by
  have hlonger : ['U', 'n', 'e', 'x'] <+: "Unexpected return code".toList := by decide
  exact fun hprefix => h (hlonger.trans hprefix)

theorem explains_ofList (ht : t ≠ .otherError) (h : ¬['U', 'n', 'e', 'x'] <+: text) :
    Verdict.Explains (t, String.ofList text) :=
  ⟨ht, not_prefix (by rwa [String.toList_ofList])⟩

theorem explains_append (ht : t ≠ .otherError) {rest : String}
    (h : ¬['U', 'n', 'e', 'x'] <+: text) (h' : ¬text <+: ['U', 'n', 'e', 'x']) :
    Verdict.Explains (t, String.ofList text ++ rest) := by
  refine ⟨ht, not_prefix ?_⟩
  rw [String.toList_append, String.toList_ofList]
  intro hprefix
  obtain hlong | hshort := List.prefix_or_prefix_of_prefix hprefix (List.prefix_append text _)
  · exact h hlong
  · exact h' hshort

end Verdict

theorem Algorithm.explains_of_verdict {a : Algorithm} {code : ReturnCode} {v : Verdict}
    (h : a.verdict? code = some v) : v.Explains := by
  cases a <;> cases code <;> cases h
  all_goals first
    | (with_reducible refine Verdict.explains_append ?_ ?_ ?_) <;> decide
    | exact Verdict.explains_ofList (by decide) (by decide)

theorem SolutionStatus.explains_of_verdict {s : SolutionStatus} {v : Verdict}
    (h : s.verdict? = some v) (hs : s ≠ .undefined) : v.Explains := by
  cases s <;> cases h
  all_goals first
    | exact Verdict.explains_ofList (by decide) (by decide)
    | exact absurd rfl hs

/-! ### Solves -/

/-- The algorithm of a method. -/
def Method.algorithm : Method → Algorithm
  | .simplex => .simplex
  | .exact => .exact
  | .interior => .interior

namespace Model

section
variable (m : Model α)

/-- An exact solve that the dual method has ended, past the limit of the objective. -/
structure PastLimit : Prop where
  algorithm : m.algorithm = .exact
  dual : m.stores.simplex.isDual = true
  code : m.last.code = m.problem.direction.limitCode

/-- The return code of a solve is explained by the table of its algorithm, and after code zero the
solution that is read says something. So the statuses are those of an outcome. -/
structure Understood : Prop where
  code : m.last.code ≠ .done → (m.algorithm.verdict? m.last.code).isSome = true
  solution : m.last.code = .done → m.solution.status ≠ .undefined
  termination : ∃ t, m.terminationStatus = .ok t ∧ t ≠ .otherError
  raw : ∃ text, m.rawStatus = .ok text ∧ ¬"Unexpected return code".toList <+: text.toList

end

variable {m : Model α}

theorem algorithm_of_continuous (h : m.last.bySearch = false) :
    m.algorithm = m.method.algorithm := by
  unfold algorithm
  rw [h]
  cases m.method <;> rfl

/-- What is told of a solve by its code and its solution is understood. -/
theorem understood_of_tells (h : m.algorithm.Tells m.last.code m.solution.status)
    (hknown : m.solution.status.verdict?.isSome = true) : m.Understood := by
  have hverdict : ∃ v : Verdict, m.verdict = .ok v ∧ v.Explains := by
    unfold verdict solutionVerdict
    split_ifs with hcalled hcode
    · exact ⟨_, rfl, Verdict.explains_ofList (by decide) (by decide)⟩
    · obtain ⟨v, hv⟩ := Option.isSome_iff_exists.1 (h.coded hcode)
      refine ⟨v, ?_, Algorithm.explains_of_verdict hv⟩
      rw [Algorithm.verdict, hv]
      rfl
    · obtain ⟨v, hv⟩ := Option.isSome_iff_exists.1 hknown
      rw [hv]
      exact ⟨v, rfl, SolutionStatus.explains_of_verdict hv (h.defined (not_not.1 hcode))⟩
  obtain ⟨v, hv, hexplains⟩ := hverdict
  refine ⟨h.coded, h.defined, ⟨v.1, ?_, hexplains.1⟩, ⟨v.2, ?_, hexplains.2⟩⟩
  · rw [terminationStatus, hv]
    rfl
  · rw [rawStatus, hv]
    rfl

namespace PastLimit

theorem verdict? (h : m.PastLimit) : m.algorithm.verdict? m.last.code = none := by
  rw [h.algorithm, h.code]
  cases m.problem.direction <;> rfl

theorem code_ne (h : m.PastLimit) : m.last.code ≠ .done := by
  rw [h.code]
  cases m.problem.direction <;> simp [Direction.limitCode]

/-- There are no words for an exact solve past the limit. -/
theorem verdict (h : m.PastLimit) (hcalled : m.last.called = true) :
    m.verdict = .ok (.otherError, s!"Unexpected return code {m.last.code.code}.") := by
  rw [Model.verdict, hcalled, if_neg (by simp), if_pos h.code_ne, Algorithm.verdict, h.verdict?]
  rfl

theorem not_understood (h : m.PastLimit) : ¬m.Understood := by
  intro hunderstood
  have hcoded := hunderstood.code h.code_ne
  rw [h.verdict?] at hcoded
  cases hcoded

end PastLimit

/-- Each method ends with what its algorithm explains, or the exact one past the limit. -/
theorem attempt_tells (host : Host α σ) (m : Model α) :
    Task.Keeps (fun _ => True) (m.attempt host) fun r => ∀ b, r.1 = m.place b →
      m.method.algorithm.Tells r.2 b.status ∨ m.method = .exact ∧
        m.stores.simplex.isDual = true ∧ r.2 = m.problem.direction.limitCode := by
  unfold attempt place
  cases m.method with
  | simplex =>
    refine (simplex_ends host m.problem _).imp ?_
    rintro ⟨_, code⟩ h b rfl
    exact .inl h.simplex_tells
  | exact =>
    refine (exact_ends host m.problem _).imp ?_
    rintro ⟨_, code⟩ h b rfl
    exact h.exact_tells.imp id fun hlimit => ⟨rfl, hlimit⟩
  | interior =>
    refine (interior_tells host m.problem _).imp ?_
    rintro ⟨_, code⟩ h b rfl
    exact .inl h

end Model

namespace Solving

variable {w : Workbench α σ} {host : Host α σ} {callback : Option (Callback α σ)} {fuel : Nat}

/-- The last search has left a code and a solution for it. -/
structure Searched (m : Model α) : Prop where
  bySearch : m.last.bySearch = true
  concludes : Search.Concludes m.last.code m.problem.integer.status

theorem search_tells : Runs (search host callback fuel) w (fun _ w' => Searched w'.model)
    fun _ => True := by
  have hfinds : Finds w.model host callback fuel
      fun code s _ => Search.Concludes code s.status := by
    intro b k session
    refine ((intopt_answers _ _ fuel _ _ trivial).imp ?_).weaken fun _ _ => trivial
    exact fun _ _ hends => hends.1
  refine ((search_runs hfinds).imp ?_).weaken fun _ _ => trivial
  rintro _ w' ⟨b, k, code, s, v, hends, hw'⟩
  rw [hw']
  exact ⟨rfl, hends⟩

theorem solveInteger_tells : Runs (solveInteger host callback fuel) w
    (fun _ w' => Searched w'.model) fun _ => True :=
  solveInteger_keeps_of (fun _ _ h => ⟨h.bySearch, h.concludes⟩)
    (fun _ _ h => ⟨h.bySearch, h.concludes⟩) fun _ _ => search_tells

/-- The end of a solve is told, which changes nothing. -/
theorem finish_runs {P : Model α → Prop} (h : ∀ seconds, P (w.model.timed seconds))
    (ht : ∀ seconds, ∃ t, (w.model.timed seconds).terminationStatus = .ok t) (start : α) :
    Runs (do
      let seconds := (← ofTask (Task.now host)) - start
      modifyLast fun r => { r with seconds := seconds }
      let status ← ofExcept (← Solving.model).terminationStatus
      ofTask (Task.tell (.finished status (← Solving.model).last.code seconds)) :
        Solving α σ Unit) w (fun _ w' => P w'.model) fun _ => True := by
  refine now_bind fun now => modifyLast_bind (model_bind ?_)
  obtain ⟨t, ht⟩ := ht (now - start)
  refine ofExcept_bind ht (model_bind ?_)
  exact h (now - start)

theorem optimize_tells_mixed (hmixed : w.model.IsMixed) : Runs (optimize host callback fuel) w
    (fun _ w' => w'.model.algorithm = .search ∧ w'.model.Understood) fun _ => True := by
  unfold optimize
  refine now_bind fun start => modifyLast_bind (model_bind ?_)
  rw [if_pos (by exact hmixed)]
  refine tell_bind ?_
  rintro ⟨session, _⟩ rfl
  refine solveInteger_tells.bind fun _ w₁ h => ?_
  refine Runs.bind (P := fun _ w₂ => w₂ = w₁)
    (.of_ok (certify_run h.bySearch h.concludes.agrees.known) rfl) ?_
  rintro _ w₂ rfl
  have hfinished : ∀ seconds, (w₂.model.timed seconds).algorithm = .search ∧
      (w₂.model.timed seconds).Understood := by
    intro seconds
    have hsolution : (w₂.model.timed seconds).solution = w₂.model.problem.integer :=
      Model.solution_of_search h.bySearch
    have halgorithm : (w₂.model.timed seconds).algorithm = .search :=
      Model.algorithm_of_search h.bySearch
    refine ⟨halgorithm, Model.understood_of_tells ?_ ?_⟩
    · rw [halgorithm, hsolution]
      exact h.concludes.tells
    · rw [hsolution]
      exact h.concludes.agrees.known
  refine finish_runs (P := fun m => m.algorithm = .search ∧ m.Understood) hfinished
    (fun seconds => ?_) start
  obtain ⟨t, ht, -⟩ := (hfinished seconds).2.termination
  exact ⟨t, ht⟩

/-- The codes of a solve without a search, with the solutions for them. -/
theorem optimize_tells_continuous (hmixed : ¬w.model.IsMixed) :
    Runs (optimize host callback fuel) w (fun _ w' => w'.model.Understood ∨
      w'.model.PastLimit ∧ w'.model.last.called = true) fun _ => True := by
  let S : ReturnCode → Solution α → Prop := fun code b => code.Agrees b.status ∧
    (w.model.method.algorithm.Tells code b.status ∨ w.model.method = .exact ∧
      w.model.stores.simplex.isDual = true ∧ code = w.model.problem.direction.limitCode)
  have hrun : ∀ s, Runs (w.model.attempt host) s (fun r _ => ∃ b, r.1 = w.model.place b ∧ S r.2 b)
      fun _ => True := by
    intro s
    have hstores : Task.Keeps (fun _ => True) (w.model.attempt host) fun r =>
        ∃ b, r.1 = w.model.place b ∧ b.Stored w.model.problem fun _ => True :=
      w.model.attempt_stores fun _ _ _ _ _ _ => trivial
    refine (((hstores.runs s).and ((w.model.attempt_agrees host s).and
      ((Model.attempt_tells host w.model).runs s))).imp ?_).weaken fun _ _ => trivial
    rintro r _ ⟨⟨b, hb, -⟩, hagrees, htells⟩
    exact ⟨b, hb, hagrees b hb, htells b hb⟩
  refine (optimize_settles hmixed hrun (R := fun _ => True) (C := fun _ => True)
    (fun _ _ _ _ _ => .anything) fun _ _ _ _ _ => .anything).imp ?_
  rintro _ w' ⟨code, b, ray, certificate, seconds, ⟨hagrees, htells⟩, -, -, hw'⟩
  rw [hw']
  have hsolution : (w.model.settled code b ray certificate seconds).solution = b :=
    Model.solution_place (m := w.model) b rfl
  have halgorithm : (w.model.settled code b ray certificate seconds).algorithm =
      w.model.method.algorithm := Model.algorithm_of_continuous rfl
  obtain htells | ⟨hmethod, hdual, hcode⟩ := htells
  · refine .inl (Model.understood_of_tells ?_ ?_)
    · rw [halgorithm, hsolution]
      exact htells
    · rw [hsolution]
      exact hagrees.known
  · have hdirection : (w.model.place b).direction = w.model.problem.direction := by
      unfold Model.place
      cases w.model.method <;> rfl
    refine .inr ⟨⟨halgorithm.trans (by rw [hmethod]; rfl), hdual, ?_⟩, rfl⟩
    exact hcode.trans (congrArg _ hdirection.symm)

end Solving

/-- Whatever the model and its settings, whatever the solver answers and whatever a callback does:
the return code of a solve that returns is explained by the table of its algorithm, and after code
zero the stored solution says something, so that the statuses are those of an outcome. The one
exception is an exact solve that the dual method has ended at a limit of the objective: its code
has no words. -/
theorem optimize_understood (host : Host α σ) (callback : Option (Callback α σ)) (fuel : Nat)
    (w : Workbench α σ) : Runs (Solving.optimize host callback fuel) w
      (fun _ u => (¬u.model.PastLimit → u.model.Understood) ∧
        (u.model.PastLimit → u.model.verdict =
          .ok (.otherError, s!"Unexpected return code {u.model.last.code.code}.")))
      fun _ => True := by
  by_cases hmixed : w.model.IsMixed
  · refine (Solving.optimize_tells_mixed hmixed).imp ?_
    rintro _ w' ⟨hsearch, hunderstood⟩
    refine ⟨fun _ => hunderstood, fun hlimit => ?_⟩
    cases hsearch.symm.trans hlimit.algorithm
  · refine (Solving.optimize_tells_continuous hmixed).imp ?_
    rintro _ w' (hunderstood | ⟨hlimit, hcalled⟩)
    · exact ⟨fun _ => hunderstood, fun hlimit => absurd hunderstood hlimit.not_understood⟩
    · exact ⟨fun hn => absurd hlimit hn, fun _ => hlimit.verdict hcalled⟩

/-! ### An exact solve past the limit -/

/-- `floored` for the exact method, as a dual one that stops at zero. -/
def overshot : Model Extended := { floored with
    method := .exact
    stores := { floored.stores with
      simplex := { floored.stores.simplex with method := 3, objectiveUpper := 0 } } }

/-- The codes of reachable models are not all understood, though the solver answers in its five
ways only. -/
theorem not_forall_understood : ¬∀ (host : Host Extended Unit) (m : Model Extended)
    (callback : Option (Callback Extended Unit)) (fuel : Nat) (session : Session Extended Unit)
    (w : Workbench Extended Unit),
    (∀ r s a, (host.solve r s).1 = .ok a → a.status ∈ ([0, 1, 2, 3, 4] : List Int)) →
      m.Reachable → Solving.optimize host callback fuel ⟨session, m⟩ = .ok () w →
      w.model.Understood := by
  intro hall
  obtain ⟨_, w, hrun, -⟩ := exists_of_passes
    (x := Solving.optimize (Host.steady (σ := Unit) flooredOptimum) none 20)
    (s := ⟨⟨(), #[]⟩, overshot⟩) (fun _ => true) (by decide +kernel)
  have hstatus : (after (Solving.optimize (Host.steady (σ := Unit) flooredOptimum) none 20)
      ⟨⟨(), #[]⟩, overshot⟩).model.terminationStatus.toOption = some .otherError := by
    decide +kernel
  rw [after_ok hrun] at hstatus
  have hm : overshot.Reachable :=
    (fenced_reachable rfl rfl).settings floored.presolve .exact overshot.stores floored.given
      floored.silent
  have hunderstood := hall (.steady flooredOptimum) overshot none 20 ⟨(), #[]⟩ w
    (by rintro _ _ _ ⟨⟩; exact List.mem_cons_self) hm hrun
  obtain ⟨t, ht, hne⟩ := hunderstood.termination
  exact hne (Except.ok.inj (ht.symm.trans (ok_of_toOption hstatus)))

end MixedInteger
