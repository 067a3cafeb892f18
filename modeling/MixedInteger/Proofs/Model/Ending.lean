import MixedInteger.Proofs.Continuous.Stored
import MixedInteger.Proofs.Solver.Session

/-! How algorithms end. Every way out of an algorithm leaves a return code and a stored solution
that fit: what counts as an optimum comes with a point, and what counts as infeasible with none.
This holds of the simplex and interior methods, and of a search however it ends. The search of a
model may find a basis first and set the presolving parameter. When it comes to its end it has
stored a solution and told of it; when it is broken off, the solution of an earlier search is still
there, and the record still says how that one came about. -/

namespace MixedInteger

section

variable {α σ β γ : Type} [Scalar α]

/-! ### Codes and stored solutions -/

/-- A return code and the status of the solution stored with it do not contradict each other:
what counts as an optimum comes with a point, and what counts as infeasible with none. -/
structure ReturnCode.Agrees (code : ReturnCode) (s : SolutionStatus) : Prop where
  known : s.verdict?.isSome = true
  gap : code = .gapReached → s = .feasible
  noPrimal : code = .noPrimal → s = .undefined ∨ s = .noFeasible

namespace Algorithm

/-- What is left behind tells the outcome: a code that is not zero is one of those that the
algorithm explains, and beside code zero the solution has a status that says something. -/
structure Tells (a : Algorithm) (code : ReturnCode) (s : SolutionStatus) : Prop where
  coded : code ≠ .done → (a.verdict? code).isSome = true
  defined : code = .done → s ≠ .undefined

variable {a : Algorithm} {code : ReturnCode}

theorem eq_gapReached_of_verdict (h : (a.verdict code).1 = .optimal) : code = .gapReached := by
  cases a <;> cases code <;> first | rfl | cases h

theorem eq_noPrimal_of_verdict (h : (a.verdict code).1 = .infeasible) : code = .noPrimal := by
  cases a <;> cases code <;> first | rfl | cases h

end Algorithm

namespace SolutionStatus

variable {s : SolutionStatus} {v : Verdict}

theorem eq_optimal_of_verdict (h : s.verdict? = some v) (hv : v.1 = .optimal) : s = .optimal := by
  cases s <;> cases h <;> first | rfl | cases hv

theorem eq_noFeasible_of_verdict (h : s.verdict? = some v) (hv : v.1 = .infeasible) :
    s = .noFeasible := by
  cases s <;> cases h <;> first | rfl | cases hv

end SolutionStatus

/-- The algorithm answers with a code and with a solution, at a place of its own, that fit. -/
def Task.Fits (x : Task α σ (Problem α × ReturnCode)) (place : Problem α → Solution α) : Prop :=
  Task.Keeps (fun _ => True) x fun r => r.2.Agrees (place r.1).status

namespace Task.Fits

variable {place : Problem α → Solution α}

theorem after {x : Task α σ β} {f : β → Task α σ (Problem α × ReturnCode)}
    (h : ∀ b, (f b).Fits place) : (x >>= f).Fits place :=
  (Task.Keeps.any x).bind fun b _ => h b

theorem pure {p : Problem α} {code : ReturnCode} (h : code.Agrees (place p).status) :
    (Pure.pure (p, code) : Task α σ (Problem α × ReturnCode)).Fits place := Task.Keeps.pure h

end Task.Fits

/-! ### Continuous algorithms -/

section
variable (host : Host α σ) (p : Problem α)

theorem noOptimum_fits (params : Parameter.Simplex α) (name : String) (unbounded : Bool) :
    (noOptimum (σ := σ) params name p unbounded).Fits (·.basic) := by
  unfold noOptimum
  split_ifs
  · exact .after fun _ => .pure ⟨rfl, by simp, by simp⟩
  · exact .after fun _ => .pure ⟨rfl, by simp, fun _ => .inl rfl⟩
  · exact .pure ⟨rfl, by simp, by simp⟩
  · exact .after fun _ => .pure ⟨rfl, by simp, by simp⟩
  · exact .after fun _ => .pure ⟨rfl, by simp, by simp⟩

theorem solveBasic_fits (params : Parameter.Simplex α) (options : SolverOptions α)
    (name : String) : (solveBasic host params options name p).Fits (·.basic) := by
  have hempty : p.emptySolution.status.verdict?.isSome = true := by
    unfold Problem.emptySolution
    dsimp only
    split_ifs <;> rfl
  have hlimit : ∀ x, objectiveLimit params p x ≠ .gapReached ∧
      objectiveLimit params p x ≠ .noPrimal := by
    intro x
    unfold objectiveLimit
    split_ifs <;> simp
  unfold solveBasic
  refine .after fun start => .after fun _ => ?_
  split_ifs
  · exact .pure ⟨hempty, by simp, by simp⟩
  refine .after fun options => .after fun a => ?_
  split_ifs
  · exact .after fun _ => .pure ⟨rfl, by simp, by simp⟩
  · exact .after fun _ => .pure ⟨rfl, by simp, by simp⟩
  · exact .after fun _ => .pure ⟨rfl, by simp, by simp⟩
  · exact .after fun b => noOptimum_fits p params name b
  · exact noOptimum_fits p params name true
  · exact .after fun now => .after fun _ => .pure
      ⟨rfl, fun h => absurd h (hlimit _).1, fun h => absurd h (hlimit _).2⟩

theorem refuse_fits (params : Parameter.Simplex α) (name : String) (why : Obstacle α) :
    (refuse (σ := σ) params name p why).Fits (·.basic) :=
  .after fun _ => .pure ⟨rfl, by simp, by simp⟩

theorem simplex_fits (params : Parameter.Simplex α) :
    (simplex host params p).Fits (·.basic) := by
  unfold simplex
  cases p.badBounds with
  | some why => exact refuse_fits p params "simplex" why
  | none => exact solveBasic_fits host p params _ "simplex"

theorem exact_fits (params : Parameter.Simplex α) : (exact host params p).Fits (·.basic) := by
  rw [exact_eq]
  split_ifs
  · exact .after fun _ => .pure ⟨rfl, by simp, by simp⟩
  · cases p.badBounds with
    | some why => exact refuse_fits p params "exact" why
    | none => exact solveBasic_fits host p _ _ "exact"

theorem interior_fits (params : Parameter.Interior) :
    (interior host params p).Fits (·.interior) := by
  unfold interior
  dsimp only
  split_ifs
  · exact .after fun _ => .pure ⟨rfl, by simp, by simp⟩
  refine .after fun _ => .after fun a => ?_
  split_ifs
  · exact .pure ⟨rfl, by simp, by simp⟩
  · exact .after fun _ => .pure ⟨rfl, by simp, by simp⟩
  · exact .after fun _ => .pure ⟨rfl, by simp, by simp⟩
  · exact .after fun _ => .pure ⟨rfl, by simp, by simp⟩
  · exact .after fun _ => .pure ⟨rfl, by simp, by simp⟩

end

/-! ### Searches -/

namespace Search

variable {c : Company α σ} {s : Scene α σ}

/-- The codes of a search that has begun. -/
def endings : List ReturnCode := [.done, .timeLimit, .failure, .stopped, .gapReached]

/-- A search ends with this code and this tree. Near enough to its end it has an incumbent. It is
given up when somebody has asked for the end, when the time is up or, if that can be, when a
relaxation is left unsolved. -/
structure Over (unsolved : Prop) (code : ReturnCode) (t : Tree α) : Prop where
  ending : code ∈ endings
  gap : code = .gapReached → t.incumbent.isSome = true
  stopped : code = .stopped → t.stopped = true
  late : code = .timeLimit → unsolved ∨ t.params.timeLimit < Parameter.unlimited
  failed : code = .failure → unsolved

variable {unsolved : Prop}

theorem Over.noPrimal {code : ReturnCode} {t : Tree α} (h : Over unsolved code t) :
    code ≠ .noPrimal := by
  rintro rfl
  exact absurd h.ending (by decide)

theorem status_solution (t : Tree α) (status : SolutionStatus) :
    (t.solution status).status = status := by
  unfold Tree.solution
  cases t.incumbent <;> rfl

theorem Over.agrees {code : ReturnCode} {t : Tree α} (h : Over unsolved code t) :
    code.Agrees (verdict code t.incumbent.isSome) := by
  refine ⟨?_, fun hgap => ?_, fun hcode => absurd hcode h.noPrimal⟩
  · unfold verdict
    split_ifs <;> rfl
  · rw [h.gap hgap, hgap]
    rfl

theorem Over.tells {code : ReturnCode} {t : Tree α} (h : Over unsolved code t) :
    Algorithm.search.Tells code (verdict code t.incumbent.isSome) := by
  refine ⟨fun hcode => ?_, ?_⟩
  · have hending := h.ending
    simp only [endings, List.mem_cons, List.not_mem_nil, or_false] at hending
    obtain rfl | rfl | rfl | rfl | rfl := hending
    · exact absurd rfl hcode
    all_goals rfl
  · rintro rfl
    rw [verdict, if_pos rfl]
    split_ifs <;> decide

/-- What a step says of the end, if it is one. -/
def Next.Over (unsolved : Prop) (next : Next α) (t : Tree α) : Prop :=
  match next with
  | .go _ => True
  | .done code => Search.Over unsolved code t

namespace Next.Over

variable {t : Tree α}

theorem done : (Next.done .done : Next α).Over unsolved t :=
  ⟨by decide, nofun, nofun, nofun, nofun⟩

theorem near (h : t.incumbent.isSome = true) : (Next.done .gapReached : Next α).Over unsolved t :=
  ⟨by decide, fun _ => h, nofun, nofun, nofun⟩

theorem asked (h : t.stopped = true) : (Next.done .stopped : Next α).Over unsolved t :=
  ⟨by decide, nofun, fun _ => h, nofun, nofun⟩

theorem late (h : t.params.timeLimit < Parameter.unlimited) :
    (Next.done .timeLimit : Next α).Over unsolved t :=
  ⟨by decide, nofun, nofun, fun _ => .inr h, nofun⟩

theorem given_up (h : unsolved) {code : ReturnCode} (hcode : code = .timeLimit ∨ code = .failure) :
    (Next.done code : Next α).Over unsolved t := by
  obtain rfl | rfl := hcode
  · exact ⟨by decide, nofun, nofun, fun _ => .inl h, nofun⟩
  · exact ⟨by decide, nofun, nofun, nofun, fun _ => h⟩

end Next.Over

/-- The answer to an event is whether somebody has asked for the end. -/
theorem heard_stopped (r : Reason) :
    Runs (heard c r) s (fun stop s' => stop = s'.tree.stopped) fun _ => True :=
  .onward fun _ _ => .of_ok rfl rfl

/-- Time is up only when it is limited. -/
theorem timeUp_late : Runs (timeUp c) s
    (fun late s' => late = true → s'.tree.params.timeLimit < Parameter.unlimited)
    fun _ => True := by
  unfold timeUp
  refine Runs.bind (P := fun t s' => t = s'.tree) (.of_ok rfl rfl) ?_
  rintro _ s rfl
  dsimp only
  split
  · next hlimit => exact .of_ok rfl fun _ => hlimit
  · exact .pure nofun

theorem takePoint_ends (n : Node α) :
    Runs (takePoint c n) s (fun next s' => next.Over unsolved s'.tree) fun _ => True := by
  unfold takePoint
  refine .onward fun taken s => ?_
  split_ifs
  · refine (heard_stopped _).bind fun stop s hstop => ?_
    split_ifs with hasked
    · exact .pure (.asked (hstop ▸ hasked))
    · exact .onward fun _ _ => .pure trivial
  · exact .onward fun _ _ => .pure trivial

theorem divide_ends (n : Node α) (fs : List (Fraction α)) :
    Runs (divide c n fs) s (fun next s' => next.Over unsolved s'.tree) fun _ => True := by
  unfold divide
  refine Runs.detour (I := fun _ => True) trivial
    (fun hrest => Runs.onward fun _ s => hrest s trivial) fun s _ => ?_
  refine (heard_stopped _).bind fun stop s hstop => ?_
  split_ifs with hasked
  · exact .pure (.asked (hstop ▸ hasked))
  refine .onward fun rows s => (heard_stopped _).bind fun stop s hstop => ?_
  split_ifs with hasked
  · exact .pure (.asked (hstop ▸ hasked))
  refine .onward fun rows s => ?_
  split_ifs
  · exact .pure trivial
  refine (heard_stopped _).bind fun stop s hstop => ?_
  split_ifs with hasked
  · exact .pure (.asked (hstop ▸ hasked))
  refine .onward fun t s => ?_
  split
  · exact .pure trivial
  · exact .onward fun _ s => Runs.onward fun _ s => .pure trivial

theorem weigh_ends (n : Node α) :
    Runs (weigh c n) s (fun next s' => next.Over unsolved s'.tree) fun _ => True := by
  unfold weigh
  refine .onward fun t s => Runs.onward fun _ s => Runs.onward fun _ s => Runs.onward fun t s => ?_
  split_ifs
  · exact .onward fun _ s => .pure trivial
  refine .onward fun rows s => (heard_stopped _).bind fun stop s hstop => ?_
  split_ifs with hasked
  · exact .pure (.asked (hstop ▸ hasked))
  refine .onward fun rows s => ?_
  split_ifs
  · exact .pure trivial
  refine .onward fun t s => Runs.onward fun fs s => ?_
  split_ifs
  · exact takePoint_ends _
  · exact divide_ends _ _

/-- Of the relaxation of a node nothing is known, so that it may be left unsolved. -/
theorem visit_ends (n : Node α) :
    Runs (visit c n) s (fun next s' => next.Over True s'.tree) fun _ => True := by
  unfold visit
  refine .onward fun _ s => Runs.onward fun settings s => Runs.onward fun code s => ?_
  split_ifs
  · exact .pure (.given_up trivial (.inl rfl))
  · exact .pure (.given_up trivial (.inr rfl))
  refine .onward fun t s => ?_
  split
  · exact .onward fun _ s => .pure trivial
  · exact weigh_ends n
  · exact .pure (.given_up trivial (.inr rfl))

/-- A report leaves the tree as it is. -/
theorem say_tree (n : Notice α) : Runs (SearchTask.say n) s (fun _ s' => s'.tree = s.tree)
    fun _ => True := by
  have hsay : SearchTask.say n s =
      SearchTask.ofTask (Task.tellAt Parameter.levelNormal s.tree.params.messageLevel n) s := rfl
  rw [Runs, hsay, SearchTask.ofTask]
  cases Task.tellAt Parameter.levelNormal s.tree.params.messageLevel n s.session with
  | ok b session => rfl
  | error e session => trivial

theorem choose_ends :
    Runs (choose c) s (fun next s' => next.Over unsolved s'.tree) fun _ => True := by
  unfold choose
  refine .onward fun t s => ?_
  split_ifs
  · exact .onward fun _ s => .pure .done
  refine timeUp_late.bind fun late s hlate => ?_
  split_ifs with hup
  · exact .pure (.late (hlate hup))
  -- the gap is that of the tree at hand, which has an incumbent
  refine Runs.bind (P := fun (t : Tree α) (s' : Scene α σ) => t = s'.tree) (.of_ok rfl rfl)
    fun t s ht => ?_
  split_ifs with hgap
  · refine (say_tree _).bind fun _ s' htree => .pure (.near ?_)
    rw [htree, ← ht]
    simp only [gapReached, Bool.and_eq_true] at hgap
    exact hgap.1.2
  refine .onward fun _ s => (heard_stopped _).bind fun stop s hstop => ?_
  split_ifs with hasked
  · exact .pure (.asked (hstop ▸ hasked))
  refine .onward fun t s => Runs.onward fun n s => ?_
  split
  · exact .pure .done
  refine .onward fun t s => .onward fun t s => .onward fun _ s =>
    (heard_stopped _).bind fun stop s hstop => ?_
  split_ifs with hasked
  · exact .pure (.asked (hstop ▸ hasked))
  · exact .pure trivial

/-- What steps say of the end holds of the end of a run, as long as it is known what they rely
on. -/
theorem run_ends (during : Phase α → Scene α σ → Prop)
    (hstep : ∀ φ s, during φ s → Runs (step c φ) s
      (fun next s' => next.Over unsolved s'.tree ∧ ∀ φ', next = .go φ' → during φ' s')
      fun _ => True) (fuel : Nat) {φ : Phase α} (h : during φ s) :
    Runs (run c fuel φ) s (fun code s' => Over unsolved code s'.tree) fun _ => True := by
  induction fuel generalizing s φ with
  | zero => trivial
  | succ fuel ih =>
    unfold run
    refine (hstep φ s h).bind fun next s' hnext => ?_
    cases next with
    | done code => exact .pure hnext.1
    | go φ' => exact ih (hnext.2 φ' rfl)

theorem explore_ends (fuel : Nat) :
    Runs (explore c fuel) s (fun code s' => Over True code s'.tree) fun _ => True := by
  refine .onward fun _ s => run_ends (fun _ _ => True) (fun φ s _ => ?_) fuel trivial
  refine Runs.imp ?_ fun _ _ hends => ⟨hends, fun _ _ => trivial⟩
  cases φ with
  | choose => exact choose_ends
  | visit n => exact visit_ends n

/-! ### Whole searches -/

/-- A code and a status to end a search with. -/
structure Concludes (code : ReturnCode) (status : SolutionStatus) : Prop where
  agrees : code.Agrees status
  tells : Algorithm.search.Tells code status

theorem presolved_answers : Runs (presolved c) s
    (fun r _ => ∀ code status, r = some (code, status) → Concludes code status) fun _ => True := by
  have hsome : ∀ {code : ReturnCode} {status : SolutionStatus} {s : Scene α σ},
      Concludes code status → Runs (pure (some (code, status)) : SearchTask α σ _) s
        (fun r _ => ∀ code status, r = some (code, status) → Concludes code status)
        fun _ => True := by
    rintro code status s h _ _ ⟨⟩
    exact h
  unfold presolved
  refine .onward fun settings s => .onward fun code s => ?_
  split
  · exact .onward fun _ s => hsome ⟨⟨rfl, by simp, fun _ => .inr rfl⟩, fun _ => rfl, by simp⟩
  · exact .onward fun _ s => hsome ⟨⟨rfl, by simp, by simp⟩, fun _ => rfl, by simp⟩
  · exact hsome ⟨⟨rfl, by simp, by simp⟩, fun _ => rfl, by simp⟩
  · refine .onward fun t s => ?_
    split_ifs
    · exact .pure (by simp)
    · exact hsome ⟨⟨rfl, by simp, by simp⟩, fun _ => rfl, by simp⟩
  · exact hsome ⟨⟨rfl, by simp, by simp⟩, fun _ => rfl, by simp⟩

/-- What is said of an answer holds of every answer when it holds of those of the presolver and of
what is found. -/
theorem conclude_runs {Q : ReturnCode → SolutionStatus → Prop} {I : Scene α σ → Prop} {fuel : Nat}
    (htold : ∀ s s' : Scene α σ, s'.tree = s.tree → s'.session.world = s.session.world →
      I s → I s')
    (hpresolved : ∀ s, I s → Runs (presolved c) s (fun r s' => (r = none → I s') ∧
      ∀ code status, r = some (code, status) → Q code status) fun _ => True)
    (hexplore : ∀ s, I s → Runs (explore c fuel) s
      (fun code s' => Q code (verdict code s'.tree.incumbent.isSome)) fun _ => True) (h : I s) :
    Runs (conclude c fuel) s (fun r _ => Q r.1 r.2.status) fun _ => True := by
  unfold conclude
  refine tree_bind ?_
  dsimp only
  refine Runs.detour h (fun hrest => ?_) fun s h => ?_
  · exact tree_bind (hrest { s with session := _ } (htold s _ rfl rfl h))
  refine Runs.detour h (fun hrest => ?_) fun s h => ?_
  · refine (hpresolved s h).bind fun r s' hr => ?_
    cases r with
    | none => exact hrest s' (hr.1 rfl)
    | some r => exact .pure (hr.2 _ _ rfl)
  refine (hexplore s h).bind fun code s hcode => tree_bind ?_
  have hstored : Q code (s.tree.solution (verdict code s.tree.incumbent.isSome)).status := by
    rw [status_solution]
    exact hcode
  split
  · exact .onward fun _ s => .pure hstored
  · exact .onward fun _ s => .pure hstored
  · exact .pure hstored

theorem conclude_answers (fuel : Nat) :
    Runs (conclude c fuel) s (fun r _ => Concludes r.1 r.2.status) fun _ => True := by
  refine conclude_runs (I := fun _ => True) (fun _ _ _ _ _ => trivial) (fun s _ => ?_)
    (fun s _ => ?_) trivial
  · exact presolved_answers.imp fun _ _ h => ⟨fun _ => trivial, h⟩
  · exact (explore_ends fuel).imp fun _ _ h => ⟨h.agrees, h.tells⟩

end Search

section
variable (c : Search.Company α σ) (params : Parameter.Search α) (fuel : Nat) (p : Problem α)

/-- A search is refused, or it begins with its first tree. -/
theorem intopt_ends {Q : ReturnCode → SolutionStatus → Prop} {e : Prop} {s : Session α σ}
    (hobstacle : ∀ err, Search.obstacle p = .error err → e)
    (hrefused : ∀ why, Search.obstacle p = .ok (some why) → Q .badBounds .undefined)
    (hroot : params.presolve = 0 ∧ p.basic.status ≠ .optimal → Q .noRoot .undefined)
    (hconclude : ∀ s' : Session α σ, s'.world = s.world →
      Runs (Search.conclude c fuel) ⟨s', Tree.ofProblem params p (c.host.now s.world)⟩
        (fun r _ => Q r.1 r.2.status) fun _ => e) :
    Runs (intopt c params fuel p) s (fun r _ => Q r.2 r.1.integer.status) fun _ => e := by
  have hundone : ∀ (m : Notice α) (code : ReturnCode), Q code .undefined → ∀ s : Session α σ,
      Runs (do Task.tellAt Parameter.levelErrors params.messageLevel m
               return (p.withInteger {}, code)) s
        (fun r _ => Q r.2 r.1.integer.status) fun _ => e :=
    fun m code hcode s => (((Task.Returns.tellAt (σ := σ) Parameter.levelErrors params.messageLevel
      m) s).weaken fun _ => False.elim).bind fun _ _ _ => .pure hcode
  unfold intopt
  cases ho : Search.obstacle p with
  | error err => exact hobstacle err ho
  | ok o =>
    cases o with
    | some why => exact hundone _ _ (hrefused why ho) s
    | none =>
      refine Runs.bind (P := fun o s' => o = none ∧ s = s') ⟨rfl, rfl⟩ ?_
      rintro _ _ ⟨rfl, rfl⟩
      dsimp only
      split
      · next hno => exact hundone _ _ (hroot hno) _
      refine Runs.bind (P := fun now s' => now = c.host.now s.world ∧ s = s') ⟨rfl, rfl⟩ ?_
      rintro _ _ ⟨rfl, rfl⟩
      refine Runs.bind (P := fun r _ => Q r.1 r.2.status) ?_ fun _ _ hQ => .pure hQ
      have hconclude := hconclude s rfl
      unfold Runs at hconclude ⊢
      dsimp only
      cases hrun : Search.conclude c fuel ⟨s, Tree.ofProblem params p (c.host.now s.world)⟩ with
      | ok r scene =>
        rw [hrun] at hconclude
        exact hconclude
      | error err scene =>
        rw [hrun] at hconclude
        exact hconclude

theorem intopt_answers : Task.Keeps (fun _ => True) (intopt c params fuel p)
    fun r => Search.Concludes r.2 r.1.integer.status := by
  intro s _
  refine (intopt_ends c params fuel p (Q := Search.Concludes) (fun _ _ => trivial) (fun _ _ => ?_)
    (fun _ => ?_) fun s' _ => Search.conclude_answers fuel).imp fun _ _ h => ⟨h, trivial⟩
  · exact ⟨⟨rfl, by simp, by simp⟩, fun _ => rfl, by simp⟩
  · exact ⟨⟨rfl, by simp, by simp⟩, fun _ => rfl, by simp⟩

theorem intopt_fits : (intopt c params fuel p).Fits (·.integer) :=
  (intopt_answers c params fuel p).imp fun _ h => h.agrees

end

end

section

variable {α σ β γ : Type} [Scalar α]

/-! ### Steps of a solve -/

namespace Solving

section
variable {w : Workbench α σ} {P : γ → Workbench α σ → Prop} {E : Workbench α σ → Prop}

theorem model_bind {f : Model α → Solving α σ γ} (h : Runs (f w.model) w P E) :
    Runs (Solving.model >>= f) w P E := h

theorem modifyModel_bind {g : Model α → Model α} {f : Unit → Solving α σ γ}
    (h : Runs (f ()) { w with model := g w.model } P E) :
    Runs (Solving.modifyModel g >>= f) w P E := h

theorem modifyLast_bind {g : SolveRecord α → SolveRecord α} {f : Unit → Solving α σ γ}
    (h : Runs (f ()) { w with model := { w.model with last := g w.model.last } } P E) :
    Runs (Solving.modifyLast g >>= f) w P E := h

theorem ofExcept_bind {x : Except (Fault α) β} {b : β} (hx : x = .ok b)
    {f : β → Solving α σ γ} (h : Runs (f b) w P E) : Runs (ofExcept x >>= f) w P E := by
  subst hx
  exact h

/-- A task leaves the model alone. -/
theorem ofTask_runs {x : Task α σ β} {Q : β → Prop} {e : Prop}
    (hx : Runs x w.session (fun b _ => Q b) fun _ => e) :
    Runs (ofTask x) w (fun b w' => Q b ∧ w'.model = w.model) fun w' => e ∧ w'.model = w.model := by
  unfold Runs ofTask at *
  cases hsession : x w.session with
  | ok b session =>
    rw [hsession] at hx
    exact ⟨hx, rfl⟩
  | error fault session =>
    rw [hsession] at hx
    exact ⟨hx, rfl⟩

theorem task_bind {x : Task α σ β} {Q : β → Prop} {e : Prop}
    (hx : ∀ s, Runs x s (fun b _ => Q b) fun _ => e) (hE : e → ∀ w', w'.model = w.model → E w')
    {f : β → Solving α σ γ} (h : ∀ b w', Q b → w'.model = w.model → Runs (f b) w' P E) :
    Runs (ofTask x >>= f) w P E :=
  ((ofTask_runs (hx w.session)).weaken fun w' hw' => hE hw'.1 w' hw'.2).bind
    fun b w' hb => h b w' hb.1 hb.2

theorem ofTask_bind {x : Task α σ β} {Q : β → Prop} (hE : ∀ w', w'.model = w.model → E w')
    (hx : Task.Keeps (fun _ => True) x Q) {f : β → Solving α σ γ}
    (h : ∀ b w', Q b → w'.model = w.model → Runs (f b) w' P E) : Runs (ofTask x >>= f) w P E :=
  task_bind hx.runs (fun _ => hE) h

end

end Solving

/-! ### What a search makes of a model -/

namespace Model

variable (m : Model α)

def withPresolve (presolve : Int) : Model α :=
  { m with stores := { m.stores with search := { m.stores.search with presolve := presolve } } }

def withBasis (b : Solution α) : Model α := { m with problem := m.problem.withBasic b }

/-- The model with what a search came to. -/
def concluded (code : ReturnCode) (s : Solution α) : Model α :=
  { m with
    last := { m.last with code := code, bySearch := true }
    problem := m.problem.withInteger s }

end Model

namespace Solving

variable {m : Model α} {w : Workbench α σ} {host : Host α σ} {callback : Option (Callback α σ)}
  {fuel : Nat} {Q : ReturnCode → Solution α → Watched α σ → Prop}

/-- What the algorithm comes to, whatever basis it is given and whether or not it presolves. -/
def Finds (m : Model α) (host : Host α σ) (callback : Option (Callback α σ)) (fuel : Nat)
    (Q : ReturnCode → Solution α → Watched α σ → Prop) : Prop :=
  ∀ b k (session : Session α σ), let ready := (m.withBasis b).withPresolve k
    Runs (intopt ⟨host.watched, some (ready.watch callback)⟩ ready.stores.search fuel ready.problem)
      (session.watched m.last.objectiveBound m.last.relativeGap)
      (fun r s => Q r.2 r.1.integer s.world) fun _ => True

/-- A search that comes to its end. -/
def Ended (m : Model α) (Q : ReturnCode → Solution α → Watched α σ → Prop) (m' : Model α) : Prop :=
  ∃ b k code s v, Q code s v ∧
    m' = (((m.withBasis b).withPresolve k).withWatched v).concluded code s

/-- A search that is broken off. -/
def BrokenOff (σ : Type) (m m' : Model α) : Prop :=
  ∃ (b : Solution α) (k : Int) (v : Watched α σ),
    m' = ((m.withBasis b).withPresolve k).withWatched v

/-- A search that comes back, from its end or broken off, when that can happen. -/
def CameBack (m : Model α) (Q : ReturnCode → Solution α → Watched α σ → Prop) (e : Prop) :
    Except (Fault α) Unit → Model α → Prop
  | .ok _, m' => Ended m Q m'
  | .error _, m' => e ∧ BrokenOff σ m m'

/-- A search without the basis that may be needed for it. -/
def explore (host : Host α σ) (callback : Option (Callback α σ)) (fuel : Nat) :
    Solving α σ Unit := do
  let m ← Solving.model
  let company : Search.Company α (Watched α σ) := ⟨host.watched, some (m.watch callback)⟩
  let code ← fun s =>
    let session := s.session.watched m.last.objectiveBound m.last.relativeGap
    match intopt company m.stores.search fuel m.problem session with
    | .ok (p, code) session =>
      let model := { s.model with problem := p }
      .ok code ⟨session.unwatched, model.withWatched session.world⟩
    | .error e session => .error e ⟨session.unwatched, s.model.withWatched session.world⟩
  modifyLast fun r => { r with code := code, bySearch := true }

theorem explore_runs {e : Prop}
    (h : Runs (intopt ⟨host.watched, some (w.model.watch callback)⟩
        w.model.stores.search fuel w.model.problem)
      (w.session.watched w.model.last.objectiveBound w.model.last.relativeGap)
      (fun r s => Q r.2 r.1.integer s.world) fun _ => e) :
    Runs (explore host callback fuel) w
      (fun _ w' => ∃ code s v, Q code s v ∧ w'.model = (w.model.withWatched v).concluded code s)
      fun w' => e ∧ ∃ v : Watched α σ, w'.model = w.model.withWatched v := by
  have hwrites := intopt_writes w.model.problem
    (⟨host.watched, some (w.model.watch callback)⟩ : Search.Company α (Watched α σ))
    w.model.stores.search fuel
    (w.session.watched w.model.last.objectiveBound w.model.last.relativeGap) trivial
  unfold explore
  refine model_bind (Runs.bind (P := fun code w' => ∃ s v, Q code s v ∧
    w'.model = { w.model.withWatched v with problem := w.model.problem.withInteger s }) ?_ ?_)
  · unfold Runs at h hwrites ⊢
    dsimp only
    cases hrun : intopt ⟨host.watched, some (w.model.watch callback)⟩ w.model.stores.search fuel
        w.model.problem (w.session.watched w.model.last.objectiveBound
          w.model.last.relativeGap) with
    | error _ session =>
      rw [hrun] at h
      exact ⟨h, session.world, rfl⟩
    | ok r session =>
      rw [hrun] at h hwrites
      obtain ⟨⟨s, hs⟩, -⟩ := hwrites
      have hinteger : r.1.integer = s := congrArg Problem.integer hs
      refine ⟨r.1.integer, session.world, h, ?_⟩
      dsimp only
      rw [hinteger, hs]
      rfl
  · rintro code ⟨session, _⟩ ⟨s, v, hQ, rfl⟩
    exact ⟨code, s, v, hQ, rfl⟩

/-- A search comes to its end, or it is broken off when the basis or the algorithm can fail. Unless
the algorithm is to presolve it has an optimal basis, as the simplex method found it. -/
theorem search_runs_of {e : Prop} {B : Solution α → Prop}
    (hbasis : ∀ s : Session α σ, Runs (simplex host w.model.stores.simplex w.model.problem) s
      (fun r _ => B r.1.basic) fun _ => e)
    (hfinds : ∀ b k (session : Session α σ), (k = 0 → b.status = .optimal ∧ B b) →
      let ready := (w.model.withBasis b).withPresolve k
      Runs (intopt ⟨host.watched, some (ready.watch callback)⟩ ready.stores.search fuel
          ready.problem)
        (session.watched w.model.last.objectiveBound w.model.last.relativeGap)
        (fun r s => Q r.2 r.1.integer s.world) fun _ => e) :
    Runs (search host callback fuel) w (fun _ w' => Ended w.model Q w'.model)
      fun w' => e ∧ BrokenOff σ w.model w'.model := by
  have hrest : ∀ b k (w' : Workbench α σ), (k = 0 → b.status = .optimal ∧ B b) →
      w'.model = (w.model.withBasis b).withPresolve k →
      Runs (explore host callback fuel) w' (fun _ w' => Ended w.model Q w'.model)
        fun w' => e ∧ BrokenOff σ w.model w'.model := by
    rintro b k ⟨session, _⟩ hb rfl
    have hexplore := explore_runs (w := ⟨session, (w.model.withBasis b).withPresolve k⟩)
      (hfinds b k session hb)
    refine (hexplore.imp ?_).weaken ?_
    · rintro _ w' ⟨code, s, v, hQ, hw'⟩
      exact ⟨b, k, code, s, v, hQ, hw'⟩
    · rintro w' ⟨he, v, hw'⟩
      exact ⟨he, b, k, v, hw'⟩
  unfold search
  refine model_bind ?_
  split_ifs with hpresolve
  · refine model_bind (Runs.bind (P := fun _ w' => ∃ b, B b ∧ w'.model = w.model.withBasis b) ?_ ?_)
    · unfold engage
      have hsimplex := ((hbasis w.session).and
        (simplex_writes host w.model.problem _ w.session trivial)).imp
          fun _ _ h => And.intro h.1 h.2.1
      refine model_bind (((ofTask_runs (hsimplex.weaken fun _ h => h.1)).weaken ?_).bind ?_)
      · rintro w' ⟨he, hw'⟩
        exact ⟨he, w.model.problem.basic, w.model.stores.search.presolve,
          ⟨w.session.world, w.model.last.objectiveBound, w.model.last.relativeGap⟩, hw'⟩
      · rintro ⟨_, code⟩ w' ⟨⟨hb, b, rfl⟩, hw'⟩
        refine modifyModel_bind (.pure ⟨b, hb, ?_⟩)
        rw [hw']
        rfl
    · rintro code w' ⟨b, hb, hw'⟩
      refine model_bind ?_
      split_ifs with hstatus
      · refine modifyModel_bind (hrest b 1 _ (by simp) ?_)
        rw [hw']
        rfl
      · refine hrest b w.model.stores.search.presolve w' (fun _ => ?_) hw'
        rw [hw'] at hstatus
        exact ⟨not_not.1 hstatus, hb⟩
  · exact hrest w.model.problem.basic w.model.stores.search.presolve w
      (fun hzero => absurd hzero hpresolve) rfl

theorem search_runs (h : Finds w.model host callback fuel Q) :
    Runs (search host callback fuel) w (fun _ w' => Ended w.model Q w'.model)
      fun w' => BrokenOff σ w.model w'.model :=
  (search_runs_of (e := True) (B := fun _ => True)
    (fun _ => Runs.anything.imp fun _ _ _ => trivial) fun b k session _ => h b k session).weaken
    fun _ hbroken => hbroken.2

end Solving

end

end MixedInteger
