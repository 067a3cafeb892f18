import MixedInteger.Proofs.Search.Recording

/-! The record changes nothing. A search on the record comes to the same end as the search itself:
it has the same answer or failure, and it leaves the same session when the record is dropped. -/

namespace MixedInteger

open SearchTask

/-! ### Calls seen through a map of states -/

section
variable {ε σ τ β γ : Type}

/-- The end of a call with its state mapped. -/
def mapState (f : σ → τ) : EStateM.Result ε σ β → EStateM.Result ε τ β
  | .ok b s => .ok b (f s)
  | .error e s => .error e (f s)

/-- One call does what the other does, as it is seen through a map of states. -/
def Mirrors (f : σ → τ) (x : EStateM ε σ β) (y : EStateM ε τ β) : Prop :=
  ∀ s, y (f s) = mapState f (x s)

namespace Mirrors

variable {f : σ → τ}

theorem pure (b : β) : Mirrors f (Pure.pure b : EStateM ε σ β) (Pure.pure b) := fun _ => rfl

theorem throw (e : ε) :
    Mirrors f (MonadExcept.throw e : EStateM ε σ β) (MonadExcept.throw e) := fun _ => rfl

theorem bind {x : EStateM ε σ β} {y : EStateM ε τ β} {g : β → EStateM ε σ γ}
    {h : β → EStateM ε τ γ} (hx : Mirrors f x y) (hg : ∀ b, Mirrors f (g b) (h b)) :
    Mirrors f (x >>= g) (y >>= h) := by
  intro s
  rw [bind_run, bind_run, hx s]
  cases x s with
  | ok b s' => exact hg b s'
  | error e s' => rfl

theorem ite {c : Prop} [Decidable c] {x x' : EStateM ε σ β} {y y' : EStateM ε τ β}
    (hx : Mirrors f x y) (hx' : Mirrors f x' y') :
    Mirrors f (if c then x else x') (if c then y else y') := by
  split_ifs
  · exact hx
  · exact hx'

/-- A detour that may be taken or not. -/
theorem detour {c : Prop} [Decidable c] {x x' : EStateM ε σ β} {y y' : EStateM ε τ β}
    (hx' : Mirrors f x' y') (hx : Mirrors f x' y' → Mirrors f x y) :
    Mirrors f (if c then x else x') (if c then y else y') :=
  .ite (hx hx') hx'

end Mirrors

end

variable {α σ β : Type} [Scalar α]

/-! ### Tasks -/

/-- The session without its record. -/
def Session.unrecorded (s : Session α (Recorded α σ)) : Session α σ := ⟨s.world.world, s.journal⟩

/-- A task on the record, and the task itself. -/
abbrev Task.Mirrors (x : Task α (Recorded α σ) β) (y : Task α σ β) : Prop :=
  MixedInteger.Mirrors Session.unrecorded x y

section
variable (host : Host α σ)

theorem ask_mirrors (r : Request α) :
    Task.Mirrors (Task.ask host.recorded r) (Task.ask host r) := by
  intro s
  cases hsolve : host.solve r s.world.world with
  | mk a world =>
    cases a <;> simp only [Task.ask, Host.recorded, Session.unrecorded, hsolve, mapState]

theorem now_mirrors : Task.Mirrors (Task.now host.recorded) (Task.now host) := fun _ => rfl

theorem tellAt_mirrors (least level : Int) (n : Notice α) :
    Task.Mirrors (σ := σ) (Task.tellAt least level n) (Task.tellAt least level n) := by
  unfold Task.tellAt
  exact .ite (fun _ => rfl) (.pure _)

theorem ofRounding_mirrors (x : Except RoundingError β) :
    Task.Mirrors (α := α) (σ := σ) (Task.ofRounding x) (Task.ofRounding x) := by
  cases x with
  | ok b => exact .pure b
  | error e => exact .throw _

theorem number_mirrors (i : Int) :
    Task.Mirrors (α := α) (σ := σ) (Task.number i) (Task.number i) := by
  unfold Task.number
  cases (Scalar.ofInt? i : Option α) with
  | none => exact .throw _
  | some x => exact .pure x

variable (params : Parameter.Simplex α) (options : SolverOptions α) (name : String) (p : Problem α)

theorem limited_mirrors :
    Task.Mirrors (σ := σ) (params.limited options) (params.limited options) := by
  unfold Parameter.Simplex.limited
  exact .ite ((number_mirrors _).bind fun _ => .pure _) (.pure _)

theorem isUnbounded_mirrors (r : Request α) :
    Task.Mirrors (isUnbounded host.recorded r) (isUnbounded host r) :=
  (ask_mirrors host _).bind fun _ => .pure _

theorem noOptimum_mirrors (unbounded : Bool) :
    Task.Mirrors (σ := σ) (noOptimum params name p unbounded)
      (noOptimum params name p unbounded) := by
  unfold noOptimum
  exact .ite ((tellAt_mirrors _ _ _).bind fun _ => .pure _)
    (.ite (.pure _) ((tellAt_mirrors _ _ _).bind fun _ => .pure _))

theorem solveBasic_mirrors : Task.Mirrors (solveBasic host.recorded params options name p)
    (solveBasic host params options name p) := by
  have htold : ∀ (least level : Int) (n : Notice α) (r : Problem α × ReturnCode),
      Task.Mirrors (σ := σ) (do Task.tellAt least level n; return r)
        (do Task.tellAt least level n; return r) :=
    fun _ _ _ _ => (tellAt_mirrors _ _ _).bind fun _ => .pure _
  unfold solveBasic
  refine (now_mirrors host).bind fun start => (tellAt_mirrors _ _ _).bind fun _ => ?_
  refine .ite (.pure _) ((limited_mirrors params options).bind fun options => ?_)
  refine (ask_mirrors host _).bind fun a => ?_
  refine .ite (.ite (htold _ _ _ _) (htold _ _ _ _)) (.ite (htold _ _ _ _) (.ite ?_ (.ite ?_ ?_)))
  · exact (isUnbounded_mirrors host _).bind fun _ => noOptimum_mirrors params name p _
  · exact noOptimum_mirrors params name p true
  · exact (now_mirrors host).bind fun _ => htold _ _ _ _

theorem simplex_mirrors :
    Task.Mirrors (simplex host.recorded params p) (simplex host params p) := by
  unfold simplex
  cases p.badBounds with
  | some why => exact (tellAt_mirrors _ _ _).bind fun _ => .pure _
  | none => exact solveBasic_mirrors host params _ _ p

end

/-! ### Steps of a search -/

/-- The scene without its record. -/
def Scene.unrecorded (s : Scene α (Recorded α σ)) : Scene α σ := ⟨s.session.unrecorded, s.tree⟩

/-- A step on the record, and the step itself. -/
abbrev SearchTask.Mirrors (x : SearchTask α (Recorded α σ) β) (y : SearchTask α σ β) : Prop :=
  MixedInteger.Mirrors Scene.unrecorded x y

theorem ofTask_mirrors {x : Task α (Recorded α σ) β} {y : Task α σ β} (h : Task.Mirrors x y) :
    SearchTask.Mirrors (ofTask x) (ofTask y) := by
  intro s
  have hs : y s.unrecorded.session = mapState Session.unrecorded (x s.session) := h s.session
  unfold ofTask
  rw [hs]
  cases x s.session <;> rfl

theorem tree_mirrors : SearchTask.Mirrors (α := α) (σ := σ) tree tree := fun _ => rfl

theorem modifyTree_mirrors (g : Tree α → Tree α) :
    SearchTask.Mirrors (σ := σ) (modifyTree g) (modifyTree g) := fun _ => rfl

theorem ofSearch_mirrors (x : Except SearchError β) :
    SearchTask.Mirrors (α := α) (σ := σ) (ofSearch x) (ofSearch x) := by
  cases x with
  | ok b => exact .pure b
  | error e => exact .throw _

theorem ofProblem_mirrors (x : Except (ProblemError α) β) :
    SearchTask.Mirrors (σ := σ) (ofProblem x) (ofProblem x) := by
  cases x with
  | ok b => exact .pure b
  | error e => exact .throw _

theorem say_mirrors (n : Notice α) : SearchTask.Mirrors (σ := σ) (say n) (say n) :=
  tree_mirrors.bind fun _ => ofTask_mirrors (tellAt_mirrors _ _ _)

namespace Search

variable (host : Host α σ) (hear : Listener α σ)

theorem heard_mirrors (r : Reason) :
    SearchTask.Mirrors (heard (.recorded host hear) r) (heard ⟨host, some hear⟩ r) := by
  refine .bind (fun s => ?_) fun _ => tree_mirrors.bind fun _ => .pure _
  unfold announce Company.recorded Listener.recorded Scene.unrecorded
  dsimp only [Session.unrecorded]
  cases hear ⟨⟨s.session.world.world, s.session.journal⟩, { s.tree with reason := some r }⟩ <;> rfl

theorem elapsed_mirrors :
    SearchTask.Mirrors (elapsed (.recorded host hear)) (elapsed ⟨host, some hear⟩) :=
  (ofTask_mirrors (now_mirrors host)).bind fun _ => tree_mirrors.bind fun _ => .pure _

theorem timeUp_mirrors :
    SearchTask.Mirrors (timeUp (.recorded host hear)) (timeUp ⟨host, some hear⟩) :=
  tree_mirrors.bind fun _ => .ite ((elapsed_mirrors host hear).bind fun _ => .pure _) (.pure _)

theorem relaxation_mirrors :
    SearchTask.Mirrors (relaxation (.recorded host hear)) (relaxation ⟨host, some hear⟩) := by
  refine tree_mirrors.bind fun t => .ite ?_ (.pure _)
  refine (ofTask_mirrors (number_mirrors _)).bind fun _ => ?_
  refine (elapsed_mirrors host hear).bind fun _ => ?_
  exact (ofTask_mirrors (ofRounding_mirrors _)).bind fun _ => .pure _

theorem relax_mirrors (settings : Parameter.Simplex α) :
    SearchTask.Mirrors (relax (.recorded host hear) settings)
      (relax ⟨host, some hear⟩ settings) := by
  refine tree_mirrors.bind fun t => (ofTask_mirrors (simplex_mirrors host settings _)).bind ?_
  exact fun _ => (modifyTree_mirrors _).bind fun _ => .pure _

theorem record_mirrors : SearchTask.Mirrors (α := α) (σ := σ) record record := by
  refine tree_mirrors.bind fun t => (ofTask_mirrors (ofRounding_mirrors _)).bind fun o => ?_
  cases o with
  | none => exact .pure _
  | some i => exact (modifyTree_mirrors _).bind fun _ => (say_mirrors _).bind fun _ => .pure _

theorem takePoint_mirrors (n : Node α) :
    SearchTask.Mirrors (takePoint (.recorded host hear) n) (takePoint ⟨host, some hear⟩ n) := by
  refine record_mirrors.bind fun _ => .detour ?_ fun hrest => ?_
  · exact (modifyTree_mirrors _).bind fun _ => .pure _
  · exact (heard_mirrors host hear _).bind fun _ => .ite (.pure _) hrest

theorem rowCount_mirrors : SearchTask.Mirrors (α := α) (σ := σ) rowCount rowCount :=
  tree_mirrors.bind fun _ => .pure _

theorem divide_mirrors (n : Node α) (fs : List (Fraction α)) :
    SearchTask.Mirrors (divide (.recorded host hear) n fs) (divide ⟨host, some hear⟩ n fs) := by
  have hheard := heard_mirrors host hear
  unfold divide
  dsimp only
  refine .detour ?_ fun hrest => (modifyTree_mirrors _).bind fun _ => hrest
  refine (hheard _).bind fun _ => .ite (.pure _) (rowCount_mirrors.bind fun rows => ?_)
  refine (hheard _).bind fun _ => .ite (.pure _) (rowCount_mirrors.bind fun rows' => ?_)
  refine .ite (.pure _) ((hheard _).bind fun _ => .ite (.pure _) (tree_mirrors.bind fun t => ?_))
  cases t.choose fs with
  | none => exact .pure _
  | some f => exact (modifyTree_mirrors _).bind fun _ => (say_mirrors _).bind fun _ => .pure _

theorem weigh_mirrors (n : Node α) :
    SearchTask.Mirrors (weigh (.recorded host hear) n) (weigh ⟨host, some hear⟩ n) := by
  unfold weigh
  refine tree_mirrors.bind fun t => (modifyTree_mirrors _).bind fun _ => ?_
  refine (modifyTree_mirrors _).bind fun _ => tree_mirrors.bind fun t => ?_
  refine .ite ((modifyTree_mirrors _).bind fun _ => .pure _) (rowCount_mirrors.bind fun rows => ?_)
  refine (heard_mirrors host hear _).bind fun _ => .ite (.pure _) ?_
  refine rowCount_mirrors.bind fun rows' => .ite (.pure _) (tree_mirrors.bind fun t => ?_)
  refine (ofTask_mirrors (ofRounding_mirrors _)).bind fun fs => ?_
  exact .ite (takePoint_mirrors host hear _) (divide_mirrors host hear _ fs)

theorem visit_mirrors (n : Node α) :
    SearchTask.Mirrors (visit (.recorded host hear) n) (visit ⟨host, some hear⟩ n) := by
  refine (modifyTree_mirrors _).bind fun _ => (relaxation_mirrors host hear).bind fun settings => ?_
  refine (relax_mirrors host hear settings).bind fun code => .ite (.pure _) (.ite (.pure _) ?_)
  refine tree_mirrors.bind fun t => ?_
  cases t.problem.basic.status with
  | noFeasible => exact (modifyTree_mirrors _).bind fun _ => .pure _
  | optimal => exact weigh_mirrors host hear n
  | _ => exact .pure _

theorem choose_mirrors :
    SearchTask.Mirrors (choose (.recorded host hear)) (choose ⟨host, some hear⟩) := by
  have hheard := heard_mirrors host hear
  unfold choose
  refine tree_mirrors.bind fun t => .ite ((modifyTree_mirrors _).bind fun _ => .pure _) ?_
  refine (timeUp_mirrors host hear).bind fun up => .ite (.pure _) (tree_mirrors.bind fun t => ?_)
  refine .ite ((say_mirrors _).bind fun _ => .pure _) ((modifyTree_mirrors _).bind fun _ => ?_)
  refine (hheard _).bind fun _ => .ite (.pure _) (tree_mirrors.bind fun t => ?_)
  refine (ofSearch_mirrors _).bind fun o => ?_
  cases o with
  | none => exact .pure _
  | some n =>
    refine tree_mirrors.bind fun t => (ofProblem_mirrors _).bind fun u => ?_
    exact (modifyTree_mirrors _).bind fun _ => (hheard _).bind fun _ => .ite (.pure _) (.pure _)

theorem step_mirrors (φ : Phase α) :
    SearchTask.Mirrors (step (.recorded host hear) φ) (step ⟨host, some hear⟩ φ) := by
  cases φ with
  | choose => exact choose_mirrors host hear
  | visit n => exact visit_mirrors host hear n

theorem run_mirrors (fuel : ℕ) (φ : Phase α) :
    SearchTask.Mirrors (run (.recorded host hear) fuel φ) (run ⟨host, some hear⟩ fuel φ) := by
  induction fuel generalizing φ with
  | zero => exact .throw _
  | succ fuel ih =>
    refine (step_mirrors host hear φ).bind fun next => ?_
    cases next with
    | done code => exact .pure code
    | go φ' => exact ih φ'

theorem presolved_mirrors :
    SearchTask.Mirrors (presolved (.recorded host hear)) (presolved ⟨host, some hear⟩) := by
  unfold presolved
  refine (relaxation_mirrors host hear).bind fun settings => ?_
  refine (relax_mirrors host hear _).bind fun code => ?_
  cases code with
  | noPrimal => exact (say_mirrors _).bind fun _ => .pure _
  | noDual => exact (say_mirrors _).bind fun _ => .pure _
  | done => exact tree_mirrors.bind fun t => .ite (.pure _) (.pure _)
  | _ => exact .pure _

theorem conclude_mirrors (fuel : ℕ) :
    SearchTask.Mirrors (conclude (.recorded host hear) fuel) (conclude ⟨host, some hear⟩ fuel) := by
  have hexplore : SearchTask.Mirrors (explore (.recorded host hear) fuel)
      (explore ⟨host, some hear⟩ fuel) :=
    (modifyTree_mirrors _).bind fun _ => run_mirrors host hear fuel .choose
  unfold conclude
  refine tree_mirrors.bind fun t => ?_
  dsimp only
  refine .detour (.detour (hexplore.bind fun code => tree_mirrors.bind fun t => ?_) fun hrest => ?_)
    fun hrest => ?_
  · split
    · exact (say_mirrors _).bind fun _ => .pure _
    · exact (say_mirrors _).bind fun _ => .pure _
    · exact .pure _
  · refine (presolved_mirrors host hear).bind fun o => ?_
    cases o with
    | none => exact hrest
    | some r => exact .pure _
  · exact tree_mirrors.bind fun t => (ofTask_mirrors fun _ => rfl).bind fun _ => hrest

end Search

theorem intopt_mirrors (host : Host α σ) (hear : Listener α σ) (params : Parameter.Search α)
    (fuel : ℕ) (p : Problem α) : Task.Mirrors (intopt (.recorded host hear) params fuel p)
      (intopt ⟨host, some hear⟩ params fuel p) := by
  unfold intopt
  refine (ofRounding_mirrors _).bind fun o => ?_
  cases o with
  | some why => exact (tellAt_mirrors _ _ _).bind fun _ => .pure _
  | none =>
  refine .ite ((tellAt_mirrors _ _ _).bind fun _ => .pure _) ((now_mirrors host).bind fun now => ?_)
  refine .bind (fun s => ?_) fun _ => .pure _
  have hconclude := Search.conclude_mirrors host hear fuel ⟨s, Tree.ofProblem params p now⟩
  change Search.conclude ⟨host, some hear⟩ fuel ⟨s.unrecorded, Tree.ofProblem params p now⟩ = _
    at hconclude
  rw [hconclude]
  cases Search.conclude (.recorded host hear) fuel ⟨s, Tree.ofProblem params p now⟩ <;> rfl

end MixedInteger
