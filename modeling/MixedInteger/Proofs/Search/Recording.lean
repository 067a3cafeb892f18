import MixedInteger.Proofs.Continuous.Relaxation
import MixedInteger.Proofs.Continuous.Stored
import MixedInteger.Proofs.Solver.Session

/-! A record of what happens in a search. Beside the world a log is kept of the questions to the
solver and of the events that the listener hears of, each event with the tree that was shown and
the tree that was left. Apart from the log, host and listener are as they were. -/

namespace MixedInteger

open SearchTask

variable {α σ β γ : Type} [Scalar α]

/-! ### What happens -/

/-- What a listener was shown at an event, what it left, and whether it failed. -/
structure Search.Event (α : Type) [Scalar α] where
  shown : Tree α
  left : Tree α
  failed : Bool

inductive Search.Happening (α : Type) [Scalar α] where
  | asked (r : Request α)
  | heard (e : Event α)

open Search

structure Recorded (α σ : Type) [Scalar α] where
  world : σ
  log : List (Happening α)

abbrev Scene.log (s : Scene α (Recorded α σ)) : List (Happening α) := s.session.world.log

namespace Search.Event

variable (e : Event α)

/-- The tree with which the search goes on. -/
def after : Tree α := { e.left with reason := none }

/-- Rows were added to the working problem. -/
def Grew : Prop := e.shown.problem.rowCount < e.left.problem.rowCount

/-- The search does not go on. -/
def ends : Bool := e.failed || e.left.stopped

/-- The tree is shown with a reason, and the search goes on. -/
structure Passed (r : Reason) (t : Tree α) : Prop where
  shown : e.shown = { t with reason := some r }
  goes_on : e.ends = false

end Search.Event

/-! ### Keeping the record -/

def Host.recorded (host : Host α σ) : Host α (Recorded α σ) where
  solve r w :=
    let (a, world) := host.solve r w.world
    (a, ⟨world, w.log ++ [.asked r]⟩)
  now w := host.now w.world

/-- Listens, then notes the event. -/
def Listener.recorded (hear : Listener α σ) : Listener α (Recorded α σ) := fun s =>
  let note (r : Scene α σ) (failed : Bool) : Scene α (Recorded α σ) :=
    ⟨⟨⟨r.session.world, s.log ++ [.heard ⟨s.tree, r.tree, failed⟩]⟩, r.session.journal⟩, r.tree⟩
  match hear ⟨⟨s.session.world.world, s.session.journal⟩, s.tree⟩ with
  | .ok _ r => .ok () (note r false)
  | .error e r => .error e (note r true)

/-- A company with a listener, on the record. -/
def Search.Company.recorded (host : Host α σ) (hear : Listener α σ) :
    Company α (Recorded α σ) := ⟨host.recorded, some hear.recorded⟩

def Session.recorded (s : Session α σ) : Session α (Recorded α σ) := ⟨⟨s.world, []⟩, s.journal⟩

/-! ### Rules -/

section
variable {host : Host α σ} {hear : Listener α σ} {s : Scene α (Recorded α σ)}
  {P : γ → Scene α (Recorded α σ) → Prop} {E : Scene α (Recorded α σ) → Prop}

/-- A step that leaves the tree and the record alone. -/
def SearchTask.Quiet (x : SearchTask α (Recorded α σ) β) : Prop :=
  ∀ s, Runs x s (fun _ s' => s'.tree = s.tree ∧ s'.log = s.log) fun s' => s'.log = s.log

theorem SearchTask.Quiet.next {x : SearchTask α (Recorded α σ) β} (hx : x.Quiet)
    {f : β → SearchTask α (Recorded α σ) γ} (hE : ∀ s', s'.log = s.log → E s')
    (h : ∀ b s', s'.tree = s.tree → s'.log = s.log → Runs (f b) s' P E) :
    Runs (x >>= f) s P E :=
  ((hx s).weaken hE).bind fun b s' hs' => h b s' hs'.1 hs'.2

theorem quiet_pure (b : β) : (pure b : SearchTask α (Recorded α σ) β).Quiet :=
  fun _ => ⟨rfl, rfl⟩

theorem quiet_bind {x : SearchTask α (Recorded α σ) β} {f : β → SearchTask α (Recorded α σ) γ}
    (hx : x.Quiet) (hf : ∀ b, (f b).Quiet) : (x >>= f).Quiet := by
  intro s
  refine hx.next (fun _ => id) fun b s' htree hlog => ?_
  have := hf b s'
  rwa [htree, hlog] at this

theorem quiet_tree : (tree : SearchTask α (Recorded α σ) (Tree α)).Quiet := fun _ => ⟨rfl, rfl⟩

/-- A task that does not ask the solver. -/
theorem quiet_ofTask {x : Task α (Recorded α σ) β}
    (hx : ∀ log, Task.Keeps (fun w : Recorded α σ => w.log = log) x fun _ => True) :
    (ofTask x).Quiet := by
  intro s
  exact (ofTask_runs (W := fun w : Recorded α σ => w.log = s.log) (hx s.log) rfl fun _ => id).imp
    fun _ _ h => ⟨h.2.1, h.2.2⟩

theorem quiet_ofRounding (x : Except RoundingError β) :
    (ofRounding x : SearchTask α (Recorded α σ) β).Quiet :=
  quiet_ofTask fun _ => Task.Keeps.ofRounding x fun _ _ => trivial

theorem quiet_say (n : Notice α) : (say n : SearchTask α (Recorded α σ) Unit).Quiet :=
  quiet_bind quiet_tree fun _ => quiet_ofTask fun _ => Task.Keeps.tellAt _ _ _

theorem quiet_now : (ofTask (Task.now host.recorded)).Quiet :=
  quiet_ofTask fun _ => Task.Keeps.now _

/-- A question is noted, answered or not. -/
theorem ask_recorded {r : Request α} {s : Session α (Recorded α σ)} :
    Runs (Task.ask host.recorded r) s
      (fun _ s' => s'.world.log = s.world.log ++ [.asked r])
      fun s' => s'.world.log = s.world.log ++ [.asked r] := by
  cases hsolve : host.solve r s.world.world with
  | mk answer world => cases answer <;> simp only [Runs, Task.ask, Host.recorded, hsolve]

/-- An event is noted, whether the listener fails or not. -/
theorem announce_recorded (r : Reason) :
    Runs (announce (Company.recorded host hear).listener r) s
      (fun _ s' => ∃ e : Event α, e.shown = { s.tree with reason := some r } ∧ e.failed = false ∧
        s'.log = s.log ++ [.heard e] ∧ s'.tree = e.after)
      fun s' => ∃ e : Event α, e.shown = { s.tree with reason := some r } ∧ e.failed = true ∧
        s'.log = s.log ++ [.heard e] := by
  let s₁ : Scene α σ :=
    ⟨⟨s.session.world.world, s.session.journal⟩, { s.tree with reason := some r }⟩
  unfold Runs announce Company.recorded Listener.recorded
  dsimp only
  cases hear s₁ with
  | ok _ s' => exact ⟨⟨s₁.tree, s'.tree, false⟩, rfl, rfl, rfl, rfl⟩
  | error _ s' => exact ⟨⟨s₁.tree, s'.tree, true⟩, rfl, rfl, rfl⟩

/-- After an event the search ends, or it goes on with the tree that was left. -/
theorem heard_recorded {r : Reason} {f : Bool → SearchTask α (Recorded α σ) γ}
    (hE : ∀ e : Event α, e.shown = { s.tree with reason := some r } → e.failed = true →
      ∀ s' : Scene α (Recorded α σ), s'.log = s.log ++ [.heard e] → E s')
    (h : ∀ e : Event α, e.shown = { s.tree with reason := some r } → e.failed = false →
      ∀ s' : Scene α (Recorded α σ), s'.log = s.log ++ [.heard e] → s'.tree = e.after →
        Runs (f e.left.stopped) s' P E) :
    Runs (heard (Company.recorded host hear) r >>= f) s P E := by
  refine Runs.bind (P := fun stopped s' => ∃ e : Event α,
    e.shown = { s.tree with reason := some r } ∧ e.failed = false ∧
      s'.log = s.log ++ [.heard e] ∧ s'.tree = e.after ∧ stopped = e.left.stopped) ?_ ?_
  · refine Runs.bind ((announce_recorded r).weaken ?_) ?_
    · rintro s' ⟨e, hshown, hfailed, hlog⟩
      exact hE e hshown hfailed s' hlog
    · rintro _ s' ⟨e, hshown, hfailed, hlog, htree⟩
      exact tree_bind ⟨e, hshown, hfailed, hlog, htree, by rw [htree]; rfl⟩
  · rintro _ s' ⟨e, hshown, hfailed, hlog, htree, rfl⟩
    exact h e hshown hfailed s' hlog htree

end

/-! ### One relaxation -/

/-- The questions of one run of the simplex method: the program of the problem, and then perhaps
the program without its cost. -/
def Problem.Asks (p : Problem α) (rs : List (Request α)) : Prop :=
  ∃ r : Request α, r.program = p.linearProgram ∧
    rs <+: [r, { r with program := r.program.costless }]

theorem Search.asks_nil (p : Problem α) : p.Asks [] :=
  ⟨⟨p.linearProgram, .simplex, {}⟩, rfl, List.nil_prefix⟩

/-- The questions of a run that was neither refused nor broken off: none only where there are no
columns. -/
def Problem.Consults (p : Problem α) (rs : List (Request α)) : Prop :=
  p.Asks rs ∧ (p.columns ≠ [] → rs ≠ [])

/-- The log goes on with questions of this kind. -/
def LogsOn (Q : List (Request α) → Prop) (log : List (Happening α))
    (s : Session α (Recorded α σ)) : Prop := ∃ rs, s.world.log = log ++ rs.map .asked ∧ Q rs

theorem LogsOn.mono {Q Q' : List (Request α) → Prop} {log : List (Happening α)}
    {s : Session α (Recorded α σ)} (h : LogsOn Q log s) (hQ : ∀ rs, Q rs → Q' rs) :
    LogsOn Q' log s :=
  h.imp fun rs hrs => ⟨hrs.1, hQ rs hrs.2⟩

section
variable {host : Host α σ} {p : Problem α} {log : List (Happening α)}
  {s : Session α (Recorded α σ)} {P : γ → Session α (Recorded α σ) → Prop}
  {E : Session α (Recorded α σ) → Prop}

/-- A task that does not ask leaves the log as it is. -/
theorem Task.Keeps.next {x : Task α (Recorded α σ) β} {f : β → Task α (Recorded α σ) γ}
    (hx : Task.Keeps (fun w : Recorded α σ => w.log = log) x fun _ => True)
    (hs : s.world.log = log) (hE : ∀ s', s'.world.log = log → E s')
    (h : ∀ b s', s'.world.log = log → Runs (f b) s' P E) : Runs (x >>= f) s P E :=
  ((hx s hs).weaken hE).bind fun b s' hs' => h b s' hs'.2

theorem noOptimum_keeps_world {W : σ → Prop} (params : Parameter.Simplex α) (name : String)
    (unbounded : Bool) : Task.Keeps W (noOptimum params name p unbounded) fun _ => True := by
  unfold noOptimum
  split_ifs
  · exact (Task.Keeps.tellAt _ _ _).bind fun _ _ => .pure trivial
  · exact (Task.Keeps.tellAt _ _ _).bind fun _ _ => .pure trivial
  · exact .pure trivial
  · exact (Task.Keeps.tellAt _ _ _).bind fun _ _ => .pure trivial
  · exact (Task.Keeps.tellAt _ _ _).bind fun _ _ => .pure trivial

theorem solveBasic_asks (params : Parameter.Simplex α) (options : SolverOptions α) (name : String)
    (hs : s.world.log = log) : Runs (solveBasic host.recorded params options name p) s
      (fun _ s' => LogsOn p.Consults log s') fun s' => LogsOn p.Asks log s' := by
  have hnone : ∀ s' : Session α (Recorded α σ), s'.world.log = log → LogsOn p.Asks log s' := by
    intro s' hlog
    exact ⟨[], by simp [hlog], asks_nil p⟩
  unfold solveBasic
  refine Task.Keeps.next (Task.Keeps.now _) hs hnone fun start s hs => ?_
  refine Task.Keeps.next (Task.Keeps.tellAt _ _ _) hs hnone fun _ s hs => ?_
  split_ifs with hempty
  · exact .pure ⟨[], by simp [hs], asks_nil p, fun h => absurd (List.isEmpty_iff.1 hempty) h⟩
  refine Task.Keeps.next (limited_keeps _ _) hs hnone fun options s hs => ?_
  let r : Request α := ⟨p.linearProgram, .simplex, options⟩
  have hone : ∀ s' : Session α (Recorded α σ), s'.world.log = log ++ [.asked r] →
      LogsOn p.Consults log s' := by
    intro s' hlog
    exact ⟨[r], hlog, ⟨r, rfl, ⟨[_], rfl⟩⟩, fun _ => List.cons_ne_nil r []⟩
  have hbroken : ∀ s' : Session α (Recorded α σ), s'.world.log = log ++ [.asked r] →
      LogsOn p.Asks log s' := fun s' hlog => (hone s' hlog).mono fun _ h => h.1
  have htwo : ∀ s' : Session α (Recorded α σ),
      s'.world.log = log ++ [.asked r] ++ [.asked { r with program := r.program.costless }] →
        LogsOn p.Consults log s' := by
    intro s' hlog
    exact ⟨[r, _], by rw [hlog, List.append_assoc]; rfl, ⟨r, rfl, List.prefix_rfl⟩,
      fun _ => List.cons_ne_nil r _⟩
  refine Runs.bind (P := fun _ s' => s'.world.log = log ++ [.asked r])
    ((ask_recorded.imp fun _ _ h => ?_).weaken fun _ h => hbroken _ ?_) fun a s hs => ?_
  · rw [h, hs]
  · rw [h, hs]
  split_ifs
  · exact Task.Keeps.next (Task.Keeps.tellAt _ _ _) hs hbroken fun _ s hs => .pure (hone s hs)
  · exact Task.Keeps.next (Task.Keeps.tellAt _ _ _) hs hbroken fun _ s hs => .pure (hone s hs)
  · exact Task.Keeps.next (Task.Keeps.tellAt _ _ _) hs hbroken fun _ s hs => .pure (hone s hs)
  · refine Runs.bind (P := fun _ s' => s'.world.log = log ++ [.asked r] ++
      [.asked { r with program := r.program.costless }]) ?_ fun b s hs => ?_
    · refine Runs.bind ((ask_recorded.imp fun _ _ h => ?_).weaken fun _ h =>
        (htwo _ ?_).mono fun _ h => h.1) fun _ _ h => .pure h
      · rw [h, hs]
        rfl
      · rw [h, hs]
        rfl
    · exact ((noOptimum_keeps_world (W := fun w : Recorded α σ => w.log = log ++ [.asked r] ++
        [.asked { r with program := r.program.costless }]) _ _ _ s hs).imp
          fun _ s' h => htwo s' h.2).weaken fun s' h => (htwo s' h).mono fun _ h => h.1
  · exact ((noOptimum_keeps_world (W := fun w : Recorded α σ => w.log = log ++ [.asked r]) _ _ _ s
      hs).imp fun _ s' h => hone s' h.2).weaken hbroken
  · refine Task.Keeps.next (Task.Keeps.now _) hs hbroken fun _ s hs => ?_
    exact Task.Keeps.next (Task.Keeps.tellAt _ _ _) hs hbroken fun _ s hs => .pure (hone s hs)

/-- One relaxation is one program that the solver is asked to solve; crossed bounds are refused
without a question. -/
theorem simplex_asks (params : Parameter.Simplex α) (hs : s.world.log = log) :
    Runs (simplex host.recorded params p) s (fun r s' => (∃ b, r.1 = p.withBasic b) ∧
      LogsOn (fun rs => p.Asks rs ∧ (r.2 ≠ .badBounds → p.Consults rs)) log s')
      fun s' => LogsOn p.Asks log s' := by
  have hwrites : Runs (simplex host.recorded params p) s
      (fun r s' => (∃ b, r.1 = p.withBasic b) ∧ True) fun _ => True :=
    (simplex_writes host.recorded p params s trivial).weaken fun _ _ => trivial
  have hasks : Runs (simplex host.recorded params p) s
      (fun r s' => LogsOn (fun rs => p.Asks rs ∧ (r.2 ≠ .badBounds → p.Consults rs)) log s')
      fun s' => LogsOn p.Asks log s' := by
    unfold simplex
    cases p.badBounds with
    | some why =>
      have hnone : ∀ s' : Session α (Recorded α σ), s'.world.log = log → LogsOn p.Asks log s' := by
        intro s' hlog
        exact ⟨[], by simp [hlog], asks_nil p⟩
      exact Task.Keeps.next (Task.Keeps.tellAt _ _ _) hs hnone fun _ s hs =>
        .pure ((hnone s hs).mono fun _ h => ⟨h, fun hcode => absurd rfl hcode⟩)
    | none =>
      exact (solveBasic_asks _ _ _ hs).imp fun _ _ h => h.mono fun _ h => ⟨h.1, fun _ => h⟩
  exact ((hwrites.and hasks).imp fun _ _ h => ⟨h.1.1, h.2⟩).weaken fun _ h => h.2

end

end MixedInteger
