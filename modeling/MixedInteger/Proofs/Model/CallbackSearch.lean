import MixedInteger.Proofs.Model.LazyRows
import MixedInteger.Proofs.Model.Solve
import MixedInteger.Proofs.Search.Shown

/-! Searches of a model with a callback that adds constraints of a family. The listener of such a
search notes the bound of the best node and then calls the callback; what it leaves is the tree
with some rows of the family. -/

namespace MixedInteger

open Extended Finset SearchTask

variable {σ : Type}

/-! ### A host that is watched -/

theorem Host.watched_isExact {host : Host Extended σ} (h : host.IsExact) : host.watched.IsExact :=
  fun r w a hr ha => h r w.world a hr ha

theorem Host.reaches_of_watched {host : Host Extended σ} {Allowed : Row Extended → Prop}
    {p : Problem Extended} {x : ℕ → ℚ} (h : host.watched.Reaches Allowed p x) :
    host.Reaches Allowed p x := by
  refine h.imp_right ?_
  rintro ⟨q, hq, r, w, a, hprogram, hsolve, hanswer⟩
  exact ⟨q, hq, r, w.world, a, hprogram, hsolve, hanswer⟩

/-! ### Announcements -/

/-- The scene when an event is over. -/
def Scene.silenced (s : Scene Extended σ) : Scene Extended σ :=
  { s with tree := { s.tree with reason := none } }

theorem SearchTask.announce_runs {hear : Listener Extended σ} {r : Reason} {s : Scene Extended σ}
    {P : Unit → Scene Extended σ → Prop} {E : Scene Extended σ → Prop}
    (h : Runs hear { s with tree := { s.tree with reason := some r } }
      (fun b s' => P b s'.silenced) fun s' => E s'.silenced) :
    Runs (announce (some hear) r) s P E := by
  unfold Runs announce at *
  dsimp only
  cases hrun : hear { s with tree := { s.tree with reason := some r } } with
  | ok b s' =>
    rw [hrun] at h
    exact h
  | error e s' =>
    rw [hrun] at h
    exact h

/-! ### Families of constraints -/

namespace Model

/-- The rows of the constraints of a family. -/
def RowOf (m : Model Extended) (F : List LazyConstraint) (r : Row Extended) : Prop :=
  ∃ e ∈ F, r = e.row m

/-- What a search of the model hands to a callback, with the tree. -/
structure Hands (m : Model Extended) (d : CallbackData Extended) (t : Tree Extended) : Prop where
  valid : d.valid = true
  wf : d.model.WellFormed
  vars : d.model.vars = m.vars
  columnCount : d.model.problem.columnCount = m.problem.columnCount
  columns : t.problem.columnCount = m.problem.columnCount

end Model

/-- What an event makes of a tree: some rows of the family are added at most, and the search may
have been asked to end. When none is added at row generation the point is accepted. -/
def Tree.Responds (m : Model Extended) (F : List LazyConstraint) (Accepted : (ℕ → ℚ) → Prop)
    (t t' : Tree Extended) : Prop :=
  t.Grows (m.RowOf F) t' ∧
    (t.reason = some .rowGeneration → t'.problem.rows = t.problem.rows →
      ∀ x, t.problem.basic.colPrimal = firstValues m.problem.columnCount x → Accepted x)

/-- This is what the callback does whenever it returns. -/
def Callback.Complies (call : Callback Extended σ) (m : Model Extended) (F : List LazyConstraint)
    (Accepted : (ℕ → ℚ) → Prop) : Prop :=
  ∀ d s s', m.Hands d s.tree → call d s = .ok () s' → s.tree.Responds m F Accepted s'.tree

/-- What is left to a listener that has noted the bound. -/
def Model.respond {α : Type} [Scalar α] (m : Model α) (callback : Option (Callback α σ)) :
    Listener α (Watched α σ) :=
  match callback with
  | none => pure ()
  | some call => m.hear call

theorem Model.watch_eq {α : Type} [Scalar α] (m : Model α) (callback : Option (Callback α σ)) :
    m.watch callback = tree >>= fun t => match t.best with
      | some n => do
        modify fun s => { s with session := { s.session with
          world := { s.session.world with bound := n.bound, gap := t.gap } } }
        m.respond callback
      | none => m.respond callback := by
  unfold Model.watch
  congr 1
  funext t
  cases t.best <;> cases callback <;> rfl

section
variable {m : Model Extended} {callback : Option (Callback Extended σ)} {F : List LazyConstraint}
  {Accepted : (ℕ → ℚ) → Prop} {s : Scene Extended (Watched Extended σ)} (hm : m.WellFormed)
  (hcallback : ∀ call, callback = some call → call.Complies m F Accepted)
  (hnone : callback = none → ∀ x, Accepted x)
  (hcolumns : s.tree.problem.columnCount = m.problem.columnCount)
include hm hcallback hnone hcolumns

theorem Model.respond_runs :
    Runs (m.respond callback) s
      (fun _ s' => s.tree.Responds m F Accepted s'.tree ∧
        s'.session.world.bound = s.session.world.bound)
      fun s' => s'.session.world.bound = s.session.world.bound := by
  cases hcall : callback with
  | none =>
    exact .pure ⟨⟨⟨s.tree.problem, s.tree.stopped, s.tree.reason, rfl, .refl _⟩,
      fun _ _ x _ => hnone hcall x⟩, rfl⟩
  | some call =>
    have hhands : m.Hands { model := m.withWatched s.session.world } s.tree :=
      ⟨rfl, hm.congr rfl rfl rfl rfl, rfl, rfl, hcolumns⟩
    unfold Model.respond Runs Model.hear
    dsimp only
    cases hrun : call { model := m.withWatched s.session.world } ⟨s.session.unwatched, s.tree⟩ with
    | ok u s' => exact ⟨hcallback call hcall _ _ _ hhands hrun, rfl⟩
    | error e s' => exact rfl

/-- The listener notes the bound of the best node, and does what the callback does. -/
theorem Model.watch_runs :
    Runs (m.watch callback) s
      (fun _ s' => s.tree.Responds m F Accepted s'.tree ∧
        ∀ b, s.tree.best = some b → s'.session.world.bound = b.bound)
      fun s' => ∀ b, s.tree.best = some b → s'.session.world.bound = b.bound := by
  have hrest : ∀ w : Watched Extended σ, (∀ b, s.tree.best = some b → w.bound = b.bound) →
      Runs (m.respond callback) { s with session := { s.session with world := w } }
        (fun _ s' => s.tree.Responds m F Accepted s'.tree ∧
          ∀ b, s.tree.best = some b → s'.session.world.bound = b.bound)
        fun s' => ∀ b, s.tree.best = some b → s'.session.world.bound = b.bound := by
    intro w hw
    have hrespond := respond_runs (s := { s with session := { s.session with world := w } }) hm
      hcallback hnone hcolumns
    exact (hrespond.imp fun _ _ h => ⟨h.1, fun b hb => h.2.trans (hw b hb)⟩).weaken
      fun _ h b hb => h.trans (hw b hb)
  rw [m.watch_eq]
  refine tree_bind ?_
  cases hbest : s.tree.best with
  | none =>
    rw [hbest] at hrest
    exact hrest s.session.world nofun
  | some n =>
    rw [hbest] at hrest
    exact hrest { s.session.world with bound := n.bound, gap := s.tree.gap } (by rintro _ ⟨⟩; rfl)

end

/-! ### The problem with all rows of a family -/

namespace Problem

variable {p q : Problem Extended} {Allowed : Row Extended → Prop} {x : ℕ → ℚ}

theorem feasible_withBasic (b : Solution Extended) : (p.withBasic b).Feasible x ↔ p.Feasible x :=
  ⟨fun h => ⟨⟨h.relaxed.within, h.relaxed.holds⟩, h.integral⟩,
    fun h => ⟨⟨h.relaxed.within, h.relaxed.holds⟩, h.integral⟩⟩

theorem Rational.withBasic (h : p.Rational) (b : Solution Extended) : (p.withBasic b).Rational :=
  ⟨h.constant, h.cost, h.proper, h.whole, h.rows⟩

theorem Subproblem.of_withBasic {b : Solution Extended} (h : q.Subproblem Allowed (p.withBasic b)) :
    q.Subproblem Allowed p := by
  obtain ⟨_, box, ⟨extra, rfl, hextra⟩, hbox, hrest⟩ := h
  exact ⟨_, box, ⟨extra, rfl, hextra⟩, ⟨hbox.direction, hbox.constant, hbox.rows, hbox.columns,
    hbox.crossed⟩, hrest⟩

/-- A point of the problem at which all allowed rows hold is one of every problem with more rows. -/
theorem Grown.feasible_of_allowed (h : q.Grown Allowed p) (hx : p.Feasible x)
    (hallowed : ∀ r, Allowed r → r.Holds p.columnCount x) : q.Feasible x := by
  obtain ⟨extra, rfl, hextra⟩ := h
  refine ⟨⟨hx.relaxed.within, fun r hr => ?_⟩, hx.integral⟩
  rcases List.mem_append.1 hr with hr | hr
  · exact hx.relaxed.holds r hr
  · exact hallowed r (hextra r hr)

end Problem

namespace Model

variable {m : Model Extended} {F : List LazyConstraint}

/-- The problem of a search with the rows of all constraints of a family. -/
def guarded (m : Model Extended) (F : List LazyConstraint) : Problem Extended :=
  m.inner.problem.withRows (m.inner.problem.rows ++ F.map (·.row m))

/-- Its feasible points are the assignments that satisfy the model and the family. -/
theorem feasible_guarded_iff (hm : m.Sound) (hr : m.Rational) (hF : ∀ e ∈ F, e.Proper m)
    (z : Assignment) :
    (m.guarded F).Feasible (m.pointOf z) ↔ m.Satisfied z ∧ ∀ e ∈ F, e.Holds z := by
  have hrow : ∀ e ∈ F, ((e.row m).Holds m.inner.problem.columnCount (m.pointOf z) ↔ e.Holds z) := by
    intro e he
    rw [hm.named.wf.innerCount]
    exact (hF e he).holds_row hm.named.wf z
  rw [← hm.feasible_inner_iff hr]
  constructor
  · intro h
    refine ⟨h.of_withRows fun r hr => List.mem_append_left _ hr, fun e he => (hrow e he).1 ?_⟩
    exact h.relaxed.holds _ (List.mem_append_right _ (List.mem_map_of_mem he))
  · rintro ⟨h, hF⟩
    refine ⟨⟨h.relaxed.within, fun r hr => ?_⟩, h.integral⟩
    rcases List.mem_append.1 hr with hr | hr
    · exact h.relaxed.holds r hr
    · obtain ⟨e, he, rfl⟩ := List.mem_map.1 hr
      exact (hrow e he).2 (hF e he)

/-- Problems with rows of the family have the points of the problem with all of them. -/
theorem feasible_of_guarded {q : Problem Extended} {b : Solution Extended}
    (hq : q.Grown (m.RowOf F) (m.inner.problem.withBasic b)) {x : ℕ → ℚ}
    (hx : (m.guarded F).Feasible x) : q.Feasible x := by
  have hinner := hx.of_withRows fun r hr => List.mem_append_left _ hr
  refine hq.feasible_of_allowed ((Problem.feasible_withBasic b).2 hinner) ?_
  rintro _ ⟨e, he, rfl⟩
  exact hx.relaxed.holds _ (List.mem_append_right _ (List.mem_map_of_mem he))

end Model

/-- An answer for a problem is one for a problem with fewer points, and for the same problem with
another solution stored. -/
theorem Search.Outcome.of_guarded {p q q' : Problem Extended} {b : Solution Extended} {aim : Aim}
    {code : ReturnCode} {sol : Solution Extended}
    (h : Search.Outcome (p.withBasic b) q aim code sol)
    (hq : ∀ x, q'.Feasible x → q.Feasible x) : Search.Outcome p q' aim code sol where
  found := h.found
  optimal hdone hoptimal z hz := h.optimal hdone hoptimal z (hq z hz)
  gap hgap := ⟨(h.gap hgap).1, fun hranks g hg z hz => (h.gap hgap).2 hranks g hg z (hq z hz)⟩
  none hnone z hz := h.none hnone z (hq z hz)
  verdict := h.verdict
  done := h.done

/-! ### The setting -/

namespace Model

variable (m : Model Extended)

/-- The model when its search begins. -/
def posed (b : Solution Extended) (presolve : ℤ) : Model Extended :=
  ((m.begun.withColumns m.innerColumns).withBasis b).withPresolve presolve

/-- No point of the problem is better than the bound by more than the shift. -/
def BoundsSearch (F : List LazyConstraint) (shift : ℚ) (b : Extended) : Prop :=
  ∀ x, (m.guarded F).Feasible x →
    m.inner.problem.sense * b ≤ rat (m.inner.problem.sign * m.inner.problem.valueOf x + shift)

end Model

/-- A model that is searched with an exact host, and a callback that adds constraints of a family
until the points of relaxations are accepted. -/
structure LazySearch (m : Model Extended) (host : Host Extended σ)
    (callback : Option (Callback Extended σ)) (F : List LazyConstraint)
    (Accepted : (ℕ → ℚ) → Prop) (aim : Aim) : Prop where
  sound : m.Sound
  rational : m.Rational
  proper : ∀ e ∈ F, e.Proper m
  exact : host.IsExact
  complies : ∀ call, callback = some call → call.Complies m F Accepted
  accepts : callback = none → ∀ x, Accepted x
  kept : ∀ x, m.inner.problem.Relaxed x → m.inner.problem.NearIntegral x aim.integer →
    host.Reaches (m.RowOf F) m.inner.problem x → Accepted x →
      aim.Kept (m.inner.problem.rounded x)
  near : ∀ x, m.inner.problem.NearIntegral x aim.integer →
    host.Reaches (m.RowOf F) m.inner.problem x →
      |m.inner.problem.valueOf (m.inner.problem.rounded x) - m.inner.problem.valueOf x| ≤ aim.shift

namespace LazySearch

variable {m : Model Extended} {host : Host Extended σ} {callback : Option (Callback Extended σ)}
  {F : List LazyConstraint} {Accepted : (ℕ → ℚ) → Prop} {aim : Aim}
  (h : LazySearch m host callback F Accepted aim) (b : Solution Extended) (k : ℤ)
include h

theorem wellFormed_posed : (m.posed b k).WellFormed :=
  h.sound.named.wf.congr rfl rfl h.sound.named.wf.innerCount rfl

theorem complies_posed (call : Callback Extended σ) (hcall : callback = some call) :
    call.Complies (m.posed b k) F Accepted := by
  have hcount : (m.posed b k).problem.columnCount = m.problem.columnCount :=
    h.sound.named.wf.innerCount
  intro d s s' hhands hrun
  have hresponds := h.complies call hcall d s s'
    ⟨hhands.valid, hhands.wf, hhands.vars, hhands.columnCount.trans hcount,
      hhands.columns.trans hcount⟩ hrun
  rw [Tree.Responds, ← hcount] at hresponds
  exact hresponds

omit h in
theorem reaches_posed {x : ℕ → ℚ}
    (hx : host.watched.Reaches ((m.posed b k).RowOf F) (m.posed b k).problem x) :
    host.Reaches (m.RowOf F) m.inner.problem x := by
  refine (Host.reaches_of_watched hx).imp_right ?_
  rintro ⟨q, hq, hanswered⟩
  exact ⟨q, Problem.Subproblem.of_withBasic (b := b) hq, hanswered⟩

omit h in
/-- A tree that is shown has the columns of the model. -/
theorem columnCount_of_ready {t : Tree Extended}
    (ht : t.Ready (m.posed b k).problem aim ((m.posed b k).RowOf F)) :
    t.problem.columnCount = (m.posed b k).problem.columnCount := by
  obtain ⟨box, hbox, -⟩ := ht.sound.works.boxed
  obtain ⟨extra, hbase, -⟩ := ht.grown
  refine hbox.columnCount.trans ?_
  rw [hbase]
  rfl

/-- What an event does to a tree that is shown. -/
theorem announce_runs (r : Reason) {s : Scene Extended (Watched Extended σ)}
    (hs : s.tree.Ready (m.posed b k).problem aim ((m.posed b k).RowOf F)) :
    Runs (announce (some ((m.posed b k).watch callback)) r) s
      (fun _ s' => ∃ t, s'.tree = { t with reason := none } ∧
        Tree.Responds (m.posed b k) F Accepted { s.tree with reason := some r } t ∧
        ∀ n, s.tree.best = some n → s'.session.world.bound = n.bound)
      fun s' => ∀ n, s.tree.best = some n → s'.session.world.bound = n.bound := by
  have hcount := columnCount_of_ready b k hs
  have hwatch := Model.watch_runs (s := { s with tree := { s.tree with reason := some r } })
    (h.wellFormed_posed b k) (h.complies_posed b k) h.accepts hcount
  exact SearchTask.announce_runs (hwatch.imp fun _ s' hs' => ⟨s'.tree, rfl, hs'⟩)

/-- The setting of the search. -/
def setting (bound : Extended) : Search.Setting
    ⟨host.watched, some ((m.posed b k).watch callback)⟩ (m.posed b k).problem where
  aim := aim
  Allowed := (m.posed b k).RowOf F
  Accepted := Accepted
  World w := w.bound = bound
  Track _ _ := True
  rational := (h.sound.rational_inner h.rational).withBasic b
  exact := Host.watched_isExact h.exact
  allowed := by
    rintro _ ⟨e, he, rfl⟩
    have hproper : e.Proper (m.posed b k) := (h.proper e he).congr rfl
    exact hproper.rational
  world _ _ hw := hw
  start _ _ _ := trivial
  keeps _ := Host.keeps_true _
  leads _ _ _ _ _ := trivial
  kept x hx hnear hreaches haccepted :=
    h.kept x ⟨hx.within, hx.holds⟩ hnear (reaches_posed b k hreaches) haccepted
  near x hnear hreaches := h.near x hnear (reaches_posed b k hreaches)
  hears r s hs _ := by
    refine ((h.announce_runs b k r hs).imp ?_).weaken fun _ _ => ⟨s.tree, trivial⟩
    rintro _ s' ⟨t, htree, ⟨⟨q, stopped, reason, rfl, hq⟩, haccepts⟩, -⟩
    rw [htree]
    refine ⟨⟨q, stopped, none, rfl, hq⟩, trivial, ?_⟩
    rintro rfl hrows
    exact haccepts rfl hrows

/-- Where points are ranked, each event leaves a bound for the problem with all rows of the
family. -/
theorem setting_marks (bound : Extended) :
    (h.setting b k bound).Marks fun w => aim.Ranks → m.BoundsSearch F aim.shift w.bound where
  keeps _ _ hw := hw
  hears r s hs _ := by
    obtain ⟨n, -, hbest, hleast⟩ := hs.sound.exists_best hs.active
    have hmark : ∀ s' : Scene Extended (Watched Extended σ),
        (∀ n, s.tree.best = some n → s'.session.world.bound = n.bound) →
          aim.Ranks → m.BoundsSearch F aim.shift s'.session.world.bound := by
      intro s' hs' hranks x hx
      obtain ⟨n', hn', hbound⟩ := hs.bounds hranks x (Model.feasible_of_guarded hs.grown hx)
      have hle := le_trans (hleast n' hn') hbound
      obtain ⟨extra, hbase, -⟩ := hs.grown
      rw [hbase] at hle
      rw [hs' n hbest]
      exact hle
    exact ((h.announce_runs b k r hs).imp fun _ s' ⟨_, _, _, hs'⟩ => hmark s' hs').weaken hmark

/-- What a search of the model finds, and the bound that it leaves. -/
theorem finds (hint : m.stores.search.integerTolerance = rat aim.integer)
    (hobj : aim.Ranks → m.stores.search.objectiveTolerance = rat aim.objective)
    (hgap : m.stores.search.gap = aim.gap) (fuel : ℕ) :
    Solving.Finds (m.begun.withColumns m.innerColumns) host callback fuel fun code sol v =>
      Search.Outcome m.inner.problem (m.guarded F) aim code sol ∧
        ((aim.Ranks → m.BoundsSearch F aim.shift v.bound) ∨
          v.bound = m.last.objectiveBound ∧ sol.status = .undefined ∧ code.GivesUp) := by
  intro b k session
  have hint' : (m.posed b k).stores.search.integerTolerance = rat aim.integer := hint
  have hrun := Search.Setting.intopt_marks (h.setting_marks b k m.last.objectiveBound) hint' hobj
    hgap fuel (s := session.watched m.last.objectiveBound m.last.relativeGap) rfl
  change Runs (intopt ⟨host.watched, some ((m.posed b k).watch callback)⟩
    (m.posed b k).stores.search fuel (m.posed b k).problem)
    (session.watched m.last.objectiveBound m.last.relativeGap) _ _
  refine (hrun.imp ?_).weaken fun _ _ => trivial
  rintro ⟨_, code⟩ s' ⟨sol, rfl, hunbegun | ⟨⟨⟨q, hq, houtcome⟩, -⟩, hmark⟩⟩
  · have houtcome : Search.Outcome m.inner.problem (m.guarded F) aim code sol :=
      hunbegun.outcome.of_guarded fun x hx => Model.feasible_of_guarded (.refl _) hx
    refine ⟨houtcome, hunbegun.early.imp (fun hnone _ x hx => absurd hx (houtcome.none hnone x)) ?_⟩
    exact fun hearly => ⟨hunbegun.world, hearly⟩
  · exact ⟨houtcome.of_guarded fun x => Model.feasible_of_guarded hq, .inl hmark⟩

end LazySearch

end MixedInteger
