import MixedInteger.Proofs.Search.Carried
import MixedInteger.Proofs.Search.Followed
import MixedInteger.Proofs.Search.NodeBounds

/-! Taking nodes in hand leaves no traces. While a node is worked on, the columns of the working
problem have the bounds that they have below the node, at every event and in every program that the
solver is asked to solve. The nodes themselves come of splitting a node in hand at a fractional
value of an integer column. This holds in whatever order the nodes are taken in hand, if only the
listener writes no bounds. -/

namespace MixedInteger

open Scalar SearchTask

variable {α σ γ : Type} [Scalar α] {root : List (α × α)}

/-! ### Programs -/

/-- The program has given bounds; it lists those that are finite. -/
def LinearProgram.Bears (lp : LinearProgram α) (g : Nat → α × α) : Prop :=
  ∀ i b, lp.bounds[i]? = some b → ∃ s, SameSides s (g (i + 1)) ∧ b = (finite? s.1, finite? s.2)

/-- The solver is asked for programs with the bounds of the columns. -/
theorem Problem.Asks.bears {p : Problem α} {rs : List (Request α)} (h : p.Asks rs)
    {g : Nat → α × α} (hp : p.Bears [] g) : ∀ r ∈ rs, r.program.Bears g := by
  have hbounds : ∀ lp : LinearProgram α, lp.bounds = p.linearProgram.bounds → lp.Bears g := by
    intro lp hlp i b hb
    rw [hlp, linearProgram, List.getElem?_map] at hb
    obtain ⟨c, hc, rfl⟩ := Option.map_eq_some_iff.1 hb
    exact ⟨c.sides, hp i c hc List.not_mem_nil, rfl⟩
  obtain ⟨q, hq, hprefix⟩ := h
  intro r hr
  have hmem := hprefix.subset hr
  simp only [List.mem_cons, List.not_mem_nil, or_false] at hmem
  obtain rfl | rfl := hmem
  · exact hbounds _ (by rw [hq])
  · exact hbounds _ (by rw [hq]; rfl)

namespace Search

/-! ### What a record tells -/

/-- At an event the relaxation of a node in hand is shown, and the other node is what comes of
splitting it at a fractional value of an integer column. -/
structure Event.Parts (root : List (α × α)) (e : Event α) (n m : Node α) (f : Fraction α) :
    Prop where
  reason : e.shown.reason = some .rowGeneration
  holds : e.shown.Holds root n
  integer : ∃ c, (f.column, c) ∈ e.left.problem.numberedColumns ∧ c.kind = .integer
  value : f.value = valueAt e.left.problem.basic.colPrimal f.column
  fractional : ∃ fs, e.after.fractional = .ok fs ∧ f ∈ fs
  tightens : ∃ b, n.Tightens root m f b

/-- A node is the root, or it came of splitting a node that was in hand. -/
def Born (root : List (α × α)) (before : List (Happening α)) (m : Node α) : Prop :=
  m.parent = 0 ∧ m.boxes = [] ∨ ∃ e n f, .heard e ∈ before ∧ e.Parts root n m f

/-- What an event may show: the node in hand with its bounds, or none where the next node is to be
selected; and only nodes that came of splitting. -/
structure Event.Fits (root : List (α × α)) (before : List (Happening α)) (e : Event α) :
    Prop where
  rootBounds : e.shown.rootBounds = root
  nodup : (e.shown.active.map (·.number)).Nodup
  holds : e.shown.reason = some .selection ∧ e.shown.current = none ∨ ∃ n, e.shown.Holds root n
  born : ∀ m ∈ e.shown.active, Born root before m
  /-- Whichever nodes were taken in hand before, the last one would have its own bounds. -/
  anyOrder : ∀ ns n, (∀ m ∈ ns, m ∈ e.shown.active) → n ∈ e.shown.active →
    ∃ t, (ns ++ [n]).foldlM Tree.activate e.shown = .ok t ∧ t.Holds root n

/-- What the solver may be asked: a program with the bounds at the root before there are nodes, and
then with those of the node that was in hand at the last event. -/
def Happening.Fits (root : List (α × α)) (before : List (Happening α)) : Happening α → Prop
  | .heard e => e.Fits root before
  | .asked r => ∃ rs : List (Request α),
      before = rs.map .asked ∧ r.program.Bears (sidesAtRoot root) ∨
      ∃ es e n, before = es ++ .heard e :: rs.map .asked ∧ e.shown.Holds root n ∧
        r.program.Bears (n.boundsAt root)

/-- Whatever happens fits what happened before. -/
def Faithful (root : List (α × α)) (es : List (Happening α)) : Prop :=
  ∀ before h, before ++ [h] <+: es → h.Fits root before

variable {es : List (Happening α)}

theorem faithful_nil : Faithful root ([] : List (Happening α)) := by
  intro before h hprefix
  simp at hprefix

theorem Faithful.snoc (hes : Faithful root es) {h : Happening α} (hh : h.Fits root es) :
    Faithful root (es ++ [h]) := by
  intro before h' hprefix
  obtain heq | hprefix := List.prefix_concat_iff.1 hprefix
  · obtain ⟨rfl, hlast⟩ := List.append_inj' heq rfl
    cases hlast
    exact hh
  · exact hes before h' hprefix

/-- Questions, one after the other. -/
theorem Faithful.asked (hes : Faithful root es) (rs : List (Request α))
    (hrs : ∀ done r rest, rs = done ++ r :: rest →
      Happening.Fits root (es ++ done.map .asked) (.asked r)) :
    Faithful root (es ++ rs.map .asked) := by
  induction rs using List.reverseRecOn with
  | nil => simpa using hes
  | append_singleton rs r ih =>
    rw [List.map_append, ← List.append_assoc]
    refine (ih fun done q rest heq => ?_).snoc (hrs rs r [] rfl)
    exact hrs done q (rest ++ [r]) (by rw [heq, List.append_assoc]; rfl)

theorem Born.mono {before : List (Happening α)} {m : Node α} (h : Born root before m)
    (hsub : before <+: es) : Born root es m := by
  obtain h | ⟨e, n, f, he, hparts⟩ := h
  · exact .inl h
  · exact .inr ⟨e, n, f, hsub.subset he, hparts⟩

/-! ### Scenes -/

variable [ValuedScalar α]

/-- The listener writes no bounds. It may add rows, ask for the end, or fail. -/
def SparesBounds (hear : Listener α σ) : Prop :=
  ∀ s s', hear s = .ok () s' → s.tree.SparesBounds s'.tree

/-- What holds of a scene at any time. -/
structure Tracked (root : List (α × α)) (s : Scene α (Recorded α σ)) : Prop where
  tree : s.tree.Restorable root
  log : Faithful root s.log
  born : ∀ m ∈ s.tree.active, Born root s.log m

/-- What holds of a scene before a step. A node that has to be solved is in hand, and it was so at
the last event. -/
structure Poised (root : List (α × α)) (φ : Phase α) (s : Scene α (Recorded α σ)) :
    Prop extends Tracked root s where
  holds : ∀ n, φ = .visit n → s.tree.Holds root n ∧
    ∃ es e, s.log = es ++ [.heard e] ∧ e.shown.Holds root n

/-- What holds of a scene after a step. -/
def Proceeds (root : List (α × α)) (next : Next α) (s : Scene α (Recorded α σ)) : Prop :=
  match next with
  | .go φ => Poised root φ s
  | .done _ => Faithful root s.log

/-- What a listener was shown, and the scene with which the search goes on. -/
structure Noted (r : Reason) (e : Event α) (s s' : Scene α (Recorded α σ)) : Prop where
  shown : e.shown = { s.tree with reason := some r }
  log : s'.log = s.log ++ [.heard e]
  tree : s'.tree = e.after
  spared : s.tree.SparesBounds s'.tree

section
variable {host : Host α σ} {hear : Listener α σ} {s s' : Scene α (Recorded α σ)} {n : Node α}

/-- A step that writes nothing down and spares bounds. -/
theorem Tracked.next (h : Tracked root s) (hs : s.tree.SparesBounds s'.tree)
    (hlog : s'.log = s.log) : Tracked root s' where
  tree := h.tree.spared hs
  log := hlog ▸ h.log
  born := by
    rw [hs.active, hlog]
    exact h.born

/-- A change of the tree to which no nodes are added. -/
theorem Tracked.modify (h : Tracked root s) {t : Tree α} (ht : t.Restorable root)
    (hactive : ∀ m ∈ t.active, m ∈ s.tree.active) : Tracked root { s with tree := t } :=
  ⟨ht, h.log, fun m hm => h.born m (hactive m hm)⟩

theorem Tracked.choose (h : Tracked root s) : Poised root .choose s :=
  ⟨h, fun _ hφ => nomatch hφ⟩

theorem Noted.holds {r : Reason} {e : Event α} (h : Noted r e s s') (hn : s.tree.Holds root n) :
    e.shown.Holds root n := by
  rw [h.shown]
  exact ⟨hn.active, hn.current, hn.bears⟩

/-- After an event the node in hand may be solved once more. -/
theorem Noted.visit {r : Reason} {e : Event α} (h : Noted r e s s') (hs' : Tracked root s')
    (hn : s.tree.Holds root n) : Poised root (.visit n) s' := by
  refine ⟨hs', ?_⟩
  rintro _ ⟨⟩
  exact ⟨hn.spared h.spared, s.log, e, h.log, h.holds hn⟩

theorem announce_spares (hhear : SparesBounds hear) (r : Reason) :
    Runs (announce (Company.recorded host hear).listener r) s
      (fun _ s' => ∃ e, Noted r e s s')
      fun s' => ∃ e : Event α, e.shown = { s.tree with reason := some r } ∧
        s'.log = s.log ++ [.heard e] := by
  let s₁ : Scene α σ :=
    ⟨⟨s.session.world.world, s.session.journal⟩, { s.tree with reason := some r }⟩
  unfold Runs announce Company.recorded Listener.recorded
  dsimp only
  cases hrun : hear s₁ with
  | ok _ s' =>
    have hspares := hhear s₁ s' hrun
    exact ⟨⟨s₁.tree, s'.tree, false⟩, rfl, rfl, rfl, hspares.sides, hspares.integer,
      hspares.rootBounds, hspares.touched, hspares.active, hspares.current, hspares.nextNumber⟩
  | error _ s' => exact ⟨⟨s₁.tree, s'.tree, true⟩, rfl, rfl⟩

/-- An event where the next node is to be selected, or while a node is in hand. -/
theorem heard_tracked (hhear : SparesBounds hear) (h : Tracked root s) {r : Reason}
    (hr : r = .selection ∧ s.tree.current = none ∨ ∃ n, s.tree.Holds root n)
    {f : Bool → SearchTask α (Recorded α σ) (Next α)} (hstop : f true = pure (.done .stopped))
    (hnext : ∀ e s', Noted r e s s' → Tracked root s' →
      Runs (f false) s' (Proceeds root) fun s' => Faithful root s'.log) :
    Runs (heard (.recorded host hear) r >>= f) s (Proceeds root)
      fun s' => Faithful root s'.log := by
  have hlog : ∀ e : Event α, e.shown = { s.tree with reason := some r } →
      Faithful root (s.log ++ [.heard e]) := by
    intro e he
    have hshown : e.shown.Restorable root := by
      rw [he]
      exact h.tree.spared (.of_columns rfl rfl)
    refine h.log.snoc ⟨hshown.rootBounds, hshown.nodup, ?_, ?_, fun ns n => hshown.activateAll⟩
    · rw [he]
      obtain ⟨rfl, hcurrent⟩ | ⟨n, hn⟩ := hr
      · exact .inl ⟨rfl, hcurrent⟩
      · exact .inr ⟨n, hn.active, hn.current, hn.bears⟩
    · rw [he]
      exact h.born
  have hassoc : heard (.recorded host hear) r >>= f =
      announce (Company.recorded host hear).listener r >>= fun _ =>
        (tree : SearchTask α (Recorded α σ) (Tree α)) >>= fun t => f t.stopped := by
    rw [heard, bind_assoc]
    rfl
  rw [hassoc]
  refine Runs.bind ((announce_spares hhear r).weaken ?_) ?_
  · rintro s' ⟨e, he, hs'⟩
    rw [hs']
    exact hlog e he
  · rintro _ s' ⟨e, hnoted⟩
    have htracked : Tracked root s' :=
      { tree := h.tree.spared hnoted.spared
        log := by
          rw [hnoted.log]
          exact hlog e hnoted.shown
        born := fun m hm => by
          rw [hnoted.spared.active] at hm
          rw [hnoted.log]
          exact (h.born m hm).mono (List.prefix_append _ _) }
    refine tree_bind ?_
    cases s'.tree.stopped with
    | true =>
      rw [hstop]
      exact .pure htracked.log
    | false => exact hnext e s' hnoted htracked

/-! ### Solving a node -/

theorem takePoint_tracked (hhear : SparesBounds hear) (h : Tracked root s)
    (hn : s.tree.Holds root n) : Runs (takePoint (Company.recorded host hear) n) s
      (Proceeds root) fun s' => Faithful root s'.log := by
  have hdone : ∀ s' : Scene α (Recorded α σ), Tracked root s' →
      Proceeds root (.go .choose) { s' with tree := (s'.tree.fathom n).prune } := by
    intro s' h'
    refine (h'.modify (h'.tree.fathom n).prune fun m hm => ?_).choose
    exact (List.mem_filter.1 (List.mem_filter.1 hm).1).1
  unfold takePoint
  refine Runs.bind (record_recorded.weaken fun s' hs' => ?_) fun better s₁ h₁ => ?_
  · rw [hs']
    exact h.log
  cases better with
  | false =>
    obtain ⟨hlog₁, -, htree₁⟩ := h₁
    have hspared : s.tree.SparesBounds s₁.tree :=
      .of_columns (by rw [htree₁]) (by rw [htree₁])
    exact modifyTree_bind (.pure (hdone s₁ (h.next hspared hlog₁)))
  | true =>
    obtain ⟨hlog₁, i, -, htree₁⟩ := h₁
    have hspared : s.tree.SparesBounds s₁.tree :=
      .of_columns (by rw [htree₁]) (by rw [htree₁])
    refine heard_tracked hhear (h.next hspared hlog₁) (.inr ⟨n, hn.spared hspared⟩) rfl ?_
    intro e s₂ _ h₂
    exact modifyTree_bind (.pure (hdone s₂ h₂))

/-- The fractional columns that an event left. -/
structure Event.Finds (root : List (α × α)) (e : Event α) (n : Node α)
    (fs : List (Fraction α)) : Prop where
  reason : e.shown.reason = some .rowGeneration
  holds : e.shown.Holds root n
  restorable : e.after.Restorable root
  fractional : e.after.fractional = .ok fs

/-- Splitting a node at a column that an event left. -/
theorem Event.Finds.split {e : Event α} {fs : List (Fraction α)} (he : e.Finds root n fs)
    (hlog : .heard e ∈ s.log) (h : Tracked root s) (hn : s.tree.Holds root n) {f : Fraction α}
    (hf : f ∈ fs) : Tracked root { s with tree := s.tree.split n f fs } := by
  obtain ⟨⟨c, hc, hk⟩, hvalue, hfinite⟩ := Tree.mem_fractional he.fractional hf
  obtain ⟨hsplit, hchildren⟩ := h.tree.split (h.tree.boxed n hn.active)
    (he.restorable.wholeAtRoot hc hk) hfinite fs
  refine ⟨hsplit, h.log, fun m hm => ?_⟩
  obtain hm | htightens := hchildren m hm
  · exact h.born m hm
  · exact .inr ⟨e, n, f, hlog, he.reason, he.holds, ⟨c, hc, hk⟩, hvalue,
      ⟨fs, he.fractional, hf⟩, htightens⟩

theorem divide_tracked (hhear : SparesBounds hear) (h : Tracked root s)
    (hn : s.tree.Holds root n) {e : Event α} {fs : List (Fraction α)}
    (he : e.Finds root n fs) (hlog : .heard e ∈ s.log) :
    Runs (divide (Company.recorded host hear) n fs) s (Proceeds root)
      fun s' => Faithful root s'.log := by
  unfold divide
  refine modifyTree_if ?_
  generalize hs₁ : ({ s with tree := _ } : Scene α (Recorded α σ)) = s₁
  have hspared : s.tree.SparesBounds s₁.tree := by
    rw [← hs₁]
    split_ifs
    · exact .of_columns rfl rfl
    · exact .of_columns rfl rfl
  have hlog₁ : s₁.log = s.log := by rw [← hs₁]
  have hn₁ := hn.spared hspared
  refine heard_tracked hhear (h.next hspared hlog₁) (.inr ⟨n, hn₁⟩) rfl fun e₁ s₂ hnoted₂ h₂ => ?_
  have hn₂ := hn₁.spared hnoted₂.spared
  refine rowCount_bind (heard_tracked hhear h₂ (.inr ⟨n, hn₂⟩) rfl fun e₂ s₃ hnoted₃ h₃ => ?_)
  have hn₃ := hn₂.spared hnoted₃.spared
  refine rowCount_bind ?_
  split_ifs
  · exact .pure (hnoted₃.visit h₃ hn₂)
  refine heard_tracked hhear h₃ (.inr ⟨n, hn₃⟩) rfl fun e₃ s₄ hnoted₄ h₄ => ?_
  have hn₄ := hn₃.spared hnoted₄.spared
  have hlog₄ : .heard e ∈ s₄.log := by
    rw [hnoted₄.log, hnoted₃.log, hnoted₂.log, hlog₁]
    simp [hlog]
  refine tree_bind ?_
  cases hf : s₄.tree.choose fs with
  | none => exact .pure h₄.choose
  | some f =>
    have h₅ := he.split hlog₄ h₄ hn₄ (Tree.choose_mem hf)
    refine modifyTree_bind ((quiet_say _).next (fun s' hs' => ?_) fun _ s' htree hs' => ?_)
    · rw [hs']
      exact h₅.log
    · exact .pure (h₅.next (.of_columns (by rw [htree]) (by rw [htree])) hs').choose

omit [ValuedScalar α] in
theorem Born.congr {before : List (Happening α)} {m m' : Node α} (h : Born root before m)
    (hparent : m'.parent = m.parent) (hboxes : m'.boxes = m.boxes) : Born root before m' := by
  obtain h | ⟨e, n, f, he, hparts⟩ := h
  · exact .inl ⟨hparent.trans h.1, hboxes.trans h.2⟩
  · obtain ⟨b, htightens⟩ := hparts.tightens
    refine .inr ⟨e, n, f, he, { hparts with tightens := ⟨b, ?_⟩ }⟩
    exact
      { parent := hparent.trans htightens.parent
        boxes := by rw [hboxes]; exact htightens.boxes
        box := htightens.box
        within := htightens.within }

/-- A node in hand is given its own bound on the objective. -/
theorem Tracked.settle (h : Tracked root s) (hn : s.tree.Holds root n) (bound : α) :
    Tracked root { s with tree := s.tree.settle { n with bound := bound } } := by
  refine ⟨(h.tree.settle hn bound).1, h.log, List.forall_mem_map.2 fun m hm => ?_⟩
  split_ifs
  · exact (h.born n hn.active).congr rfl rfl
  · exact h.born m hm

theorem weigh_tracked (hhear : SparesBounds hear) (h : Tracked root s)
    (hn : s.tree.Holds root n) : Runs (weigh (Company.recorded host hear) n) s (Proceeds root)
      fun s' => Faithful root s'.log := by
  unfold weigh
  refine tree_bind (modifyTree_bind (modifyTree_bind (tree_bind ?_)))
  generalize s.tree.problem.basic.objective = objective
  have hlearn : s.tree.SparesBounds (s.tree.learn n objective) := by
    unfold Tree.learn
    split
    · exact .of_columns rfl rfl
    · split_ifs
      · exact .of_columns rfl rfl
      · exact .of_columns rfl rfl
  have hlearned : Tracked root { s with tree := s.tree.learn n objective } := h.next hlearn rfl
  have h₁ := hlearned.settle (hn.spared hlearn) objective
  have hn₁ := (hlearned.tree.settle (hn.spared hlearn) objective).2
  generalize ({ n with bound := objective } : Node α) = n' at *
  generalize hs₁ : ({ s with tree := _ } : Scene α (Recorded α σ)) = s₁
  have htree₁ : s₁.tree = (s.tree.learn n objective).settle n' := by rw [← hs₁]
  rw [← htree₁] at hn₁
  have h₁ : Tracked root s₁ := hs₁ ▸ h₁
  split_ifs
  · refine modifyTree_bind (.pure (h₁.modify (h₁.tree.fathom n') fun m hm => ?_).choose)
    exact (List.mem_filter.1 hm).1
  refine rowCount_bind (heard_tracked hhear h₁ (.inr ⟨n', hn₁⟩) rfl fun e s₂ hnoted h₂ => ?_)
  have hn₂ := hn₁.spared hnoted.spared
  refine rowCount_bind ?_
  split_ifs
  · exact .pure (hnoted.visit h₂ hn₁)
  refine tree_bind (ofRounding_next h₂.log fun fs hfs => ?_)
  split_ifs
  · exact takePoint_tracked hhear h₂ hn₂
  · have hfinds : e.Finds root n' fs :=
      ⟨by rw [hnoted.shown], hnoted.holds hn₁, hnoted.tree ▸ h₂.tree, hnoted.tree ▸ hfs⟩
    refine divide_tracked hhear h₂ hn₂ hfinds ?_
    rw [hnoted.log]
    exact List.mem_append_right _ (List.mem_singleton_self _)

/-- The questions about the node in hand. -/
theorem Poised.asked (h : Poised root (.visit n) s) {rs : List (Request α)}
    (hasks : s.tree.problem.Asks rs) : Faithful root (s.log ++ rs.map .asked) := by
  obtain ⟨hn, es, e, hlog, he⟩ := h.holds n rfl
  refine h.log.asked rs fun done r rest heq => ⟨done, .inr ⟨es, e, n, ?_, he, ?_⟩⟩
  · rw [hlog, List.append_assoc]
    rfl
  · exact hasks.bears hn.bears r (by simp [heq])

theorem Tracked.asked (h : Tracked root s) {rs : List (Request α)} {b : Solution α}
    (hasked : Faithful root (s.log ++ rs.map .asked))
    (hlog : s'.log = s.log ++ rs.map .asked)
    (htree : s'.tree = { s.tree with problem := s.tree.problem.withBasic b }) :
    Tracked root s' where
  tree := h.tree.spared (.of_columns (by rw [htree]; rfl) (by rw [htree]))
  log := hlog ▸ hasked
  born m hm := by
    rw [htree] at hm
    rw [hlog]
    exact (h.born m hm).mono (List.prefix_append _ _)

theorem visit_tracked (hhear : SparesBounds hear) (h : Poised root (.visit n) s) :
    Runs (visit (Company.recorded host hear) n) s (Proceeds root)
      fun s' => Faithful root s'.log := by
  unfold visit
  refine modifyTree_bind ?_
  generalize hs₁ : ({ s with tree := _ } : Scene α (Recorded α σ)) = s₁
  have hlog₁ : s₁.log = s.log := by rw [← hs₁]
  have hspared : s.tree.SparesBounds s₁.tree := by
    rw [← hs₁]
    exact .of_columns rfl rfl
  have h₁ : Poised root (.visit n) s₁ := by
    refine ⟨h.toTracked.next hspared hlog₁, ?_⟩
    rintro _ ⟨⟩
    rw [hlog₁]
    exact ⟨(h.holds n rfl).1.spared hspared, (h.holds n rfl).2⟩
  refine quiet_relaxation.next (fun s' hlog => ?_) fun settings s₂ htree₂ hlog₂ => ?_
  · rw [hlog]
    exact h₁.log
  have h₂ : Poised root (.visit n) s₂ := by
    refine ⟨h₁.toTracked.next (.of_columns (by rw [htree₂]) (by rw [htree₂])) hlog₂, ?_⟩
    rw [hlog₂, htree₂]
    exact h₁.holds
  refine Runs.bind ((relax_recorded settings).weaken ?_) ?_
  · rintro s' ⟨rs, hasks, hlog⟩
    rw [hlog]
    exact h₂.asked hasks
  rintro code s₃ ⟨rs, b, hasks, -, hlog₃, htree₃⟩
  have h₃ : Tracked root s₃ := h₂.toTracked.asked (h₂.asked hasks) hlog₃ htree₃
  have hn₃ : s₃.tree.Holds root n :=
    (h₂.holds n rfl).1.spared (.of_columns (by rw [htree₃]; rfl) (by rw [htree₃]))
  split_ifs
  · exact .pure h₃.log
  · exact .pure h₃.log
  refine tree_bind ?_
  split
  · refine modifyTree_bind (.pure (h₃.modify (h₃.tree.fathom n) fun m hm => ?_).choose)
    exact (List.mem_filter.1 hm).1
  · exact weigh_tracked hhear h₃ hn₃
  · exact .pure h₃.log

/-! ### Choosing a node -/

theorem choose_tracked (hhear : SparesBounds hear) (h : Tracked root s) :
    Runs (choose (Company.recorded host hear)) s (Proceeds root)
      fun s' => Faithful root s'.log := by
  have hlost : ∀ s' : Scene α (Recorded α σ), s'.log = s.log → Faithful root s'.log :=
    fun s' hs' => hs' ▸ h.log
  unfold choose
  refine tree_bind ?_
  split_ifs with hempty
  · exact modifyTree_bind (.pure h.log)
  refine quiet_timeUp.next hlost fun up s₁ htree₁ hlog₁ => ?_
  cases up with
  | true => exact .pure (hlost s₁ hlog₁)
  | false =>
  refine tree_bind ?_
  split_ifs
  · refine (quiet_say _).next (fun s' hs' => hlost s' (hs'.trans hlog₁)) fun _ s' _ hs' => ?_
    exact .pure (hlost s' (hs'.trans hlog₁))
  have h₁ : Tracked root { s₁ with tree := { s₁.tree with current := none } } := by
    have h₁ : Tracked root s₁ :=
      h.next (.of_columns (by rw [htree₁]) (by rw [htree₁])) hlog₁
    exact h₁.modify ⟨h₁.tree.rootBounds, h₁.tree.untouched, h₁.tree.touched, h₁.tree.count,
      h₁.tree.integer, h₁.tree.boxed, h₁.tree.nodup, h₁.tree.fresh⟩ fun _ => id
  refine modifyTree_bind (heard_tracked hhear h₁ (.inl ⟨rfl, rfl⟩) rfl fun e s₂ hnoted h₂ => ?_)
  refine tree_bind (ofSearch_next h₂.log fun found hfound => ?_)
  cases found with
  | none => exact .pure h₂.log
  | some n =>
    have hne : s₂.tree.active ≠ [] := by
      rw [hnoted.spared.active]
      dsimp only
      rw [htree₁]
      simpa using hempty
    obtain ⟨m, hm, hmn⟩ := Tree.select_mem hfound hne
    cases hmn
    refine tree_bind (ofProblem_next h₂.log fun t ht => ?_)
    obtain ⟨hrestorable, hholds⟩ := h₂.tree.activate hm ht
    have hactive : t.active = s₂.tree.active := by
      rw [(Tree.bears_of_activate h₂.tree.rootBounds h₂.tree.untouched h₂.tree.touched
        (h₂.tree.boxed n hm) ht).2]
    have h₃ : Tracked root { s₂ with tree := t } :=
      h₂.modify hrestorable fun m hm => hactive ▸ hm
    refine modifyTree_bind (heard_tracked hhear h₃ (.inr ⟨n, hholds⟩) rfl fun e' s₄ hnoted' h₄ => ?_)
    exact .pure (hnoted'.visit h₄ hholds)

/-! ### Whole searches -/

theorem step_tracked (hhear : SparesBounds hear) {φ : Phase α} (h : Poised root φ s) :
    Runs (step (Company.recorded host hear) φ) s (Proceeds root)
      fun s' => Faithful root s'.log := by
  cases φ with
  | choose => exact choose_tracked hhear h.toTracked
  | visit n => exact visit_tracked hhear h

theorem run_tracked (hhear : SparesBounds hear) (fuel : Nat) {φ : Phase α}
    (h : Poised root φ s) : Runs (run (Company.recorded host hear) fuel φ) s
      (fun _ s' => Faithful root s'.log) fun s' => Faithful root s'.log := by
  induction fuel generalizing φ s with
  | zero => exact .throw _ h.log
  | succ fuel ih =>
    refine Runs.bind (step_tracked hhear h) fun next s₁ h₁ => ?_
    cases next with
    | done code => exact .pure h₁
    | go φ' => exact ih h₁

theorem explore_tracked (hhear : SparesBounds hear) (h : Tracked root s) (fuel : Nat) :
    Runs (explore (Company.recorded host hear) fuel) s
      (fun _ s' => Faithful root s'.log) fun s' => Faithful root s'.log := by
  refine modifyTree_bind (run_tracked hhear fuel (φ := .choose) ?_)
  refine Tracked.choose ⟨h.tree.plant, h.log, fun m hm => ?_⟩
  obtain hm | hm := List.mem_append.1 hm
  · exact h.born m hm
  · rw [List.mem_singleton.1 hm]
    exact .inl ⟨rfl, rfl⟩

omit [ValuedScalar α] in
/-- Before there are nodes the solver is asked for the root. -/
theorem faithful_asked {p : Problem α} (hp : p.Bears [] (sidesAtRoot root))
    {rs : List (Request α)} (hasks : p.Asks rs) : Faithful root (rs.map Happening.asked) := by
  have hnil : Faithful root ([] : List (Happening α)) := faithful_nil
  have h := hnil.asked rs fun done r rest heq =>
    ⟨done, .inl ⟨rfl, hasks.bears hp r (by simp [heq])⟩⟩
  rwa [List.nil_append] at h

theorem conclude_tracked (hhear : SparesBounds hear) (htree : s.tree.Restorable root)
    (hbears : s.tree.problem.Bears [] (sidesAtRoot root)) (hactive : s.tree.active = [])
    (hlog : s.log = []) (fuel : Nat) :
    Runs (conclude (Company.recorded host hear) fuel) s
      (fun _ s' => Faithful root s'.log) fun s' => Faithful root s'.log := by
  have hnil : ∀ s' : Scene α (Recorded α σ), s'.log = s.log → Faithful root s'.log := by
    intro s' hs'
    rw [hs', hlog]
    exact faithful_nil
  unfold conclude
  refine tree_bind ?_
  dsimp only
  refine Runs.detour (I := fun s' => s'.tree = s.tree ∧ s'.log = s.log) ⟨rfl, rfl⟩
    (fun hrest => ?_) fun s₁ ⟨htree₁, hlog₁⟩ => ?_
  · exact tree_bind ((quiet_ofTask fun _ => Task.Keeps.tell _).next hnil
      fun _ s' htree hs' => hrest s' ⟨htree, hs'⟩)
  have h₁ : Tracked root s₁ := by
    refine ⟨htree₁ ▸ htree, hnil s₁ hlog₁, ?_⟩
    rw [htree₁, hactive]
    simp
  have hasked : ∀ (s' : Scene α (Recorded α σ)) rs, s₁.tree.problem.Asks rs →
      s'.log = s₁.log ++ rs.map .asked → Faithful root s'.log := by
    intro s' rs hasks hs'
    rw [hs', hlog₁, hlog, List.nil_append]
    rw [htree₁] at hasks
    exact faithful_asked hbears hasks
  refine Runs.detour (I := Tracked root) h₁ (fun hrest => ?_) fun s₂ h₂ => ?_
  · refine Runs.bind (presolved_recorded.weaken ?_) ?_
    · rintro s' ⟨rs, hasks, hs'⟩
      exact hasked s' rs hasks hs'
    rintro found s' ⟨-, rs, b, hasks, hs', htree'⟩
    cases found with
    | none => exact hrest s' (h₁.asked (hs' ▸ hasked s' rs hasks hs') hs' htree')
    | some r => exact .pure (hasked s' rs hasks hs')
  refine Runs.bind (explore_tracked hhear h₂ fuel) fun code s₃ h₃ => ?_
  refine tree_bind ?_
  have hsay : ∀ (m : Notice α) (r : ReturnCode × Solution α), Runs (do say m; return r) s₃
      (fun _ s' => Faithful root s'.log) fun s' => Faithful root s'.log := fun m r =>
    (quiet_say m).next (fun s' hs' => hs' ▸ h₃) fun _ s' _ hs' => .pure (hs' ▸ h₃)
  split
  · exact hsay _ _
  · exact hsay _ _
  · exact .pure h₃

/-! ### Searches from their start -/

omit [ValuedScalar α] in
theorem sidesAtRoot_columns {p : Problem α} {j : Nat} {c : Column α} (hc : p.columns[j]? = some c) :
    sidesAtRoot (p.columns.map Column.sides) (j + 1) = c.sides := by
  rw [sidesAtRoot, Nat.add_sub_cancel, List.getD_eq_getElem?_getD, List.getElem?_map, hc]
  rfl

/-- What the check before a search lets pass. -/
theorem restorable_ofProblem {p : Problem α}
    (hp : ∀ c ∈ p.columns, c.bound.Suits c.lower c.upper) (hcheck : obstacle p = .ok none)
    (params : Parameter.Search α) (now : α) :
    (Tree.ofProblem params p now).Restorable (p.columns.map Column.sides) ∧
      (Tree.ofProblem params p now).problem.Bears [] (sidesAtRoot (p.columns.map Column.sides)) := by
  have hfractional : p.fractionalBounds = .ok none := by
    obtain ⟨o, ho, hrest⟩ := except_bind_eq_ok.1 hcheck
    cases o with
    | none => exact ho
    | some why => cases hrest
  have hbears : (Tree.ofProblem params p now).problem.Bears []
      (sidesAtRoot (p.columns.map Column.sides)) := by
    intro i c hc _
    rw [sidesAtRoot_columns (p := p) hc]
    exact .refl _
  refine ⟨⟨rfl, hbears, by simp [Tree.ofProblem], ?_, fun e he hk => ?_, by simp [Tree.ofProblem],
    List.nodup_nil, by simp [Tree.ofProblem]⟩, hbears⟩
  · exact (List.length_map _).symm
  · have hwhole := fractionalBound_of_firstFractional hfractional e he
    obtain ⟨j, c, hc, rfl⟩ := Problem.mem_numberedColumns.1 he
    rw [sidesAtRoot_columns (p := p) hc]
    exact Column.wholeSides hwhole hk (hp c (List.mem_of_getElem? hc))

end

end Search

open Search

variable [ValuedScalar α]

theorem intopt_tracked {host : Host α σ} {hear : Listener α σ} (hhear : Search.SparesBounds hear)
    (params : Parameter.Search α) (fuel : Nat) {p : Problem α}
    (hp : ∀ c ∈ p.columns, c.bound.Suits c.lower c.upper) (s : Session α σ) :
    Runs (intopt (.recorded host hear) params fuel p) s.recorded
      (fun _ s' => Faithful (p.columns.map Column.sides) s'.world.log)
      fun s' => Faithful (p.columns.map Column.sides) s'.world.log := by
  have hnil : ∀ s' : Session α (Recorded α σ), s'.world.log = [] →
      Faithful (p.columns.map Column.sides) s'.world.log := fun s' hs' => hs' ▸ faithful_nil
  have hrefused : ∀ (code : ReturnCode) (m : Notice α) (s : Session α (Recorded α σ)),
      s.world.log = [] →
        Runs (do Task.tellAt Parameter.levelErrors params.messageLevel m
                 return (p.withInteger {}, code)) s
          (fun _ s' => Faithful (p.columns.map Column.sides) s'.world.log)
          fun s' => Faithful (p.columns.map Column.sides) s'.world.log :=
    fun code m s hs =>
      Task.Keeps.next (Task.Keeps.tellAt _ _ _) hs hnil fun _ s' hs' => .pure (hnil s' hs')
  unfold intopt
  cases hcheck : obstacle p with
  | error why => exact faithful_nil
  | ok o =>
  refine Runs.bind (P := fun found s' => found = o ∧ s'.world.log = []) ⟨rfl, rfl⟩ ?_
  rintro found s₁ ⟨rfl, hs₁⟩
  cases found with
  | some why => exact hrefused _ _ s₁ hs₁
  | none =>
  dsimp only
  split_ifs
  · exact hrefused _ _ s₁ hs₁
  refine Task.Keeps.next (Task.Keeps.now _) hs₁ hnil fun now s₂ hs₂ => ?_
  obtain ⟨htree, hbears⟩ := restorable_ofProblem hp hcheck params now
  have hconclude : Runs (conclude (Company.recorded host hear) fuel)
      ⟨s₂, Tree.ofProblem params p now⟩ _ _ := conclude_tracked hhear htree hbears rfl hs₂ fuel
  refine Runs.bind (P := fun _ s' => Faithful (p.columns.map Column.sides) s'.world.log) ?_
    fun r s' h => .pure h
  unfold Runs at hconclude ⊢
  dsimp only
  cases hrun : conclude (Company.recorded host hear) fuel ⟨s₂, Tree.ofProblem params p now⟩ with
  | ok r scene =>
    rw [hrun] at hconclude
    exact hconclude
  | error e scene =>
    rw [hrun] at hconclude
    exact hconclude

/-- A search with a listener that writes no bounds, whatever the solver answers. The search on the
record is the search itself with its record. From the moment that a node is taken in hand the
columns have the bounds that are recorded for it, or else those at the root: at every event until
the next node is selected, and in every program that the solver is asked to solve; and it would be
so whatever nodes were taken in hand before, in whatever order. Each node but the root came of
splitting a node in hand at a fractional value of an integer column: it has the boxes of its parent,
but in that column, where its box ends below the value or begins above it, is not empty and lies in
that of the parent if the value does. -/
theorem intopt_leaves_no_traces (host : Host α σ) {hear : Listener α σ}
    (hhear : Search.SparesBounds hear) (params : Parameter.Search α) (fuel : Nat) {p : Problem α}
    (hp : ∀ c ∈ p.columns, c.bound.Suits c.lower c.upper) (s : Session α σ) :
    intopt ⟨host, some hear⟩ params fuel p s =
        mapState Session.unrecorded (intopt (.recorded host hear) params fuel p s.recorded) ∧
      Faithful (p.columns.map Column.sides)
        (after (intopt (.recorded host hear) params fuel p) s.recorded).world.log :=
  ⟨intopt_mirrors host hear params fuel p s.recorded,
    (intopt_tracked hhear params fuel hp s).after⟩

/-- The nodes in the order in which they were taken in hand. -/
def Search.taken (es : List (Happening α)) : List Nat :=
  es.filterMap fun
    | .heard e => if e.shown.reason = some .preprocessing then e.shown.current else none
    | .asked _ => none

/-- An integer column between zero and three, and a column without bounds. -/
def besideFree : Problem Extended where
  columns := [{ bound := .double, lower := 0, upper := .rat 3, kind := .integer }, {}]

/-- A row is added where there is none, when the relaxation of a node is shown. -/
def oneRow : Listener Extended Unit := modifyTree fun t =>
  if t.reason = some .rowGeneration ∧ t.problem.rows = [] then
    { t with problem := { t.problem with rows := [{}] } }
  else t

theorem oneRow_sparesBounds : Search.SparesBounds oneRow := by
  rintro s _ ⟨⟩
  dsimp only
  split_ifs
  · exact .of_columns rfl rfl
  · exact .of_columns rfl rfl

/-- The record of a search in which the nodes are visited level by level. -/
def besideRecord : List (Happening Extended) :=
  (after (intopt (.recorded Host.halfway oneRow) { presolve := 1, backtracking := 2 } 20 besideFree)
    (Session.recorded ⟨(), #[]⟩)).world.log

theorem intopt_leaves_no_traces_beside :
    Search.SparesBounds oneRow ∧ (∀ c ∈ besideFree.columns, c.bound.Suits c.lower c.upper) ∧
      taken besideRecord = [1, 2, 3, 4, 5, 6, 7] ∧
      Faithful (besideFree.columns.map Column.sides) besideRecord := by
  have hsuits : ∀ c ∈ besideFree.columns, c.bound.Suits c.lower c.upper := by
    simp [besideFree, BoundKind.Suits]
  exact ⟨oneRow_sparesBounds, hsuits, by decide +kernel,
    (intopt_leaves_no_traces Host.halfway oneRow_sparesBounds _ _ hsuits _).2⟩

end MixedInteger
