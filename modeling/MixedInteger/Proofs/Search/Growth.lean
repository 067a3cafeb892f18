import MixedInteger.Proofs.Search.Cover

/-! Rows that come to a search while it runs, and the bound of the search. Rows are added to the
working problem by a listener and hold from then on. Fewer points are feasible with them, so bounds
of nodes, the cover and the margin of the incumbent stay what they are. While every active node
promises something better than the incumbent, the least bound among them is a bound for all feasible
points, up to what rounding moves: a point that no node covers is dominated by the incumbent, which
no node is worse than. Steps of the search only raise the bounds of nodes. -/

namespace MixedInteger

/-! ### Rows -/

section

open Extended Finset

namespace Problem

/-- The first problem is the second one with more rows, all of them allowed. Without new rows
its basic solution is the old one. -/
structure Extends (Allowed : Row Extended → Prop) (q p : Problem Extended) : Prop where
  direction : q.direction = p.direction
  constant : q.constant = p.constant
  columns : q.columns = p.columns
  rows : ∃ extra, q.rows = p.rows ++ extra ∧ ∀ r ∈ extra, Allowed r
  same : q.rows = p.rows → q.basic = p.basic

/-- The second problem with some more allowed rows is the first one. -/
def Grown (Allowed : Row Extended → Prop) (q p : Problem Extended) : Prop :=
  ∃ extra, q = p.withRows (p.rows ++ extra) ∧ ∀ r ∈ extra, Allowed r

/-- Some allowed rows were added, and integer columns have other bounds, which are whole. -/
def Subproblem (Allowed : Row Extended → Prop) (q p : Problem Extended) : Prop :=
  ∃ base box, base.Grown Allowed p ∧ q.Boxed base box ∧
    (∀ j ∈ p.integers, WholeBounds (box j).1 (box j).2) ∧ ∀ j ∉ p.integers, box j = p.rootBox j

variable {p q : Problem Extended} {Allowed : Row Extended → Prop} {x : ℕ → ℚ}

theorem Extends.refl (p : Problem Extended) : p.Extends Allowed p :=
  ⟨rfl, rfl, rfl, ⟨[], (List.append_nil _).symm, fun _ h => nomatch h⟩, fun _ => rfl⟩

theorem Grown.refl (p : Problem Extended) : p.Grown Allowed p :=
  ⟨[], by rw [List.append_nil]; rfl, fun _ h => nomatch h⟩

theorem Grown.rational (h : q.Grown Allowed p) (hp : p.Rational)
    (hrows : ∀ r, Allowed r → r.Rational) : q.Rational := by
  obtain ⟨extra, rfl, hextra⟩ := h
  refine ⟨hp.constant, hp.cost, hp.proper, hp.whole, fun r hr => ?_⟩
  rcases List.mem_append.1 hr with hr | hr
  · exact hp.rows r hr
  · exact hrows r (hextra r hr)

/-- More rows leave fewer points. -/
theorem Relaxed.of_withRows {rows : List (Row Extended)} (hrows : ∀ r ∈ p.rows, r ∈ rows)
    (h : (p.withRows rows).Relaxed x) : p.Relaxed x :=
  ⟨h.within, fun r hr => h.holds r (hrows r hr)⟩

theorem Feasible.of_withRows {rows : List (Row Extended)} (hrows : ∀ r ∈ p.rows, r ∈ rows)
    (h : (p.withRows rows).Feasible x) : p.Feasible x := ⟨h.relaxed.of_withRows hrows, h.integral⟩

/-- Rows added to the working problem keep its bounds. -/
theorem Boxed.extends {w : Problem Extended} {box : ℕ → Extended × Extended} (h : w.Boxed p box)
    (hq : q.Extends Allowed w) : q.Boxed (p.withRows q.rows) box where
  direction := hq.direction.trans h.direction
  constant := hq.constant.trans h.constant
  rows := rfl
  columns j := by
    rw [hq.columns]
    exact h.columns j
  crossed hc := by
    rw [hq.columns] at hc
    exact h.crossed hc

end Problem

theorem Node.Sound.withRows {p : Problem Extended} {n : Node Extended} (h : n.Sound p)
    {rows : List (Row Extended)} (hrows : ∀ r ∈ p.rows, r ∈ rows) : n.Sound (p.withRows rows) where
  columns := h.columns
  nodup := h.nodup
  whole := h.whole
  ordered := h.ordered
  inside := h.inside
  proper := h.proper
  below z hz := h.below z (hz.of_withRows hrows)

namespace Tree

/-- Rows came to the working problem, and somebody may have asked for the end. Nothing else of
the tree is changed. -/
def Grows (Allowed : Row Extended → Prop) (t t' : Tree Extended) : Prop :=
  ∃ q stopped reason, t' = { t with problem := q, stopped := stopped, reason := reason } ∧
    q.Extends Allowed t.problem

variable {p : Problem Extended} {aim : Aim} {t t' : Tree Extended} {Allowed : Row Extended → Prop}
  {missing : Set (ℕ → ℚ)} (hgrows : t.Grows Allowed t')
include hgrows

theorem Grows.rows_subset : ∀ r ∈ t.problem.rows, r ∈ t'.problem.rows := by
  obtain ⟨q, stopped, reason, rfl, hq⟩ := hgrows
  obtain ⟨extra, hextra, -⟩ := hq.rows
  intro r hr
  change r ∈ q.rows
  rw [hextra]
  exact List.mem_append_left extra hr

/-- When there are no more rows than before they are the same. -/
theorem Grows.rows_eq (hcount : ¬t.problem.rowCount < t'.problem.rowCount) :
    t'.problem.rows = t.problem.rows := by
  obtain ⟨q, stopped, reason, rfl, hq⟩ := hgrows
  obtain ⟨extra, hextra, -⟩ := hq.rows
  change ¬t.problem.rows.length < q.rows.length at hcount
  change q.rows = t.problem.rows
  rw [hextra, List.length_append] at hcount
  have hnil : extra = [] := List.length_eq_zero_iff.1 (by omega)
  rw [hextra, hnil, List.append_nil]

theorem Grows.base_eq (h : t.Fits p aim) : t'.base = p.withRows t'.problem.rows := by
  obtain ⟨q, stopped, reason, rfl, -⟩ := hgrows
  rw [← h.base]
  rfl

theorem Grows.grown {p₀ : Problem Extended} (h : t.base.Grown Allowed p₀) :
    t'.base.Grown Allowed p₀ := by
  obtain ⟨q, stopped, reason, rfl, hq⟩ := hgrows
  obtain ⟨extra, hextra, hallowed⟩ := hq.rows
  obtain ⟨old, hold, hallowed'⟩ := h
  refine ⟨old ++ extra, ?_, fun r hr => (List.mem_append.1 hr).elim (hallowed' r) (hallowed r)⟩
  have hrows : t.problem.rows = p₀.rows ++ old := congrArg Problem.rows hold
  change t.original.withRows q.rows = _
  rw [hextra, hrows, List.append_assoc]
  exact congrArg (·.withRows (p₀.rows ++ (old ++ extra))) hold

theorem Sound.grows (h : t.Sound p aim missing) : t'.Sound t'.base aim missing := by
  have hbase := hgrows.base_eq h.toFits
  have hsubset : ∀ r ∈ p.rows, r ∈ t'.problem.rows := h.rows_eq ▸ hgrows.rows_subset
  rw [hbase]
  obtain ⟨q, stopped, reason, rfl, hq⟩ := hgrows
  obtain ⟨box, hbox, hrest⟩ := h.works.boxed
  exact
    { base := hbase
      integerTolerance := h.integerTolerance
      objectiveTolerance := h.objectiveTolerance
      gap := h.gap
      works := ⟨h.works.rootBounds, h.works.touched, box, hbox.extends hq, hrest⟩
      fresh := h.fresh
      unique := h.unique
      nodes := fun n hn => (h.nodes n hn).withRows hsubset
      incumbent := h.incumbent
      cover := fun z hz hmissing => h.cover z (hz.of_withRows hsubset) hmissing }

end Tree

end

section

open Extended Finset

/-- Bounds of nodes are numbers or infinite, and so can be compared. -/
theorem Node.Sound.bound_le {p : Problem Extended} {n : Node Extended} (h : n.Sound p) :
    p.sense * n.bound ≤ p.sense * n.bound := by
  rcases h.proper with heq | heq
  · rw [heq]
    rfl
  · rw [heq.eq, rat_le_rat]

namespace Tree

variable (p : Problem Extended) (aim : Aim) (t t' : Tree Extended)

/-- Every active node promises something better than the incumbent. -/
def Hopeful : Prop := ∀ n ∈ t.active, t.hopeful n.bound = true

/-- Where points are ranked, no feasible one is better, by more than rounding moves, than the bounds
of all active nodes. -/
def Bounds : Prop :=
  aim.Ranks → ∀ z, p.Feasible z →
    ∃ n ∈ t.active, p.sense * n.bound ≤ rat (p.sign * p.valueOf z + aim.shift)

/-- Every active node of the second tree has a bound that is not better than that of some active
node of the first one. -/
def Leads : Prop := ∀ n' ∈ t'.active, ∃ n ∈ t.active, p.sense * n.bound ≤ p.sense * n'.bound

variable {p aim t t'} {missing : Set (ℕ → ℚ)}

/-! ### Bounds -/

/-- A hopeful bound is not worse than what the incumbent dominates. -/
theorem Sound.le_of_hopeful (h : t.Sound p aim missing) (hranks : aim.Ranks) {bound : Extended}
    (hhope : t.hopeful bound = true) (hproper : p.sense * bound = bottom ∨ (p.sense * bound).IsRat)
    {z : ℕ → ℚ} (hz : t.Dominates p aim z) :
    p.sense * bound ≤ rat (p.sign * p.valueOf z + aim.shift) := by
  obtain ⟨i, hi, hdom⟩ := hz
  obtain ⟨x, rfl, -⟩ := h.incumbent i hi
  rcases hproper with heq | hrat
  · rw [heq]
    exact bottom_le_rat _
  obtain ⟨v, hv⟩ : ∃ v, p.sense * bound = rat v := ⟨_, hrat.eq⟩
  replace hdom := hdom hranks
  simp only [hopeful, hi, h.sense_eq, h.objectiveTolerance hranks, decide_eq_true_eq] at hhope
  rw [hv] at hhope ⊢
  simp only [Problem.sense_eq, one_eq, abs_rat, rat_add_rat, rat_mul_rat, rat_sub_rat,
    rat_lt_rat] at hhope
  rw [rat_le_rat]
  have hshift := aim.shift_nonneg
  have hmargin : 0 ≤ aim.objective * (1 + |p.valueOf x|) :=
    mul_nonneg aim.objective_nonneg (by positivity)
  simp only [value] at hdom
  unfold Aim.margin at hdom
  rcases max_cases (aim.objective * (1 + |p.valueOf x|)) aim.shift with ⟨hmax, -⟩ | ⟨hmax, -⟩
  · rw [hmax] at hdom
    linarith
  · rw [hmax] at hdom
    linarith

/-- A point in the box of a node is not better than the bound of the node. -/
theorem Sound.bounds (h : t.Sound p aim ∅) (hhope : t.Hopeful) (hne : t.active ≠ []) :
    t.Bounds p aim := by
  intro hranks z hz
  rcases h.cover z hz (Set.notMem_empty z) with ⟨n, hn, hbox⟩ | hdom
  · refine ⟨n, hn, le_trans ((h.nodes n hn).below z hz.relaxed hbox) ((rat_le_rat _ _).2 ?_)⟩
    linarith [aim.shift_nonneg]
  · obtain ⟨n, hn⟩ := List.exists_mem_of_ne_nil _ hne
    exact ⟨n, hn, h.le_of_hopeful hranks (hhope n hn) (h.nodes n hn).proper hdom⟩

/-- The best node has the least bound. -/
theorem Sound.exists_best (h : t.Sound p aim missing) (hne : t.active ≠ []) :
    ∃ b ∈ t.active, t.best = some b ∧ ∀ n ∈ t.active, p.sense * b.bound ≤ p.sense * n.bound := by
  obtain ⟨b, hb, hbest⟩ := exists_firstLeast
    (precedes fun n : Node Extended => t.sense * n.bound) hne
  have hproper : ∀ n ∈ t.active, t.sense * n.bound = bottom ∨ (t.sense * n.bound).IsRat := by
    intro n hn
    rw [h.sense_eq]
    exact (h.nodes n hn).proper
  refine ⟨b, hb, hbest, fun n hn => ?_⟩
  have hle := best_le hbest hn hproper
  rwa [h.sense_eq] at hle

/-! ### What a step does to hope -/

/-- Nodes stay hopeful when the incumbent does not change. -/
theorem Hopeful.of_subset (h : t.Hopeful) (hhopeful : t'.hopeful = t.hopeful)
    (hactive : ∀ n ∈ t'.active, n ∈ t.active) : t'.Hopeful := by
  intro n hn
  rw [hhopeful]
  exact h n (hactive n hn)

theorem mem_active_fathom {n m : Node Extended} (hm : m ∈ (t.fathom n).active) : m ∈ t.active :=
  (List.mem_filter.1 hm).1

theorem Hopeful.fathom (h : t.Hopeful) (n : Node Extended) : (t.fathom n).Hopeful :=
  h.of_subset rfl fun _ => mem_active_fathom

/-- When no node is in hand, pruning leaves hopeful nodes only. -/
theorem hopeful_prune (hcurrent : t.current = none) : t.prune.Hopeful := by
  intro n hn
  have hkeep := (List.mem_filter.1 hn).2
  rw [hcurrent] at hkeep
  exact hkeep

theorem mem_active_settle {n m : Node Extended} (hm : m ∈ (t.settle n).active) :
    m = n ∨ m ∈ t.active ∧ m.number ≠ n.number := by
  obtain ⟨a, ha, rfl⟩ := List.mem_map.1 hm
  split_ifs with heq
  · exact .inl rfl
  · exact .inr ⟨ha, heq⟩

/-- Children have the bound of their parent. -/
theorem mem_active_split {n m : Node Extended} {f : Fraction Extended}
    {fs : List (Fraction Extended)} (hm : m ∈ (t.split n f fs).active) :
    m ∈ t.active ∨ m.bound = n.bound := by
  unfold Tree.split at hm
  split_ifs at hm
  all_goals
    simp only [grow, List.mem_append, List.mem_singleton] at hm
    rcases hm with (hm | rfl) | rfl
    · exact .inl (mem_active_fathom hm)
    · exact .inr rfl
    · exact .inr rfl

theorem Hopeful.split (h : t.Hopeful) {n : Node Extended} (hn : n ∈ t.active)
    (f : Fraction Extended) (fs : List (Fraction Extended)) : (t.split n f fs).Hopeful := by
  have hsame : (t.split n f fs).hopeful = t.hopeful := by
    unfold Tree.split
    split_ifs <;> rfl
  intro m hm
  rw [hsame]
  rcases mem_active_split hm with hm | hbound
  · exact h m hm
  · rw [hbound]
    exact h n hn

/-! ### What a step does to bounds -/

theorem Leads.of_subset (h : t.Sound p aim missing) (hactive : ∀ n ∈ t'.active, n ∈ t.active) :
    t.Leads p t' := fun n hn => ⟨n, hactive n hn, (h.nodes n (hactive n hn)).bound_le⟩

theorem Leads.split (h : t.Sound p aim missing) {n : Node Extended} (hn : n ∈ t.active)
    (f : Fraction Extended) (fs : List (Fraction Extended)) : t.Leads p (t.split n f fs) := by
  intro m hm
  rcases mem_active_split hm with hm | hbound
  · exact ⟨m, hm, (h.nodes m hm).bound_le⟩
  · rw [hbound]
    exact ⟨n, hn, (h.nodes n hn).bound_le⟩

/-- A node that is solved gets no better bound. -/
theorem Leads.settle (h : t.Sound p aim missing) {n n' : Node Extended} (hn : n ∈ t.active)
    (hle : p.sense * n.bound ≤ p.sense * n'.bound) : t.Leads p (t.settle n') := by
  intro m hm
  rcases mem_active_settle hm with rfl | ⟨hm, -⟩
  · exact ⟨n, hn, hle⟩
  · exact ⟨m, hm, (h.nodes m hm).bound_le⟩

end Tree

end

end MixedInteger
