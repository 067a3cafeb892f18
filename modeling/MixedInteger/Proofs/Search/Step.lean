import MixedInteger.Proofs.Search.Setting

/-! The steps of a search. Each step starts between two nodes or with a node in hand, and ends so
again or ends the search; what it hands on is the same whatever the listener does within its
bounds. A node that is taken in hand gives its box to the working problem, and the relaxation of
that problem either has no point, so that nothing is lost with the node, or has an optimum, which
is then weighed. -/

namespace MixedInteger

open Extended Finset SearchTask

namespace Search.Setting

variable {σ : Type} {c : Search.Company Extended σ} {p : Problem Extended}
  {S : Search.Setting c p} {s : Scene Extended σ} {w w' : σ} {t t' : Tree Extended}
  {n : Node Extended} {x : ℕ → ℚ}

/-! ### Time -/

section
variable {W : σ → Prop} (hw : W s.session.world) {E : Scene Extended σ → Prop}
  (hE : ∀ s' : Scene Extended σ, W s'.session.world → E s')
include hw hE

theorem elapsed_runs :
    Runs (Search.elapsed c) s (fun _ s' => s'.tree = s.tree ∧ W s'.session.world) E := by
  unfold Search.elapsed
  refine (ofTask_runs (Task.Keeps.now c.host) hw hE).bind ?_
  rintro now s' ⟨-, htree, hw'⟩
  exact tree_bind (.pure ⟨htree, hw'⟩)

theorem timeUp_runs :
    Runs (Search.timeUp c) s (fun _ s' => s'.tree = s.tree ∧ W s'.session.world) E := by
  unfold Search.timeUp
  refine tree_bind ?_
  dsimp only
  split
  · exact (elapsed_runs hw hE).bind fun _ _ h => .pure h
  · exact .pure ⟨rfl, hw⟩

/-- Relaxations are solved by the primal method, and they are not presolved. -/
theorem relaxation_runs :
    Runs (Search.relaxation c) s (fun params s' => (params.isDual = false ∧ params.presolve = 0) ∧
      s'.tree = s.tree ∧ W s'.session.world) E := by
  unfold Search.relaxation
  refine tree_bind ?_
  dsimp only
  split
  · refine (ofTask_runs (Task.Keeps.number _) hw hE).bind ?_
    rintro limit s₁ ⟨-, htree₁, hw₁⟩
    refine (elapsed_runs hw₁ hE).bind ?_
    rintro rest s₂ ⟨htree₂, hw₂⟩
    refine (ofTask_runs (Task.Keeps.ofRounding _ (P := fun _ => True) fun _ _ => trivial)
      hw₂ hE).bind ?_
    rintro k s₃ ⟨-, htree₃, hw₃⟩
    exact .pure ⟨⟨rfl, rfl⟩, htree₃.trans (htree₂.trans htree₁), hw₃⟩
  · exact .pure ⟨⟨rfl, rfl⟩, rfl, hw⟩

/-- Solving the relaxation changes the working problem only, to one that is solved. -/
theorem relax_runs (hhost : c.host.IsExact) (hkeeps : c.host.Keeps W)
    (hrational : s.tree.problem.Rational) {settings : Parameter.Simplex Extended}
    (hdual : settings.isDual = false) :
    Runs (Search.relax c settings) s
      (fun code s' => ∃ q, s.tree.problem.Solved c.host (q, code) ∧
        s'.tree = { s.tree with problem := q } ∧ W s'.session.world) E := by
  unfold Search.relax
  refine tree_bind ?_
  refine (ofTask_runs (simplex_keeps hrational hhost hkeeps settings hdual) hw hE).bind ?_
  rintro ⟨q, code⟩ s' ⟨hsolved, htree, hw'⟩
  refine modifyTree_bind (.pure ⟨q, hsolved, ?_, hw'⟩)
  rw [htree]

end

/-! ### Branching -/

/-- The fractional columns are integer ones, with values in the box of the node. -/
def Fractions (t : Tree Extended) (n : Node Extended) (fs : List (Fraction Extended)) : Prop :=
  ∀ f ∈ fs, ∃ j ∈ t.base.integers, ∃ v, f = ⟨j + 1, rat v⟩ ∧
    (n.box t.base j).1 ≤ rat v ∧ rat v ≤ (n.box t.base j).2

theorem Fractions.grows {p : Problem Extended} {aim : Aim} {Allowed : Row Extended → Prop}
    {fs : List (Fraction Extended)} (h : Fractions t n fs) (hfits : t.Fits p aim)
    (hgrows : t.Grows Allowed t') : Fractions t' n fs := by
  unfold Fractions
  rw [hgrows.base_eq hfits, ← hfits.base]
  exact h

/-- Splitting a node leaves nothing out. -/
theorem InHand.split (h : S.InHand w t n) {fs : List (Fraction Extended)}
    (hfs : Fractions t n fs) {f : Fraction Extended} (hf : f ∈ fs) :
    S.Calm w (t.split n f fs) := by
  obtain ⟨j, hj, v, rfl, hv⟩ := hfs f hf
  have hbase : (t.split n ⟨j + 1, rat v⟩ fs).base = t.base := by
    unfold Tree.split
    split_ifs <;> rfl
  refine ⟨?_, ?_, h.hopeful.split h.mem _ fs, h.leads (.split h.sound h.mem _ fs)⟩
  · rw [hbase]
    exact h.grown
  · rw [hbase]
    exact h.sound.split (grown_rational h.grown) h.mem hj hv fs

theorem divide_runs (h : S.InHand s.session.world s.tree n) {fs : List (Fraction Extended)}
    (hfs : Fractions s.tree n fs) :
    Runs (Search.divide c n fs) s (fun next s' => S.Follows next s'.session.world s'.tree)
      S.Broken := by
  unfold Search.divide
  -- the root notes how far it is from integers, on which nothing depends
  have hroot : S.InHand s.session.world { s.tree with rootInfeasibility := infeasibility fs } n := by
    have ht : S.Track s.session.world { s.tree with rootInfeasibility := infeasibility fs } :=
      h.leads (.of_subset h.sound fun _ hm => hm)
    exact ⟨⟨h.grown, h.sound.congr rfl, h.hopeful, ht⟩, h.mem, h.current, h.boxed⟩
  refine Runs.detour (I := fun s => S.InHand s.session.world s.tree n ∧ Fractions s.tree n fs)
    ⟨h, hfs⟩ (fun hrest => modifyTree_bind (hrest _ ⟨hroot, hfs⟩)) ?_
  clear h hfs hroot
  rintro s ⟨h, hfs⟩
  refine (heard_runs h.ready h.track .heuristic).bind ?_
  rintro stop s₁ ⟨hgrows₁, ht₁, -⟩
  have h₁ := h.grows hgrows₁ ht₁
  have hfs₁ := hfs.grows h.sound.toFits hgrows₁
  cases stop with
  | true => exact .pure h₁.stopped
  | false =>
  refine rowCount_bind ((heard_runs h₁.ready h₁.track .cutGeneration).bind ?_)
  rintro stop s₂ ⟨hgrows₂, ht₂, -⟩
  have h₂ := h₁.grows hgrows₂ ht₂
  have hfs₂ := hfs₁.grows h₁.sound.toFits hgrows₂
  cases stop with
  | true => exact .pure h₂.stopped
  | false =>
  refine rowCount_bind ?_
  by_cases hrows : s₁.tree.problem.rowCount < s₂.tree.problem.rowCount
  · rw [if_pos hrows]
    exact .pure h₂
  rw [if_neg hrows]
  refine (heard_runs h₂.ready h₂.track .branching).bind ?_
  rintro stop s₃ ⟨hgrows₃, ht₃, -⟩
  have h₃ := h₂.grows hgrows₃ ht₃
  have hfs₃ := hfs₂.grows h₂.sound.toFits hgrows₃
  cases stop with
  | true => exact .pure h₃.stopped
  | false =>
  refine tree_bind ?_
  cases hchoose : s₃.tree.choose fs with
  | none => exact .pure h₃.toCalm
  | some f =>
    have hsplit := h₃.split hfs₃ (Tree.choose_mem hchoose)
    refine modifyTree_bind ((say_tracked hsplit.track _).bind ?_)
    rintro _ s' ⟨htree, ht'⟩
    refine .pure ⟨?_, ?_, ?_, ?_⟩
    all_goals rw [htree]
    · exact hsplit.grown
    · exact hsplit.sound
    · exact hsplit.hopeful
    · exact ht'

/-! ### The point of a relaxation -/

/-- The bound that the node in hand gets from its relaxation is one for its box, and not better
than the one before. -/
theorem AtPoint.bound (h : S.AtPoint w t n x) :
    (t.base.sense * rat (p.valueOf x)).IsRat ∧
      (∀ z, t.base.Relaxed z → InBox t.base.columnCount (n.box t.base) z →
        t.base.sense * rat (p.valueOf x) ≤ rat (t.base.sign * t.base.valueOf z)) ∧
      t.base.sense * n.bound ≤ t.base.sense * rat (p.valueOf x) := by
  have hsense : t.base.sense * rat (p.valueOf x) = rat (t.base.sign * t.base.valueOf x) := by
    rw [Problem.sense_eq, rat_mul_rat, grown_valueOf h.grown]
  rw [hsense]
  refine ⟨isRat_rat _, fun z hz hbox => ?_, ?_⟩
  · rw [rat_le_rat, grown_valueOf h.grown, grown_sign h.grown]
    exact h.least z hz hbox
  · exact (h.sound.nodes n h.mem).below x h.relaxed h.inBox

/-- A node whose own bound is hopeless is given up. -/
theorem AtPoint.given_up (h : S.AtPoint w t n x) (hhope : t.hopeful (rat (p.valueOf x)) = false) :
    S.Calm w ((t.settle { n with bound := rat (p.valueOf x) }).fathom
      { n with bound := rat (p.valueOf x) }) := by
  obtain ⟨hrat, hbelow, hle⟩ := h.bound
  obtain ⟨hsound, hmem⟩ := h.sound.settle h.mem (.inr hrat) hbelow
  refine ⟨h.grown, (hsound.fathom hmem).fill fun z hz hfeasible _ => .inr ?_, ?_, ?_⟩
  · exact hsound.dominates_of_hopeless hhope
      (hbelow z hfeasible.relaxed (hz.resolve_left (Set.notMem_empty z)))
  · intro m hm
    obtain ⟨hm, hne⟩ := List.mem_filter.1 hm
    obtain rfl | ⟨hm, -⟩ := Tree.mem_active_settle hm
    · simp at hne
    · exact h.hopeful m hm
  · have hsettled : S.Track w (t.settle { n with bound := rat (p.valueOf x) }) :=
      h.leads (.settle h.sound h.mem hle)
    refine S.leads w _ _ hsettled fun m hm => ⟨m, Tree.mem_active_fathom hm, ?_⟩
    rw [← grown_sense h.grown]
    exact (hsound.nodes m (Tree.mem_active_fathom hm)).bound_le

/-- A node whose own bound is hopeful stays in hand. -/
theorem AtPoint.settled (h : S.AtPoint w t n x) (hhope : t.hopeful (rat (p.valueOf x)) = true) :
    S.AtPoint w (t.settle { n with bound := rat (p.valueOf x) })
      { n with bound := rat (p.valueOf x) } x := by
  obtain ⟨hrat, hbelow, hle⟩ := h.bound
  obtain ⟨hsound, hmem⟩ := h.sound.settle h.mem (.inr hrat) hbelow
  have hhopeful : (t.settle { n with bound := rat (p.valueOf x) }).Hopeful := by
    intro m hm
    obtain rfl | ⟨hm, -⟩ := Tree.mem_active_settle hm
    · exact hhope
    · exact h.hopeful m hm
  exact
    { grown := h.grown
      sound := hsound
      hopeful := hhopeful
      track := h.leads (.settle h.sound h.mem hle)
      mem := hmem
      current := h.current
      boxed := h.boxed
      relaxed := h.relaxed
      inBox := h.inBox
      least := h.least
      point := h.point
      reached := h.reached }

/-- What was learned of costs does not matter. -/
theorem AtPoint.learned (h : S.AtPoint w t n x) (o : Extended) : S.AtPoint w (t.learn n o) n x := by
  have hlearn : ∃ histories, t.learn n o = { t with histories := histories } := by
    unfold Tree.learn
    split
    · exact ⟨_, rfl⟩
    · split_ifs
      · exact ⟨_, rfl⟩
      · exact ⟨_, rfl⟩
  obtain ⟨histories, hlearn⟩ := hlearn
  have ht : S.Track w (t.learn n o) :=
    h.leads (.of_subset h.sound fun m hm => by rwa [hlearn] at hm)
  rw [hlearn] at ht ⊢
  exact { h with sound := h.sound.congr rfl, hopeful := h.hopeful, track := ht }

theorem weigh_runs (h : S.AtPoint s.session.world s.tree n x)
    (hobjective : s.tree.problem.basic.objective = rat (p.valueOf x)) :
    Runs (Search.weigh c n) s (fun next s' => S.Follows next s'.session.world s'.tree)
      S.Broken := by
  unfold Search.weigh
  refine tree_bind (modifyTree_bind ?_)
  rw [hobjective]
  have h := h.learned (rat (p.valueOf x))
  refine modifyTree_bind (tree_bind ?_)
  cases hhope : (s.tree.learn n (rat (p.valueOf x))).hopeful (rat (p.valueOf x)) with
  | false =>
    rw [if_pos]
    · exact modifyTree_bind (.pure (h.given_up hhope))
    · rw [Bool.not_eq_true']
      exact hhope
  | true =>
  rw [if_neg]
  swap
  · rw [Bool.not_eq_true', Bool.not_eq_false]
    exact hhope
  have h := h.settled hhope
  refine rowCount_bind ((heard_runs h.ready h.track .rowGeneration).bind ?_)
  rintro stop s₁ ⟨hgrows, ht, haccepted⟩
  have h₁ := h.toInHand.grows hgrows ht
  cases stop with
  | true => exact .pure h₁.stopped
  | false =>
  refine rowCount_bind ?_
  split_ifs with hrows
  · exact .pure h₁
  have hsame := hgrows.rows_eq hrows
  have h₁ := h.grows hgrows ht hsame
  have hpoint : s₁.tree.problem.basic.colPrimal = firstValues s₁.tree.problem.columnCount x := by
    rw [h₁.boxed.columnCount, grown_columnCount h₁.grown]
    exact h₁.point
  obtain ⟨fs, hfs, hmem⟩ := Tree.fractional_eq hpoint h₁.sound.integerTolerance
  have hintegers : s₁.tree.problem.integers = s₁.tree.base.integers := h₁.boxed.integers
  refine tree_bind (ofRounding_bind hfs ?_)
  split_ifs with hempty
  · refine takePoint_runs h₁ (fun j hj => ?_) (haccepted rfl hsame x h.point)
    rw [← grown_integers h₁.grown, ← hintegers] at hj
    rw [List.isEmpty_iff.1 hempty] at hmem
    exact not_lt.1 fun hfar => List.not_mem_nil ((hmem _).2 ⟨j, hj, rfl, hfar⟩)
  · refine divide_runs h₁.toInHand fun f hf => ?_
    obtain ⟨j, hj, rfl, -⟩ := (hmem f).1 hf
    rw [hintegers] at hj
    exact ⟨j, hj, x j, rfl, h₁.inBox j (mem_range.1 (mem_filter.1 hj).1)⟩

end Search.Setting

/-! ### Choosing a node -/

/-- What is left of choosing a node when its event has been announced. -/
def Search.take {α σ : Type} [Scalar α] (c : Company α σ) : SearchTask α σ (Next α) := do
  match ← ofSearch (← tree).select with
  | none => return .done .done
  | some n =>
    let t ← ofProblem ((← tree).activate n)
    modifyTree fun _ => t
    if ← heard c .preprocessing then return .done .stopped
    return .go (.visit n)

namespace Search.Setting

variable {σ : Type} {c : Search.Company Extended σ} {p : Problem Extended}
  {S : Search.Setting c p} {s : Scene Extended σ} {w w' : σ} {t t' : Tree Extended}
  {n : Node Extended} {x : ℕ → ℚ}

/-! ### The node in hand -/

theorem InHand.counted (h : S.InHand w t n) (k : ℕ) : S.InHand w { t with solved := k } n := by
  have ht : S.Track w { t with solved := k } := h.leads (.of_subset h.sound fun _ hm => hm)
  exact ⟨⟨h.grown, h.sound.congr rfl, h.hopeful, ht⟩, h.mem, h.current, h.boxed⟩

/-- A solution of the working problem changes nothing else. -/
theorem InHand.withBasic (h : S.InHand w t n) (b : Solution Extended) :
    S.InHand w { t with problem := t.problem.withBasic b } n := by
  obtain ⟨box, hbox, hrest⟩ := h.sound.works.boxed
  have hsound := h.sound.withProblem h.sound.works.touched ⟨box, hbox.withBasic b, hrest⟩
  have ht : S.Track w { t with problem := t.problem.withBasic b } :=
    h.leads (.of_subset h.sound fun _ hm => hm)
  exact ⟨⟨h.grown, hsound, h.hopeful, ht⟩, h.mem, h.current, h.boxed.withBasic b⟩

/-- Nothing is lost with a node whose relaxation has no point. -/
theorem InHand.emptied (h : S.InHand w t n) (hnone : ∀ y, ¬t.problem.Relaxed y) :
    S.Calm w (t.fathom n) := by
  refine ⟨h.grown, (h.sound.fathom h.mem).fill fun z hz hfeasible _ => ?_, h.hopeful.fathom n, ?_⟩
  · refine absurd (h.boxed.relaxed_iff.2 ⟨hz.resolve_left (Set.notMem_empty z), ?_⟩) (hnone z)
    exact hfeasible.relaxed.holds
  · exact h.leads (.of_subset h.sound fun _ => Tree.mem_active_fathom)

theorem InHand.subproblem (h : S.InHand w t n) : t.problem.Subproblem S.Allowed p := by
  have hvalid := (h.sound.nodes n h.mem).toValid
  have hintegers : t.base.integers = p.integers := grown_integers h.grown
  refine ⟨t.base, n.box t.base, h.grown, h.boxed, fun j hj => ?_, fun j hj => ?_⟩
  · rw [← hintegers] at hj
    exact hvalid.whole_box (grown_rational h.grown) hj
  · rw [← hintegers] at hj
    rw [hvalid.box_of_notMem_integers hj, grown_rootBox h.grown]

/-- An optimum of the working problem is one of the relaxation in the box of the node. -/
theorem InHand.optimum (h : S.InHand w t n) {b : Solution Extended}
    (hpoint : b.colPrimal = firstValues t.problem.columnCount x)
    (hanswered : t.problem.columns = [] ∨ c.host.Answered t.problem x)
    (hrelaxed : t.problem.Relaxed x)
    (hleast : ∀ y, t.problem.Relaxed y →
      t.problem.sign * t.problem.valueOf x ≤ t.problem.sign * t.problem.valueOf y) :
    S.AtPoint w { t with problem := t.problem.withBasic b } n x := by
  have hcount : t.problem.columnCount = p.columnCount :=
    h.boxed.columnCount.trans (grown_columnCount h.grown)
  have hvalue : t.problem.valueOf = p.valueOf := h.boxed.valueOf.trans (grown_valueOf h.grown)
  have hsign : t.problem.sign = p.sign := h.boxed.sign.trans (grown_sign h.grown)
  obtain ⟨hbox, hrows⟩ := h.boxed.relaxed_iff.1 hrelaxed
  have hinside := (h.sound.nodes n h.mem).inside x hbox
  rw [hcount] at hpoint
  rw [hvalue, hsign] at hleast
  refine
    { toInHand := h.withBasic b
      relaxed := Problem.relaxed_iff.2 ⟨hinside, hrows⟩
      inBox := hbox
      least := fun z hz hzbox => hleast z (h.boxed.relaxed_iff.2 ⟨hzbox, hz.holds⟩)
      point := hpoint
      reached := ?_ }
  refine hanswered.imp (fun hempty => ?_) fun hanswered => ⟨_, h.subproblem, hanswered⟩
  rw [← List.length_eq_zero_iff] at hempty ⊢
  exact hcount.symm.trans hempty

theorem visit_runs (h : S.InHand s.session.world s.tree n) :
    Runs (Search.visit c n) s (fun next s' => S.Follows next s'.session.world s'.tree)
      S.Broken := by
  unfold Search.visit
  refine modifyTree_bind ?_
  have h := h.counted (s.tree.solved + 1)
  refine (relaxation_runs (s := { s with tree := { s.tree with solved := s.tree.solved + 1 } })
    (W := fun w => S.Track w _) h.track broken).bind ?_
  rintro settings s₁ ⟨⟨hdual, -⟩, htree, ht₁⟩
  dsimp only at htree
  rw [← htree] at h ht₁
  have hrational : s₁.tree.problem.Rational :=
    (h.sound.nodes n h.mem).rational (grown_rational h.grown) h.boxed
  refine (relax_runs (W := fun w => S.Track w _) ht₁ broken S.exact (S.keeps _) hrational
    hdual).bind ?_
  rintro code s₂ ⟨q, hsolved, htree₂, ht₂⟩
  have h : S.InHand s₂.session.world s₁.tree n := { h with track := ht₂ }
  have hend : ∀ b code, q = s₁.tree.problem.withBasic b → code ≠ .done → code ≠ .gapReached →
      code ≠ .noPrimal → S.Ended code s₂.session.world s₂.tree := by
    rintro b code rfl hdone hgap hcode
    have h₂ := h.withBasic b
    rw [htree₂]
    exact ended_of_sound h₂.grown h₂.sound h₂.track hdone hgap hcode
  have hstatus : s₂.tree.problem.basic = q.basic := by rw [htree₂]
  cases hsolved with
  | @optimum b x hoptimal hpoint hvalue hanswered hrelaxed hleast =>
    rw [if_neg (by simp), if_neg (by simp)]
    refine tree_bind ?_
    rw [hstatus]
    simp only [Problem.withBasic, hoptimal]
    have hat := h.optimum hpoint hanswered hrelaxed hleast
    rw [← htree₂] at hat
    refine weigh_runs hat ?_
    rw [hstatus]
    refine hvalue.trans ?_
    rw [h.boxed.valueOf, grown_valueOf h.grown]
  | @infeasible b hinfeasible hnone =>
    rw [if_neg (by simp), if_neg (by simp)]
    refine tree_bind ?_
    rw [hstatus]
    simp only [Problem.withBasic, hinfeasible]
    refine modifyTree_bind (.pure ?_)
    rw [htree₂]
    refine (h.withBasic b).emptied fun y hy => hnone y ?_
    exact ⟨hy.within, hy.holds⟩
  | @presolved b hnone =>
    rw [if_neg (by simp), if_pos (by simp)]
    exact .pure (hend b _ rfl (by simp) (by simp) (by simp))
  | @unbounded b hunbounded =>
    rw [if_neg (by simp), if_neg (by simp)]
    refine tree_bind ?_
    rw [hstatus]
    simp only [Problem.withBasic, hunbounded]
    exact .pure (hend b _ rfl (by simp) (by simp) (by simp))
  | @stopped b code hdone hcode =>
    split_ifs with htime
    · exact .pure (hend b _ rfl (by simp) (by simp) (by simp))
    · exact .pure (hend b _ rfl (by simp) (by simp) (by simp))

/-! ### Choosing a node -/

/-- Nodes wait in any order; none is in hand. -/
theorem Calm.released (h : S.Calm w t) : S.Calm w { t with current := none } :=
  ⟨h.grown, h.sound.congr rfl, h.hopeful,
    h.leads (.of_subset h.sound fun _ hm => hm)⟩

/-- A chosen node is taken in hand. -/
theorem Calm.activate (h : S.Calm w t) (hn : n ∈ t.active) :
    ∃ t', t.activate n = .ok t' ∧ S.InHand w t' n := by
  have hvalid := (h.sound.nodes n hn).toValid
  obtain ⟨q, hactivate, hboxed⟩ := h.sound.works.activate (grown_rational h.grown) hvalid
  refine ⟨_, hactivate, ?_⟩
  have htouched : ∀ i ∈ n.boxes.map (·.1), ∃ j ∈ t.base.integers, i = j + 1 := by
    intro i hi
    obtain ⟨e, he, rfl⟩ := List.mem_map.1 hi
    exact hvalid.columns e he
  have hsound := h.sound.withProblem htouched
    ⟨n.box t.base, hboxed, fun j hj => Node.box_of_notMem hj⟩
  set t' : Tree Extended := { t with
    problem := q
    touched := n.boxes.map (·.1)
    current := some n.number } with ht'
  have hbase : t'.base = t.base := hsound.base
  refine ⟨⟨?_, ?_, h.hopeful, ?_⟩, hn, rfl, ?_⟩
  · rw [hbase]
    exact h.grown
  · rw [hbase]
    exact hsound.congr rfl
  · exact h.leads (.of_subset h.sound fun _ hm => hm)
  · rw [hbase]
    exact hboxed

/-- Without active nodes the incumbent makes up for all feasible points. -/
theorem Calm.done (h : S.Calm w t) (hempty : t.active = []) : S.Ended .done w t where
  grown := h.grown
  incumbent i hi := (isIncumbent_base h.grown).1 (h.sound.incumbent i hi)
  track := h.track
  covered _ z hz := by
    rcases h.sound.cover z hz (Set.notMem_empty z) with ⟨n, hn, -⟩ | hdom
    · rw [hempty] at hn
      exact absurd hn List.not_mem_nil
    · exact (dominates_base h.grown).1 hdom
  gap hgap := nomatch hgap
  code_ne := by simp

/-- The selected node is taken in hand. -/
theorem take_runs (h : S.Calm s.session.world s.tree) (hne : s.tree.active ≠ []) :
    Runs (Search.take c) s (fun next s' => S.Follows next s'.session.world s'.tree)
      S.Broken := by
  unfold Search.take
  refine tree_bind ?_
  cases hselect : s.tree.select with
  | error e => exact ⟨s.tree, h.track⟩
  | ok o =>
    obtain ⟨n, hn, rfl⟩ := Tree.select_mem hselect hne
    obtain ⟨t, hactivate, hinhand⟩ := h.activate hn
    refine ofSearch_bind rfl (tree_bind (ofProblem_bind hactivate ?_))
    refine modifyTree_bind ((heard_runs hinhand.ready hinhand.track .preprocessing).bind ?_)
    rintro stop s' ⟨hgrows, ht, -⟩
    have h' := hinhand.grows hgrows ht
    cases stop with
    | true => exact .pure h'.stopped
    | false => exact .pure h'

theorem choose_runs (h : S.Calm s.session.world s.tree) :
    Runs (Search.choose c) s (fun next s' => S.Follows next s'.session.world s'.tree)
      S.Broken := by
  unfold Search.choose
  refine tree_bind ?_
  split_ifs with hempty
  · exact modifyTree_bind (.pure (h.released.done (List.isEmpty_iff.1 hempty)))
  refine (timeUp_runs (W := fun w => S.Track w _) h.track broken).bind ?_
  rintro late s₁ ⟨htree₁, ht₁⟩
  rw [← htree₁] at h ht₁ hempty
  have h : S.Calm s₁.session.world s₁.tree := { h with track := ht₁ }
  split_ifs with hlate
  · exact .pure (ended_of_sound h.grown h.sound h.track (by simp) (by simp) (by simp))
  refine tree_bind ?_
  split_ifs with hgap
  · refine (say_tracked h.track _).bind ?_
    rintro _ s₂ ⟨htree₂, ht₂⟩
    rw [← htree₂] at h ht₂ hgap
    have h : S.Calm s₂.session.world s₂.tree := { h with track := ht₂ }
    have hstopped : S.Ended .stopped s₂.session.world s₂.tree :=
      ended_of_sound h.grown h.sound h.track (by simp) (by simp) (by simp)
    exact .pure
      { hstopped with
        covered := fun hdone => nomatch hdone
        gap := fun _ => ⟨h, hgap⟩
        code_ne := by simp }
  refine modifyTree_bind ?_
  have hne : s₁.tree.active ≠ [] := fun hnil => hempty (List.isEmpty_iff.2 hnil)
  refine (heard_runs (h.released.ready hne) h.released.track .selection).bind ?_
  rintro stop s₂ ⟨hgrows₂, ht₂, -⟩
  have h₂ := h.released.grows hgrows₂ ht₂
  have hne₂ : s₂.tree.active ≠ [] := by
    obtain ⟨q, stopped, reason, heq, -⟩ := hgrows₂
    rw [heq]
    exact hne
  cases stop with
  | true => exact .pure h₂.stopped
  | false => exact take_runs h₂ hne₂

end Search.Setting

end MixedInteger
