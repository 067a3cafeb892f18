import MixedInteger.Proofs.Continuous.Relaxation
import MixedInteger.Proofs.Search.Growth
import MixedInteger.Proofs.Solver.Session

/-! What a search may rely on: an exact solver, and a listener that does no more than add rows
of an allowed kind and ask for the end. The setting says which points are worth keeping, and
what the world has noted of the trees that it was shown. When the point of a relaxation is near
enough to integers it is rounded and compared with the incumbent. Either way the incumbent then
makes up for all points of the node in hand, as none of them is better than the point by more
than rounding moves. -/

namespace MixedInteger

open Extended Finset SearchTask

variable {σ : Type}

/-- A tree that an event shows. -/
structure Tree.Ready (p : Problem Extended) (aim : Aim) (Allowed : Row Extended → Prop)
    (t : Tree Extended) : Prop where
  grown : t.base.Grown Allowed p
  sound : t.Sound t.base aim ∅
  active : t.active ≠ []
  bounds : t.Bounds t.base aim

/-- The point is an optimum that the host finds for a problem with such rows and other bounds. -/
def Host.Reaches (host : Host Extended σ) (Allowed : Row Extended → Prop) (p : Problem Extended)
    (x : ℕ → ℚ) : Prop :=
  p.columns = [] ∨ ∃ q, q.Subproblem Allowed p ∧ host.Answered q x

structure Search.Setting (c : Search.Company Extended σ) (p : Problem Extended) where
  aim : Aim
  /-- The rows that the listener may add. -/
  Allowed : Row Extended → Prop
  /-- The points to which the listener adds no row. -/
  Accepted : (ℕ → ℚ) → Prop
  /-- What is known of the world when the search begins. -/
  World : σ → Prop
  /-- What the world knows of the tree. -/
  Track : σ → Tree Extended → Prop
  rational : p.Rational
  exact : c.host.IsExact
  allowed : ∀ r, Allowed r → r.Rational
  world : c.host.Keeps World
  start : ∀ w t, World w → Track w t
  keeps : ∀ t, c.host.Keeps fun w => Track w t
  leads : ∀ w t t', Track w t → t.Leads p t' → Track w t'
  kept : ∀ x, p.Relaxed x → p.NearIntegral x aim.integer → c.host.Reaches Allowed p x →
    Accepted x → aim.Kept (p.rounded x)
  near : ∀ x, p.NearIntegral x aim.integer → c.host.Reaches Allowed p x →
    |p.valueOf (p.rounded x) - p.valueOf x| ≤ aim.shift
  hears : ∀ r s, s.tree.Ready p aim Allowed → Track s.session.world s.tree →
    Runs (announce c.listener r) s
      (fun _ s' => s.tree.Grows Allowed s'.tree ∧ Track s'.session.world s'.tree ∧
        (r = .rowGeneration → s'.tree.problem.rows = s.tree.problem.rows →
          ∀ x, s.tree.problem.basic.colPrimal = firstValues p.columnCount x → Accepted x))
      fun s' => ∃ t, Track s'.session.world t

namespace Search.Setting

variable {c : Search.Company Extended σ} {p : Problem Extended} (S : Search.Setting c p)

/-- A failure leaves a world that knows of some tree. -/
def Broken (s : Scene Extended σ) : Prop := ∃ t, S.Track s.session.world t

variable {S} {s : Scene Extended σ} {w w' : σ} {t t' : Tree Extended} {n : Node Extended}

theorem broken {t : Tree Extended} (s : Scene Extended σ) (h : S.Track s.session.world t) :
    S.Broken s := ⟨t, h⟩

theorem say_tracked (ht : S.Track s.session.world s.tree) (m : Notice Extended) :
    Runs (say m) s (fun _ s' => s'.tree = s.tree ∧ S.Track s'.session.world s.tree) S.Broken :=
  say_runs (W := fun w => S.Track w s.tree) ht broken m

theorem heard_runs (h : s.tree.Ready p S.aim S.Allowed) (ht : S.Track s.session.world s.tree)
    (r : Reason) : Runs (heard c r) s
      (fun _ s' => s.tree.Grows S.Allowed s'.tree ∧ S.Track s'.session.world s'.tree ∧
        (r = .rowGeneration → s'.tree.problem.rows = s.tree.problem.rows →
          ∀ x, s.tree.problem.basic.colPrimal = firstValues p.columnCount x → S.Accepted x))
      S.Broken :=
  (S.hears r s h ht).bind fun _ _ h => tree_bind h

/-! ### The problem with the rows so far -/

section
variable {q : Problem Extended} (h : q.Grown S.Allowed p)
include h

theorem grown_rational : q.Rational := h.rational S.rational S.allowed

theorem grown_columnCount : q.columnCount = p.columnCount := by
  obtain ⟨extra, rfl, -⟩ := h
  rfl

theorem grown_integers : q.integers = p.integers := by
  obtain ⟨extra, rfl, -⟩ := h
  rfl

theorem grown_rootBox : q.rootBox = p.rootBox := by
  obtain ⟨extra, rfl, -⟩ := h
  rfl

theorem grown_valueOf : q.valueOf = p.valueOf := by
  obtain ⟨extra, rfl, -⟩ := h
  rfl

theorem grown_sign : q.sign = p.sign := by
  obtain ⟨extra, rfl, -⟩ := h
  rfl

theorem grown_sense : q.sense = p.sense := by
  obtain ⟨extra, rfl, -⟩ := h
  rfl

end

/-! ### Between two nodes -/

variable (S) in
/-- No node is in hand, or the one in hand has not been looked at. -/
structure Calm (w : σ) (t : Tree Extended) : Prop where
  grown : t.base.Grown S.Allowed p
  sound : t.Sound t.base S.aim ∅
  hopeful : t.Hopeful
  track : S.Track w t

theorem Calm.ready (h : S.Calm w t) (hne : t.active ≠ []) : t.Ready p S.aim S.Allowed :=
  ⟨h.grown, h.sound, hne, h.sound.bounds h.hopeful hne⟩

theorem Calm.grows (h : S.Calm w t) (hgrows : t.Grows S.Allowed t') (ht : S.Track w' t') :
    S.Calm w' t' where
  grown := hgrows.grown h.grown
  sound := h.sound.grows hgrows
  hopeful := by
    obtain ⟨q, stopped, reason, rfl, -⟩ := hgrows
    exact h.hopeful
  track := ht

/-- Fewer nodes, or raised bounds, are known of as well. -/
theorem Calm.leads (h : S.Calm w t) (hleads : t.Leads t.base t') : S.Track w t' := by
  refine S.leads w t t' h.track fun n' hn' => ?_
  rw [← grown_sense h.grown]
  exact hleads n' hn'

/-! ### A node in hand -/

variable (S) in
/-- A node is in hand, and the working problem has its bounds. -/
structure InHand (w : σ) (t : Tree Extended) (n : Node Extended) : Prop extends Calm S w t where
  mem : n ∈ t.active
  current : t.current = some n.number
  boxed : t.problem.Boxed t.base (n.box t.base)

theorem InHand.ne_nil (h : S.InHand w t n) : t.active ≠ [] := List.ne_nil_of_mem h.mem

theorem InHand.ready (h : S.InHand w t n) : t.Ready p S.aim S.Allowed := h.toCalm.ready h.ne_nil

theorem InHand.grows (h : S.InHand w t n) (hgrows : t.Grows S.Allowed t') (ht : S.Track w' t') :
    S.InHand w' t' n where
  toCalm := h.toCalm.grows hgrows ht
  mem := by
    obtain ⟨q, stopped, reason, rfl, -⟩ := hgrows
    exact h.mem
  current := by
    obtain ⟨q, stopped, reason, rfl, -⟩ := hgrows
    exact h.current
  boxed := by
    obtain ⟨q, stopped, reason, rfl, hq⟩ := hgrows
    exact h.boxed.extends hq

variable (S) in
/-- The relaxation of the node in hand has an optimum. -/
structure AtPoint (w : σ) (t : Tree Extended) (n : Node Extended) (x : ℕ → ℚ) : Prop
    extends InHand S w t n where
  relaxed : t.base.Relaxed x
  inBox : InBox t.base.columnCount (n.box t.base) x
  least : ∀ z, t.base.Relaxed z → InBox t.base.columnCount (n.box t.base) z →
    p.sign * p.valueOf x ≤ p.sign * p.valueOf z
  point : t.problem.basic.colPrimal = firstValues p.columnCount x
  reached : c.host.Reaches S.Allowed p x

/-- As long as no row is added the point stays. -/
theorem AtPoint.grows {x : ℕ → ℚ} (h : S.AtPoint w t n x) (hgrows : t.Grows S.Allowed t')
    (ht : S.Track w' t') (hrows : t'.problem.rows = t.problem.rows) : S.AtPoint w' t' n x := by
  have hbase : t'.base = t.base := by
    rw [hgrows.base_eq h.sound.toFits, hrows]
    rfl
  refine
    { toInHand := h.toInHand.grows hgrows ht
      relaxed := hbase ▸ h.relaxed
      inBox := hbase ▸ h.inBox
      least := hbase ▸ h.least
      point := ?_
      reached := h.reached }
  obtain ⟨q, stopped, reason, rfl, hq⟩ := hgrows
  change q.basic.colPrimal = _
  rw [hq.same hrows]
  exact h.point

end Search.Setting

/-! ### Incumbents -/

namespace Search.Setting

variable {c : Search.Company Extended σ} {p : Problem Extended}
  {S : Search.Setting c p} {s : Scene Extended σ} {w w' : σ} {t t' : Tree Extended}
  {n : Node Extended} {x : ℕ → ℚ}

variable (S) in
/-- The search is over. -/
structure Ended (code : ReturnCode) (w : σ) (t : Tree Extended) : Prop where
  grown : t.base.Grown S.Allowed p
  incumbent : ∀ i, t.incumbent = some i → p.IsIncumbent S.aim i
  track : S.Track w t
  covered : code = .done → ∀ z, t.base.Feasible z → t.Dominates p S.aim z
  gap : code = .gapReached → S.Calm w t ∧ Search.gapReached t = true
  code_ne : code ≠ .noPrimal

/-- What a step hands on. -/
def Follows (S : Search.Setting c p) (next : Search.Next Extended) (w : σ) (t : Tree Extended) :
    Prop :=
  match next with
  | .go .choose => S.Calm w t
  | .go (.visit n) => S.InHand w t n
  | .done code => S.Ended code w t

theorem isIncumbent_base {q : Problem Extended} (hq : q.Grown S.Allowed p)
    {i : Incumbent Extended} : q.IsIncumbent S.aim i ↔ p.IsIncumbent S.aim i := by
  obtain ⟨extra, rfl, -⟩ := hq
  exact Iff.rfl

theorem dominates_base {q : Problem Extended} (hq : q.Grown S.Allowed p) {z : ℕ → ℚ} :
    t.Dominates q S.aim z ↔ t.Dominates p S.aim z := by
  obtain ⟨extra, rfl, -⟩ := hq
  exact Iff.rfl

/-- The search may end at any time. -/
theorem ended_of_sound {missing : Set (ℕ → ℚ)} (hgrown : t.base.Grown S.Allowed p)
    (hsound : t.Sound t.base S.aim missing) (ht : S.Track w t) {code : ReturnCode}
    (hdone : code ≠ .done) (hgap : code ≠ .gapReached) (hcode : code ≠ .noPrimal) :
    S.Ended code w t where
  grown := hgrown
  incumbent i hi := (isIncumbent_base hgrown).1 (hsound.incumbent i hi)
  track := ht
  covered h := absurd h hdone
  gap h := absurd h hgap
  code_ne := hcode

theorem Calm.stopped (h : S.Calm w t) : S.Ended .stopped w t :=
  ended_of_sound h.grown h.sound h.track (by simp) (by simp) (by simp)

/-! ### A new incumbent -/

variable (S) in
/-- The point of the node in hand has been compared with the incumbent. -/
structure Recorded (w : σ) (t : Tree Extended) (n : Node Extended) : Prop
    extends Tree.Ready p S.aim S.Allowed t where
  track : S.Track w t
  mem : n ∈ t.active
  current : t.current = some n.number
  dominates : ∀ z, t.base.Feasible z → InBox t.base.columnCount (n.box t.base) z →
    t.Dominates t.base S.aim z

theorem Recorded.grows (h : S.Recorded w t n) (hgrows : t.Grows S.Allowed t')
    (ht : S.Track w' t') : S.Recorded w' t' n := by
  have hbase := hgrows.base_eq h.sound.toFits
  have hsubset := hgrows.rows_subset
  have hsound := h.sound.grows hgrows
  have hgrown := hgrows.grown h.grown
  rw [hbase] at hsound hgrown
  obtain ⟨q, stopped, reason, rfl, hq⟩ := hgrows
  refine
    { grown := ?_
      sound := ?_
      active := h.active
      bounds := ?_
      track := ht
      mem := h.mem
      current := h.current
      dominates := ?_ }
  all_goals rw [hbase]
  · exact hgrown
  · exact hsound
  · exact fun hranks z hz => h.bounds hranks z (hz.of_withRows hsubset)
  · exact fun z hz => h.dominates z (hz.of_withRows hsubset)

/-- The point of the relaxation is recorded, or the incumbent is as good. -/
theorem record_runs (h : S.AtPoint s.session.world s.tree n x)
    (hnear : p.NearIntegral x S.aim.integer) (haccepted : S.Accepted x) :
    Runs Search.record s (fun _ s' => S.Recorded s'.session.world s'.tree n) S.Broken := by
  set t := s.tree with htree
  have hcount : t.problem.columnCount = p.columnCount :=
    h.boxed.columnCount.trans (grown_columnCount h.grown)
  have hpoint : t.problem.basic.colPrimal = firstValues t.problem.columnCount x := by
    rw [hcount]
    exact h.point
  have hrational : t.problem.Rational :=
    (h.sound.nodes n h.mem).rational (grown_rational h.grown) h.boxed
  have hvalue : t.problem.valueOf = p.valueOf := h.boxed.valueOf.trans (grown_valueOf h.grown)
  have hrounded : t.problem.rounded x = p.rounded x := by
    unfold Problem.rounded
    rw [h.boxed.integers, grown_integers h.grown]
  have hsense : t.sense = rat p.sign := by
    rw [h.sound.sense_eq, grown_sense h.grown, Problem.sense_eq]
  have hrelaxed : p.Relaxed x := by
    obtain ⟨extra, hbase, -⟩ := h.grown
    have hx := h.relaxed
    rw [hbase] at hx
    exact hx.of_withRows fun r hr => List.mem_append_left extra hr
  -- the least value in the box of the node is not less than that of the rounded point
  have hleast : ∀ o, p.sign * o ≤ p.sign * p.valueOf (p.rounded x) → ∀ z, t.base.Feasible z →
      InBox t.base.columnCount (n.box t.base) z → p.Dominated S.aim o z := by
    intro o ho z hz hbox _
    have hle := h.least z hz.relaxed hbox
    have hmove : p.sign * p.valueOf (p.rounded x) - p.sign * p.valueOf x ≤ S.aim.shift := by
      rw [← mul_sub]
      refine (le_abs_self _).trans ?_
      rw [Problem.abs_sign_mul]
      exact S.near x hnear h.reached
    have hmargin : S.aim.shift ≤ S.aim.margin o := le_max_right _ _
    linarith
  have hready := h.ready
  unfold Search.record
  refine tree_bind ?_
  rcases Tree.candidate_eq hpoint hrational with ⟨hcandidate, hbetter⟩ | ⟨hcandidate, i, hi, hle⟩
  · refine ofRounding_bind hcandidate (modifyTree_bind ?_)
    rw [hvalue, hrounded, hcount]
    have hinc : t.base.IsIncumbent S.aim
        ⟨rat (p.valueOf (p.rounded x)), firstValues p.columnCount (p.rounded x)⟩ :=
      (isIncumbent_base h.grown).2
        ⟨_, rfl, S.kept x hrelaxed hnear h.reached haccepted⟩
    have hsound := h.sound.improve hinc fun i' hi' => by
      obtain ⟨y, rfl, -⟩ := h.sound.incumbent i' hi'
      have hnot := hbetter _ hi'
      rw [hsense, hvalue, hrounded, rat_mul_rat, rat_mul_rat, rat_le_rat, not_le] at hnot
      rw [grown_sign h.grown]
      exact hnot.le
    have ht : S.Track s.session.world { t with
        incumbent := some ⟨rat (p.valueOf (p.rounded x)),
          firstValues p.columnCount (p.rounded x)⟩ } :=
      h.leads (.of_subset h.sound fun _ hm => hm)
    refine (say_tracked ht _).bind ?_
    rintro _ s' ⟨htree', ht'⟩
    refine .pure ?_
    rw [htree']
    refine
      { grown := h.grown
        sound := hsound
        active := h.ne_nil
        bounds := hready.bounds
        track := ht'
        mem := h.mem
        current := h.current
        dominates := fun z hz hbox => ?_ }
    exact (dominates_base h.grown).2 ⟨_, rfl, hleast _ le_rfl z hz hbox⟩
  · refine ofRounding_bind hcandidate (.pure ?_)
    refine
      { toReady := hready
        track := h.track
        mem := h.mem
        current := h.current
        dominates := fun z hz hbox => ?_ }
    obtain ⟨y, rfl, -⟩ := h.sound.incumbent i hi
    rw [hsense, hvalue, hrounded, rat_mul_rat, rat_mul_rat, rat_le_rat] at hle
    exact (dominates_base h.grown).2 ⟨_, hi, hleast _ hle z hz hbox⟩

/-- The node whose point was recorded is dropped, and what is without hope with it. -/
theorem Recorded.dropped (h : S.Recorded w t n) : S.Calm w (t.fathom n).prune := by
  have hsound := (h.sound.fathom h.mem).prune
  refine ⟨h.grown, hsound.fill fun z hz hfeasible _ => ?_, ?_, ?_⟩
  · exact .inr (h.dominates z hfeasible (hz.resolve_left (Set.notMem_empty z)))
  · refine Tree.hopeful_prune ?_
    rw [Tree.fathom, h.current]
    exact if_pos rfl
  · refine S.leads w t _ h.track fun m hm => ?_
    have hmem : m ∈ t.active := Tree.mem_active_fathom (List.mem_filter.1 hm).1
    refine ⟨m, hmem, ?_⟩
    rw [← grown_sense h.grown]
    exact (h.sound.nodes m hmem).bound_le

theorem takePoint_runs (h : S.AtPoint s.session.world s.tree n x)
    (hnear : p.NearIntegral x S.aim.integer) (haccepted : S.Accepted x) :
    Runs (Search.takePoint c n) s (fun next s' => S.Follows next s'.session.world s'.tree)
      S.Broken := by
  unfold Search.takePoint
  refine (record_runs h hnear haccepted).bind fun recorded s h => ?_
  cases recorded with
  | false => exact modifyTree_bind (.pure h.dropped)
  | true =>
    refine (heard_runs h.toReady h.track .newIncumbent).bind ?_
    rintro stop s' ⟨hgrows, ht, -⟩
    have h' := h.grows hgrows ht
    cases stop with
    | true => exact .pure (ended_of_sound h'.grown h'.sound ht (by simp) (by simp) (by simp))
    | false => exact modifyTree_bind (.pure h'.dropped)

end Search.Setting

end MixedInteger
