import MixedInteger.Proofs.Search.Choice
import MixedInteger.Proofs.Search.Protocol
import MixedInteger.Proofs.Search.Unrecorded

/-! A search follows the protocol. Its record is that of a course of moves with perhaps the
beginning of one more; and when the listener asks for the end, or fails, nothing more is asked
and nothing more is announced. -/

namespace MixedInteger

open SearchTask

variable {α σ : Type} [Scalar α]

namespace Search

open scoped Computability

/-! ### How a search ends -/

/-- The search answers: nobody asked for the end, or the last event did, and the tree is as it
was left there. -/
inductive Finished : List (Happening α) → ReturnCode → Tree α → Prop
  | quiet {es : List (Happening α)} {code : ReturnCode} {t : Tree α} :
      Lively es → code ≠ .stopped → Finished es code t
  | stopped {es : List (Happening α)} {e : Event α} :
      Lively es → e.failed = false → e.left.stopped = true →
        Finished (es ++ [.heard e]) .stopped e.after

/-- The search fails: not through an event, or through the last one. -/
inductive Failed : List (Happening α) → Prop
  | quiet {es : List (Happening α)} : Lively es → Failed es
  | listener {es : List (Happening α)} {e : Event α} :
      Lively es → e.failed = true → Failed (es ++ [.heard e])

theorem Finished.append {as bs : List (Happening α)} {code : ReturnCode} {t : Tree α}
    (ha : Lively as) (hb : Finished bs code t) : Finished (as ++ bs) code t := by
  cases hb with
  | quiet hb hcode => exact .quiet (ha.append hb) hcode
  | stopped hb hfailed hstopped =>
    rw [← List.append_assoc]
    exact .stopped (ha.append hb) hfailed hstopped

theorem Finished.lively {es : List (Happening α)} {code : ReturnCode} {t : Tree α}
    (h : Finished es code t) (hcode : code ≠ .stopped) : Lively es := by
  cases h with
  | quiet h _ => exact h
  | stopped => exact absurd rfl hcode

theorem Failed.append {as bs : List (Happening α)} (ha : Lively as) (hb : Failed bs) :
    Failed (as ++ bs) := by
  cases hb with
  | quiet hb => exact .quiet (ha.append hb)
  | listener hb hfailed =>
    rw [← List.append_assoc]
    exact .listener (ha.append hb) hfailed

/-! ### One step -/

/-- A step is a move, or it ends the search in the middle of one. -/
def Goes (φ : Phase α) (t : Tree α) (log : List (Happening α)) (next : Next α)
    (s : Scene α (Recorded α σ)) : Prop :=
  ∃ es, s.log = log ++ es ∧ match next with
    | .go φ' => Move φ t es φ' s.tree
    | .done code => Broken φ t es ∧ Finished es code s.tree

/-- A step that fails does so in the middle of a move. -/
def Breaks (φ : Phase α) (t : Tree α) (log : List (Happening α)) (s : Scene α (Recorded α σ)) :
    Prop := ∃ es, s.log = log ++ es ∧ Broken φ t es ∧ Failed es

section
variable {host : Host α σ} {hear : Listener α σ} {s : Scene α (Recorded α σ)} {φ : Phase α}
  {t : Tree α} {log qs es : List (Happening α)} {n n' : Node α}

theorem quiet_elapsed : (elapsed (Company.recorded host hear)).Quiet :=
  quiet_bind quiet_now fun _ => quiet_bind quiet_tree fun _ => quiet_pure _

theorem quiet_timeUp : (timeUp (Company.recorded host hear)).Quiet := by
  refine quiet_bind quiet_tree fun t => ?_
  dsimp only
  split_ifs
  · exact quiet_bind quiet_elapsed fun _ => quiet_pure _
  · exact quiet_pure _

theorem quiet_relaxation : (relaxation (Company.recorded host hear)).Quiet := by
  refine quiet_bind quiet_tree fun t => ?_
  dsimp only
  generalize (if Parameter.levelErrors ≤ t.params.messageLevel then Parameter.levelErrors
    else Parameter.levelOff) = level
  split_ifs
  · refine quiet_bind (quiet_ofTask fun _ => Task.Keeps.number _) fun _ => ?_
    exact quiet_bind quiet_elapsed fun _ => quiet_bind (quiet_ofRounding _) fun _ => quiet_pure _
  · exact quiet_pure _

/-- A relaxation is solved in place. -/
theorem relax_recorded (settings : Parameter.Simplex α) :
    Runs (relax (Company.recorded host hear) settings) s
      (fun code s' => ∃ rs b, s.tree.problem.Asks rs ∧
        (code ≠ .badBounds → s.tree.problem.Consults rs) ∧ s'.log = s.log ++ rs.map .asked ∧
          s'.tree = { s.tree with problem := s.tree.problem.withBasic b })
      fun s' => ∃ rs, s.tree.problem.Asks rs ∧ s'.log = s.log ++ rs.map .asked := by
  unfold relax
  refine tree_bind ((ofTask_session (simplex_asks settings rfl) ?_).bind ?_)
  · rintro session ⟨rs, hlog, hasks⟩
    exact ⟨rs, hasks, hlog⟩
  · rintro ⟨q, code⟩ s' ⟨⟨⟨b, rfl⟩, rs, hlog, hasks, hconsults⟩, htree⟩
    refine modifyTree_bind (.pure ⟨rs, b, hasks, hconsults, hlog, ?_⟩)
    dsimp only
    rw [htree]

/-- A step that ends the search by itself. -/
theorem goes_done (hlog : s.log = log ++ es) (hbroken : Broken φ t es) (hes : Lively es)
    {code : ReturnCode} (hcode : code ≠ .stopped) : Goes φ t log (.done code) s :=
  ⟨es, hlog, hbroken, .quiet hes hcode⟩

theorem breaks_quietly (hbroken : Broken φ t es) (hes : Lively es) (hlog : s.log = log ++ es) :
    Breaks φ t log s :=
  ⟨es, hlog, hbroken, .quiet hes⟩

/-- After an event the search ends at once, or it goes on with what the listener left. -/
theorem heard_next {r : Reason} {q : List (Happening α)} {v : List (Event α)}
    {f : Bool → SearchTask α (Recorded α σ) (Next α)}
    (hlog : s.log = log ++ (q ++ v.map .heard)) (hlively : Lively (q ++ v.map .heard))
    (hbroken : ∀ e : Event α, e.shown = { s.tree with reason := some r } →
      Broken φ t (q ++ (v ++ [e]).map .heard))
    (hstop : f true = pure (.done .stopped))
    (h : ∀ e : Event α, e.Passed r s.tree → Broken φ t (q ++ (v ++ [e]).map .heard) →
      Lively (q ++ (v ++ [e]).map .heard) → ∀ s' : Scene α (Recorded α σ),
        s'.log = log ++ (q ++ (v ++ [e]).map .heard) → s'.tree = e.after →
          Runs (f false) s' (Goes φ t log) (Breaks φ t log)) :
    Runs (heard (Company.recorded host hear) r >>= f) s (Goes φ t log) (Breaks φ t log) := by
  have hsnoc : ∀ e : Event α, q ++ (v ++ [e]).map .heard = q ++ v.map .heard ++ [.heard e] := by
    intro e
    rw [List.map_append, ← List.append_assoc]
    rfl
  have hlog' : ∀ (e : Event α) (s' : Scene α (Recorded α σ)), s'.log = s.log ++ [.heard e] →
      s'.log = log ++ (q ++ (v ++ [e]).map .heard) := by
    intro e s' hs'
    rw [hs', hlog, hsnoc, List.append_assoc]
  refine heard_recorded (fun e hshown hfailed s' hs' => ?_) fun e hshown hfailed s' hs' htree => ?_
  · refine ⟨_, hlog' e s' hs', hbroken e hshown, ?_⟩
    rw [hsnoc]
    exact .listener hlively hfailed
  · cases hstopped : e.left.stopped with
    | true =>
      rw [hstop]
      refine .pure ⟨_, hlog' e s' hs', hbroken e hshown, ?_⟩
      rw [hsnoc, htree]
      exact .stopped hlively hfailed hstopped
    | false =>
      have hpassed : e.Passed r s.tree := ⟨hshown, by rw [Event.ends, hfailed, hstopped]; rfl⟩
      refine h e hpassed (hbroken e hshown) ?_ s' (hlog' e s' hs') htree
      rw [hsnoc]
      exact hlively.heard hpassed

/-! ### Solving a node -/

theorem record_recorded : Runs (record : SearchTask α (Recorded α σ) Bool) s
    (fun better s' => s'.log = s.log ∧ match better with
      | false => s.tree.candidate = .ok none ∧ s'.tree = s.tree
      | true => ∃ i, s.tree.candidate = .ok (some i) ∧
          s'.tree = { s.tree with incumbent := some i })
    fun s' => s'.log = s.log := by
  unfold record
  refine tree_bind (ofRounding_next rfl fun found hfound => ?_)
  cases found with
  | none => exact .pure ⟨rfl, hfound, rfl⟩
  | some i =>
    refine modifyTree_bind ((quiet_say _).next (fun _ => id) fun _ s' htree hlog => ?_)
    exact .pure ⟨hlog, i, hfound, htree⟩

theorem takePoint_recorded {e : Event α} (ho : Offered n t qs n' e) (hkept : ¬e.Grew)
    (hwhole : e.after.fractional = .ok []) (htree : s.tree = e.after)
    (hlog : s.log = log ++ (qs ++ [.heard e])) :
    Runs (takePoint (Company.recorded host hear) n') s (Goes (.visit n) t log)
      (Breaks (.visit n) t log) := by
  obtain ⟨v, hsolved⟩ := ho.solved
  obtain ⟨u, hpassed⟩ := ho.passed
  have hbroken : Broken (.visit n) t (qs ++ [.heard e]) :=
    hsolved.broken (v := [e]) (.inr (.inl rfl)) (by simp [reasons_heard hpassed])
  unfold takePoint
  refine Runs.bind (record_recorded.weaken fun s' hs' => ?_) fun better s₁ h₁ => ?_
  · exact breaks_quietly hbroken ho.lively (hs'.trans hlog)
  cases better with
  | false =>
    obtain ⟨hlog₁, hcandidate, htree₁⟩ := h₁
    refine modifyTree_bind (.pure ⟨_, hlog₁.trans hlog, ?_⟩)
    dsimp only
    rw [htree₁, htree]
    exact .dismiss ho hkept hwhole (htree ▸ hcandidate)
  | true =>
    obtain ⟨hlog₁, i, hcandidate, htree₁⟩ := h₁
    rw [htree] at hcandidate htree₁
    refine heard_next (v := [e]) (hlog₁.trans hlog) ho.lively (fun e₁ hshown => ?_) rfl
      fun e₁ he₁ _ _ s₂ hlog₂ htree₂ => ?_
    · refine hsolved.broken (.inr (.inr (.inl rfl))) ?_
      simp [reasons_heard hpassed, reasons_shown hshown]
    · rw [htree₁] at he₁
      refine modifyTree_bind (.pure ⟨_, hlog₂, ?_⟩)
      dsimp only
      rw [htree₂]
      exact .improve ho hkept hwhole hcandidate he₁

theorem divide_recorded {e : Event α} (ho : Offered n t qs n' e) (hkept : ¬e.Grew)
    {fs : List (Fraction α)} (hfractional : e.after.fractional = .ok fs) (hne : fs ≠ [])
    (htree : s.tree = e.after) (hlog : s.log = log ++ (qs ++ [.heard e])) :
    Runs (divide (Company.recorded host hear) n' fs) s (Goes (.visit n) t log)
      (Breaks (.visit n) t log) := by
  obtain ⟨v, hsolved⟩ := ho.solved
  obtain ⟨u, hpassed⟩ := ho.passed
  have hsplits : [.rowGeneration, .heuristic, .cutGeneration, .branching] ∈ closing :=
    .inr (.inr (.inr rfl))
  unfold divide
  refine modifyTree_if ?_
  generalize hs₁ : ({ s with tree := _ } : Scene α (Recorded α σ)) = s₁
  have hlog₁ : s₁.log = s.log := by rw [← hs₁]
  have htree₁ : s₁.tree = noted e.after n' fs := by rw [← hs₁, noted, ← htree]
  refine heard_next (v := [e]) (hlog₁.trans hlog) ho.lively (fun e₁ hshown => ?_) rfl
    fun e₁ he₁ _ hlively₂ s₂ hlog₂ htree₂ => ?_
  · refine hsolved.broken hsplits ?_
    simp [reasons_heard hpassed, reasons_shown hshown]
  rw [htree₁] at he₁
  refine rowCount_bind (heard_next hlog₂ hlively₂ (fun e₂ hshown => ?_) rfl
    fun e₂ he₂ _ hlively₃ s₃ hlog₃ htree₃ => ?_)
  · refine hsolved.broken hsplits ?_
    simp [reasons_heard hpassed, reasons_heard he₁, reasons_shown hshown]
  rw [htree₂] at he₂
  have hdivided : Divided n t qs n' fs e e₁ e₂ := ⟨ho, hkept, hfractional, hne, he₁, he₂⟩
  have hgrew : s₂.tree.problem.rowCount < s₃.tree.problem.rowCount ↔ e₂.Grew := by
    rw [htree₂, htree₃, Event.Grew, he₂.shown]
    rfl
  refine rowCount_bind ?_
  by_cases hrows : s₂.tree.problem.rowCount < s₃.tree.problem.rowCount
  · rw [if_pos hrows]
    refine .pure ⟨_, hlog₃, ?_⟩
    rw [htree₃]
    exact .cut hdivided (hgrew.1 hrows)
  rw [if_neg hrows]
  refine heard_next hlog₃ hlively₃ (fun e₃ hshown => ?_) rfl
    fun e₃ he₃ hbroken hlively₄ s₄ hlog₄ htree₄ => ?_
  · refine hsolved.broken hsplits ?_
    simp [reasons_heard hpassed, reasons_heard he₁, reasons_heard he₂, reasons_shown hshown]
  rw [htree₃] at he₃
  obtain ⟨f, hf⟩ := Tree.exists_choose (t := e₃.after) hne
  refine tree_bind ?_
  rw [htree₄, hf]
  refine modifyTree_bind ((quiet_say _).next (fun s' hs' => ?_) fun _ s₅ htree₅ hlog₅ => ?_)
  · exact breaks_quietly hbroken hlively₄ (hs'.trans hlog₄)
  · refine .pure ⟨_, hlog₅.trans hlog₄, ?_⟩
    rw [htree₅]
    dsimp only
    rw [htree₄]
    exact .split hdivided (mt hgrew.2 hrows) he₃ hf

theorem weigh_recorded (hsolved : Solved t qs s.tree)
    (hoptimal : s.tree.problem.basic.status = .optimal) (hlog : s.log = log ++ qs) :
    Runs (weigh (Company.recorded host hear) n) s (Goes (.visit n) t log)
      (Breaks (.visit n) t log) := by
  unfold weigh
  refine tree_bind (modifyTree_bind (modifyTree_bind (tree_bind ?_)))
  have hweighed : Weighed n t qs _ _ := ⟨s.tree, hsolved, hoptimal, rfl, rfl⟩
  generalize hn' : ({ n with bound := s.tree.problem.basic.objective } : Node α) = n' at *
  rw [← show n'.bound = s.tree.problem.basic.objective by rw [← hn']] at hweighed ⊢
  generalize hs₁ : ({ s with tree := _ } : Scene α (Recorded α σ)) = s₁
  have hlog₁ : s₁.log = log ++ (qs ++ [].map .heard) := by rw [← hs₁]; simpa using hlog
  have htree₁ : s₁.tree = (s.tree.learn n n'.bound).settle n' := by rw [← hs₁]
  rw [← htree₁] at hweighed
  cases hhope : s₁.tree.hopeful n'.bound with
  | false =>
    refine modifyTree_bind (.pure ⟨qs, ?_, ?_⟩)
    · simpa using hlog₁
    · exact .hopeless hweighed hhope
  | true =>
    refine rowCount_bind (heard_next hlog₁ ?_ (fun e hshown => ?_) rfl
      fun e he hbroken hlively s₂ hlog₂ htree₂ => ?_)
    · simpa using hsolved.lively
    · refine hsolved.broken (.inr (.inl rfl)) ?_
      simp [reasons_shown hshown]
    have ho : Offered n t qs n' e := ⟨_, hweighed, hhope, he⟩
    have hgrew : s₁.tree.problem.rowCount < s₂.tree.problem.rowCount ↔ e.Grew := by
      rw [htree₂, Event.Grew, he.shown]
      rfl
    refine rowCount_bind ?_
    by_cases hrows : s₁.tree.problem.rowCount < s₂.tree.problem.rowCount
    · rw [if_pos hrows]
      refine .pure ⟨_, hlog₂, ?_⟩
      rw [htree₂]
      exact .grow ho (hgrew.1 hrows)
    rw [if_neg hrows]
    refine tree_bind (ofRounding_next (breaks_quietly hbroken hlively hlog₂) fun fs hfs => ?_)
    rw [htree₂] at hfs
    cases fs with
    | nil => exact takePoint_recorded ho (mt hgrew.2 hrows) hfs htree₂ hlog₂
    | cons f fs =>
      exact divide_recorded ho (mt hgrew.2 hrows) hfs (List.cons_ne_nil f fs) htree₂ hlog₂

theorem visit_recorded (n : Node α) : Runs (visit (Company.recorded host hear) n) s
    (Goes (.visit n) s.tree s.log) (Breaks (.visit n) s.tree s.log) := by
  have hbroken : ∀ rs, s.tree.problem.Asks rs →
      Broken (.visit n) s.tree (rs.map Happening.asked) := by
    intro rs hasks
    exact ⟨rs, [], hasks, by simp, [], .inl rfl, by simp⟩
  unfold visit
  refine modifyTree_bind ?_
  refine quiet_relaxation.next (fun s' hlog => ?_) fun settings s₁ htree₁ hlog₁ => ?_
  · exact breaks_quietly (hbroken [] (asks_nil _)) lively_nil (by simpa using hlog)
  have hproblem : s₁.tree.problem = s.tree.problem := by rw [htree₁]
  refine Runs.bind ((relax_recorded settings).weaken ?_) ?_
  · rintro s' ⟨rs, hasks, hlog⟩
    rw [hproblem] at hasks
    exact breaks_quietly (hbroken rs hasks) (lively_asked rs) (by rw [hlog, hlog₁])
  rintro code s₂ ⟨rs, b, hasks, hconsults, hlog₂, htree₂⟩
  rw [hproblem] at hasks hconsults
  rw [hlog₁] at hlog₂
  have hsolved : code = .done → Solved s.tree (rs.map .asked) s₂.tree := by
    rintro rfl
    exact ⟨rs, b, hconsults (by simp), rfl, by rw [htree₂, htree₁]⟩
  have hdone : ∀ code, code ≠ .stopped → Goes (.visit n) s.tree s.log (.done code) s₂ :=
    fun code => goes_done hlog₂ (hbroken rs hasks) (lively_asked rs)
  split_ifs with htime hcode
  · exact .pure (hdone _ (by simp))
  · exact .pure (hdone _ (by simp))
  refine tree_bind ?_
  split
  · next hstatus =>
    exact modifyTree_bind (.pure ⟨_, hlog₂, .infeasible (hsolved (not_not.1 hcode)) hstatus⟩)
  · next hstatus => exact weigh_recorded (hsolved (not_not.1 hcode)) hstatus hlog₂
  · exact .pure (hdone _ (by simp))

/-! ### Choosing a node -/

theorem choose_recorded : Runs (choose (Company.recorded host hear)) s
    (Goes .choose s.tree s.log) (Breaks .choose s.tree s.log) := by
  have hnone : Broken .choose s.tree ([] : List (Happening α)) := ⟨[], rfl, List.nil_prefix⟩
  have hquiet : ∀ s' : Scene α (Recorded α σ), s'.log = s.log → Breaks .choose s.tree s.log s' :=
    fun s' hlog => breaks_quietly hnone lively_nil (by simpa using hlog)
  have hdone : ∀ code, code ≠ .stopped → ∀ s' : Scene α (Recorded α σ), s'.log = s.log →
      Goes .choose s.tree s.log (.done code) s' :=
    fun code hcode s' hlog => goes_done (by simpa using hlog) hnone lively_nil hcode
  unfold choose
  refine tree_bind ?_
  split_ifs with hempty
  · exact modifyTree_bind (.pure (hdone _ (by simp) _ rfl))
  refine quiet_timeUp.next hquiet fun up s₁ htree₁ hlog₁ => ?_
  cases up with
  | true => exact .pure (hdone _ (by simp) _ hlog₁)
  | false =>
  refine tree_bind ?_
  split_ifs with hgap
  · refine (quiet_say _).next (fun s' hlog => hquiet s' (hlog.trans hlog₁)) fun _ s' _ hlog => ?_
    exact .pure (hdone _ (by simp) _ (hlog.trans hlog₁))
  refine modifyTree_bind (heard_next (q := []) (v := []) ?_ lively_nil (fun e hshown => ?_) rfl
    fun e he hbroken hlively s₂ hlog₂ htree₂ => ?_)
  · simpa using hlog₁
  · exact ⟨[e], rfl, by simp [reasons_shown hshown, opening]⟩
  rw [htree₁] at he
  refine tree_bind (ofSearch_next (breaks_quietly hbroken hlively hlog₂) fun found hfound => ?_)
  cases found with
  | none => exact .pure (goes_done hlog₂ hbroken hlively (by simp))
  | some n =>
    rw [htree₂] at hfound
    refine tree_bind (ofProblem_next (breaks_quietly hbroken hlively hlog₂) fun u hu => ?_)
    rw [htree₂] at hu
    refine modifyTree_bind (heard_next hlog₂ hlively (fun e' hshown => ?_) rfl
      fun e' he' _ _ s₃ hlog₃ htree₃ => ?_)
    · exact ⟨[e, e'], rfl, by simp [reasons_heard he, reasons_shown hshown, opening]⟩
    refine .pure ⟨_, hlog₃, ?_⟩
    rw [htree₃]
    exact .take he hfound hu he'

/-! ### The whole search -/

/-- A course of moves, and perhaps the beginning of one more. -/
def Followed (φ : Phase α) (t : Tree α) (es : List (Happening α)) : Prop :=
  ∃ as φ' u bs, Course φ t as φ' u ∧ Broken φ' u bs ∧ es = as ++ bs

theorem broken_nil (φ : Phase α) (t : Tree α) : Broken φ t [] := by
  cases φ with
  | choose => exact ⟨[], rfl, List.nil_prefix⟩
  | visit n => exact ⟨[], [], asks_nil _, rfl, [], .inl rfl, List.nil_prefix⟩

theorem Broken.followed (h : Broken φ t es) : Followed φ t es := ⟨[], φ, t, es, .start, h, rfl⟩

theorem Followed.move {φ' : Phase α} {t' : Tree α} {es' : List (Happening α)}
    (hmove : Move φ t es φ' t') (h : Followed φ' t' es') : Followed φ t (es ++ es') := by
  obtain ⟨as, φ'', u, bs, hcourse, hbroken, rfl⟩ := h
  exact ⟨es ++ as, φ'', u, bs, .move hmove hcourse, hbroken, (List.append_assoc ..).symm⟩

/-- What is heard of a search could be heard of complete visits. -/
theorem Followed.heard (h : Followed .choose t es) : ∃ w ∈ visited, reasons es <+: w := by
  obtain ⟨as, φ, u, bs, hcourse, hbroken, rfl⟩ := h
  have hheard : [] ++ reasons as ∈ φ.heard := hcourse.heard (Language.nil_mem_kstar _)
  rw [reasons_append]
  exact hbroken.heard hheard

theorem step_recorded (φ : Phase α) : Runs (step (Company.recorded host hear) φ) s
    (Goes φ s.tree s.log) (Breaks φ s.tree s.log) := by
  cases φ with
  | choose => exact choose_recorded
  | visit n => exact visit_recorded n

theorem run_recorded (fuel : Nat) (φ : Phase α) : Runs (run (Company.recorded host hear) fuel φ) s
    (fun code s' => ∃ es, s'.log = s.log ++ es ∧ Followed φ s.tree es ∧ Finished es code s'.tree)
    fun s' => ∃ es, s'.log = s.log ++ es ∧ Followed φ s.tree es ∧ Failed es := by
  induction fuel generalizing φ s with
  | zero =>
    exact .throw _ ⟨[], (List.append_nil _).symm, (broken_nil φ s.tree).followed,
      .quiet lively_nil⟩
  | succ fuel ih =>
    refine Runs.bind ((step_recorded φ).weaken ?_) ?_
    · rintro s' ⟨es, hlog, hbroken, hfailed⟩
      exact ⟨es, hlog, hbroken.followed, hfailed⟩
    rintro next s₁ ⟨es, hlog, hnext⟩
    cases next with
    | done code => exact .pure ⟨es, hlog, hnext.1.followed, hnext.2⟩
    | go φ' =>
      refine ((ih φ').imp ?_).weaken ?_
      · rintro code s' ⟨es', hlog', hfollowed, hfinished⟩
        exact ⟨es ++ es', by rw [hlog', hlog, List.append_assoc], .move hnext hfollowed,
          hfinished.append hnext.lively⟩
      · rintro s' ⟨es', hlog', hfollowed, hfailed⟩
        exact ⟨es ++ es', by rw [hlog', hlog, List.append_assoc], .move hnext hfollowed,
          hfailed.append hnext.lively⟩

theorem presolved_recorded : Runs (presolved (Company.recorded host hear)) s
    (fun r s' => (∀ x ∈ r, x.1 ≠ .stopped) ∧ ∃ rs b, s.tree.problem.Asks rs ∧
      s'.log = s.log ++ rs.map .asked ∧
        s'.tree = { s.tree with problem := s.tree.problem.withBasic b })
    fun s' => ∃ rs, s.tree.problem.Asks rs ∧ s'.log = s.log ++ rs.map .asked := by
  unfold presolved
  refine quiet_relaxation.next (fun s' hlog => ?_) fun settings s₁ htree₁ hlog₁ => ?_
  · exact ⟨[], asks_nil _, by simpa using hlog⟩
  rw [← htree₁, ← hlog₁]
  refine Runs.bind ((relax_recorded _).weaken fun _ => id) ?_
  rintro code s₂ ⟨rs, b, hasks, -, hlog₂, htree₂⟩
  have hsaid : ∀ (m : Notice α) (x : ReturnCode × SolutionStatus), x.1 ≠ .stopped →
      Runs (do say m; return some x) s₂ (fun r s' => (∀ x ∈ r, x.1 ≠ .stopped) ∧
        ∃ rs b, s₁.tree.problem.Asks rs ∧ s'.log = s₁.log ++ rs.map .asked ∧
          s'.tree = { s₁.tree with problem := s₁.tree.problem.withBasic b })
        fun s' => ∃ rs, s₁.tree.problem.Asks rs ∧ s'.log = s₁.log ++ rs.map .asked := by
    intro m x hx
    refine (quiet_say m).next (fun s' hlog => ⟨rs, hasks, hlog.trans hlog₂⟩) ?_
    intro _ s' htree hlog
    exact .pure ⟨by simpa using hx, rs, b, hasks, hlog.trans hlog₂, htree.trans htree₂⟩
  have hpure : ∀ r : Option (ReturnCode × SolutionStatus), (∀ x ∈ r, x.1 ≠ .stopped) →
      (∀ x ∈ r, x.1 ≠ .stopped) ∧ ∃ rs b, s₁.tree.problem.Asks rs ∧
        s₂.log = s₁.log ++ rs.map .asked ∧
          s₂.tree = { s₁.tree with problem := s₁.tree.problem.withBasic b } :=
    fun r hr => ⟨hr, rs, b, hasks, hlog₂, htree₂⟩
  split
  · exact hsaid _ _ (by simp)
  · exact hsaid _ _ (by simp)
  · exact .pure (hpure _ (by simp))
  · refine tree_bind ?_
    split_ifs
    · exact .pure (hpure _ (by simp))
    · exact .pure (hpure _ (by simp))
  · exact .pure (hpure _ (by simp))

theorem explore_recorded (fuel : Nat) : Runs (explore (Company.recorded host hear) fuel) s
    (fun code s' => ∃ es, s'.log = s.log ++ es ∧ Followed .choose s.tree.plant es ∧
      Finished es code s'.tree)
    fun s' => ∃ es, s'.log = s.log ++ es ∧ Followed .choose s.tree.plant es ∧ Failed es :=
  modifyTree_bind (run_recorded fuel .choose)

/-- What is recorded of a search, from its presolver on. -/
def Kept (t : Tree α) (log es : List (Happening α)) : Prop :=
  ∃ rs b, t.problem.Asks rs ∧ log = rs.map .asked ++ es ∧
    Followed .choose { t with problem := t.problem.withBasic b }.plant es

/-- An answer with its record. An answer to the wish for the end is what the listener left. -/
def Answers (t : Tree α) (log : List (Happening α)) (code : ReturnCode) (sol : Solution α) : Prop :=
  ∃ es u, Kept t log es ∧ Finished es code u ∧
    (code = .stopped → sol = u.solution (if u.incumbent.isSome then .feasible else .undefined))

/-- A failure with its record. -/
def Fails (t : Tree α) (log : List (Happening α)) : Prop := ∃ es, Kept t log es ∧ Failed es

theorem kept_asked {rs : List (Request α)} (h : t.problem.Asks rs) :
    Kept t (rs.map .asked) [] :=
  ⟨rs, t.problem.basic, h, (List.append_nil _).symm, (broken_nil _ _).followed⟩

/-- A search that ends before it has begun. -/
theorem answers_asked {rs : List (Request α)} (h : t.problem.Asks rs) {code : ReturnCode}
    (hcode : code ≠ .stopped) (sol : Solution α) : Answers t (rs.map .asked) code sol :=
  ⟨[], t, kept_asked h, .quiet lively_nil hcode, fun hstopped => absurd hstopped hcode⟩

theorem fails_asked {rs : List (Request α)} (h : t.problem.Asks rs) : Fails t (rs.map .asked) :=
  ⟨[], kept_asked h, .quiet lively_nil⟩

theorem conclude_recorded (hlog : s.log = []) (fuel : Nat) :
    Runs (conclude (Company.recorded host hear) fuel) s
      (fun r s' => Answers s.tree s'.log r.1 r.2) fun s' => Fails s.tree s'.log := by
  have hfails : ∀ (s' : Scene α (Recorded α σ)) rs, s.tree.problem.Asks rs →
      s'.log = rs.map .asked → Fails s.tree s'.log :=
    fun s' rs hasks hlog => hlog ▸ fails_asked hasks
  unfold conclude
  refine tree_bind ?_
  dsimp only
  refine Runs.detour (I := fun s' => s'.tree = s.tree ∧ s'.log = []) ⟨rfl, hlog⟩
    (fun hrest => ?_) fun s₁ h₁ => ?_
  · refine tree_bind ((quiet_ofTask fun _ => Task.Keeps.tell _).next (fun s' hs' => ?_)
      fun _ s' htree hs' => hrest s' ⟨htree, hs'.trans hlog⟩)
    exact hfails s' [] (asks_nil _) (hs'.trans hlog)
  obtain ⟨htree₁, hlog₁⟩ := h₁
  refine Runs.detour (I := fun s' => ∃ rs b, s.tree.problem.Asks rs ∧ s'.log = rs.map .asked ∧
    s'.tree = { s.tree with problem := s.tree.problem.withBasic b })
    ⟨[], s.tree.problem.basic, asks_nil _, hlog₁, htree₁⟩ (fun hrest => ?_) ?_
  · refine Runs.bind (presolved_recorded.weaken ?_) ?_
    · rintro s' ⟨rs, hasks, hs'⟩
      rw [hlog₁] at hs'
      exact hfails s' rs (htree₁ ▸ hasks) hs'
    rintro found s' ⟨hfound, rs, b, hasks, hs', htree'⟩
    rw [htree₁] at hasks htree'
    rw [hlog₁] at hs'
    cases found with
    | none => exact hrest s' ⟨rs, b, hasks, hs', htree'⟩
    | some r => exact .pure (hs' ▸ answers_asked hasks (hfound r rfl) _)
  rintro s₂ ⟨rs, b, hasks, hlog₂, htree₂⟩
  have hkept : ∀ es (s' : Scene α (Recorded α σ)), Followed .choose s₂.tree.plant es →
      s'.log = s₂.log ++ es → Kept s.tree s'.log es := by
    intro es s' hfollowed hlog'
    exact ⟨rs, b, hasks, by rw [hlog', hlog₂], htree₂ ▸ hfollowed⟩
  refine Runs.bind ((explore_recorded fuel).weaken ?_) ?_
  · rintro s' ⟨es, hlog', hfollowed, hfailed⟩
    exact ⟨es, hkept es s' hfollowed hlog', hfailed⟩
  rintro code s₃ ⟨es, hlog₃, hfollowed, hfinished⟩
  refine tree_bind ?_
  have hpure : ∀ s' : Scene α (Recorded α σ), s'.log = s₃.log →
      Answers s.tree s'.log code (s₃.tree.solution (verdict code s₃.tree.incumbent.isSome)) :=
    fun s' hs' => ⟨es, s₃.tree, hkept es s' hfollowed (hs'.trans hlog₃), hfinished,
      fun hcode => by rw [hcode]; rfl⟩
  -- what is said at the end could fail, but nothing is said when the listener asked for the end
  have hsay : code ≠ .stopped → ∀ m : Notice α, Runs
      (do say m; return (code, s₃.tree.solution (verdict code s₃.tree.incumbent.isSome))) s₃
      (fun r s' => Answers s.tree s'.log r.1 r.2) fun s' => Fails s.tree s'.log := by
    intro hcode m
    refine (quiet_say m).next (fun s' hs' => ?_) fun _ s' _ hs' => .pure (hpure s' hs')
    exact ⟨es, hkept es s' hfollowed (hs'.trans hlog₃), .quiet (hfinished.lively hcode)⟩
  have hsilent : code = .stopped → verdict code s₃.tree.incumbent.isSome = .optimal ∨
      verdict code s₃.tree.incumbent.isSome = .noFeasible → False := by
    rintro rfl
    cases s₃.tree.incumbent.isSome <;> simp [verdict]
  split
  · next hstatus _ => exact hsay (fun hcode => hsilent hcode (.inl hstatus)) _
  · next hstatus => exact hsay (fun hcode => hsilent hcode (.inr hstatus)) _
  · exact .pure (hpure s₃ rfl)

theorem intopt_recorded (params : Parameter.Search α) (fuel : Nat) (p : Problem α)
    (s : Session α σ) : Runs (intopt (Company.recorded host hear) params fuel p) s.recorded
      (fun r s' => ∃ now sol, r.1 = p.withInteger sol ∧
        Answers (Tree.ofProblem params p now) s'.world.log r.2 sol)
      fun s' => ∃ now, Fails (Tree.ofProblem params p now) s'.world.log := by
  have hfails : ∀ s' : Session α (Recorded α σ), s'.world.log = [] →
      ∃ now, Fails (Tree.ofProblem params p now) s'.world.log :=
    fun s' hlog => ⟨0, hlog ▸ fails_asked (asks_nil _)⟩
  have hrefused : ∀ (code : ReturnCode) (m : Notice α), code ≠ .stopped →
      ∀ s : Session α (Recorded α σ), s.world.log = [] →
        Runs (do Task.tellAt Parameter.levelErrors params.messageLevel m
                 return (p.withInteger {}, code)) s
          (fun r s' => ∃ now sol, r.1 = p.withInteger sol ∧
            Answers (Tree.ofProblem params p now) s'.world.log r.2 sol)
          fun s' => ∃ now, Fails (Tree.ofProblem params p now) s'.world.log := by
    intro code m hcode s hlog
    refine Task.Keeps.next (Task.Keeps.tellAt _ _ _) hlog hfails fun _ s' hs' => .pure ?_
    exact ⟨0, {}, rfl, hs' ▸ answers_asked (asks_nil _) hcode _⟩
  unfold intopt
  refine Task.Keeps.next (Task.Keeps.ofRounding _ fun _ _ => trivial) rfl hfails fun o s hlog => ?_
  split
  · exact hrefused _ _ (by simp) s hlog
  split
  · exact hrefused _ _ (by simp) s hlog
  refine Task.Keeps.next (Task.Keeps.now _) hlog hfails fun now s hlog => ?_
  have hconclude : Runs (conclude (.recorded host hear) fuel) ⟨s, Tree.ofProblem params p now⟩
      (fun r s' => Answers (Tree.ofProblem params p now) s'.log r.1 r.2)
      fun s' => Fails (Tree.ofProblem params p now) s'.log := conclude_recorded hlog fuel
  refine Runs.bind (P := fun r s' => Answers (Tree.ofProblem params p now) s'.world.log r.1 r.2)
    ?_ fun r s' h => .pure ⟨now, r.2, rfl, h⟩
  unfold Runs at hconclude ⊢
  dsimp only
  cases hrun : conclude (Company.recorded host hear) fuel ⟨s, Tree.ofProblem params p now⟩ with
  | ok r scene =>
    rw [hrun] at hconclude
    exact hconclude
  | error e scene =>
    rw [hrun] at hconclude
    exact ⟨now, hconclude⟩

end

end Search

open Search in
/-- The record of a search, whatever the solver answers and whatever the listener does. The search
on the record is the search itself with its record. After what its presolver asks it goes on as a
course of moves (`Move` says what each of them asks and announces, and what it does), with perhaps
the beginning of one more, and its events are a prefix of those of complete visits. Once the
listener has asked for the end or has failed, the record is at its end: an answer is `stopped`
exactly when the listener asked for the end at the last event, and then it is the incumbent that
the listener left. -/
theorem intopt_follows_protocol (host : Host α σ) (hear : Listener α σ)
    (params : Parameter.Search α) (fuel : Nat) (p : Problem α) (s : Session α σ) :
    intopt ⟨host, some hear⟩ params fuel p s =
        mapState Session.unrecorded (intopt (.recorded host hear) params fuel p s.recorded) ∧
      Runs (intopt (.recorded host hear) params fuel p) s.recorded
        (fun r s' => ∃ now es u, Kept (Tree.ofProblem params p now) s'.world.log es ∧
          (∃ w ∈ visited, reasons es <+: w) ∧ Finished es r.2 u ∧
            (r.2 = .stopped → r.1 = p.withInteger
              (u.solution (if u.incumbent.isSome then .feasible else .undefined))))
        fun s' => ∃ now es, Kept (Tree.ofProblem params p now) s'.world.log es ∧
          (∃ w ∈ visited, reasons es <+: w) ∧ Failed es := by
  have hheard : ∀ {t : Tree α} {log es : List (Happening α)}, Kept t log es →
      ∃ w ∈ visited, reasons es <+: w := by
    rintro t log es ⟨rs, b, -, -, hfollowed⟩
    exact hfollowed.heard
  refine ⟨intopt_mirrors host hear params fuel p s.recorded,
    ((intopt_recorded params fuel p s).imp ?_).weaken ?_⟩
  · rintro ⟨q, code⟩ s' ⟨now, sol, hq, es, u, hkept, hfinished, hstopped⟩
    exact ⟨now, es, u, hkept, hheard hkept, hfinished, fun hcode => by rw [hq, hstopped hcode]⟩
  · rintro s' ⟨now, es, hkept, hfailed⟩
    exact ⟨now, es, hkept, hheard hkept, hfailed⟩

end MixedInteger
