import MixedInteger.Proofs.Search.Step
import MixedInteger.Proofs.Solver.Paired

/-! Two searches side by side, of problems that differ in the integer solution stored beside their
data. Without a time limit the clock has no part in a search, so in related worlds the two take
the same steps and come to the same end. Their listeners leave related worlds; from the first
event on, which is about a tree with nodes, the worlds may be related more closely. -/

namespace MixedInteger

variable {α σ β γ δ ζ : Type} [Scalar α]

/-! ### Trees begun at another time -/

/-- The tree of a search begun at another time, of a problem with another integer solution. -/
def Tree.aged (t : Tree α) (i : Solution α) (began : α) : Tree α :=
  { t with original := t.original.withInteger i, began := began }

/-- A change of trees that keeps the settings and takes no note of what may differ. -/
structure Tree.Ageless (f : Tree α → Tree α) : Prop where
  params : ∀ t, (f t).params = t.params
  aged : ∀ t i began, f (t.aged i began) = (f t).aged i began

namespace Tree

variable {f g : Tree α → Tree α} (n : Node α)

theorem Ageless.comp (hg : Ageless g) (hf : Ageless f) : Ageless fun t => g (f t) where
  params t := (hg.params _).trans (hf.params t)
  aged t i began := by rw [hf.aged, hg.aged]

theorem ageless_fathom : Ageless fun t : Tree α => t.fathom n := ⟨fun _ => rfl, fun _ _ _ => rfl⟩

theorem ageless_prune : Ageless (prune : Tree α → Tree α) := ⟨fun _ => rfl, fun _ _ _ => rfl⟩

theorem ageless_settle : Ageless fun t : Tree α => t.settle n := ⟨fun _ => rfl, fun _ _ _ => rfl⟩

theorem ageless_plant : Ageless (plant : Tree α → Tree α) := ⟨fun _ => rfl, fun _ _ _ => rfl⟩

theorem ageless_learn (objective : α) : Ageless fun t : Tree α => t.learn n objective := by
  unfold learn
  cases n.decision with
  | none => exact ⟨fun _ => rfl, fun _ _ _ => rfl⟩
  | some d => split_ifs <;> exact ⟨fun _ => rfl, fun _ _ _ => rfl⟩

theorem ageless_split (f : Fraction α) (fs : List (Fraction α)) :
    Ageless fun t : Tree α => t.split n f fs := by
  unfold split
  dsimp only
  split_ifs <;> exact ⟨fun _ => rfl, fun _ _ _ => rfl⟩

theorem activate_aged {t u : Tree α} {n : Node α} (h : t.activate n = .ok u) (i : Solution α)
    (began : α) : (t.aged i began).activate n = .ok (u.aged i began) ∧ u.params = t.params := by
  obtain ⟨p, hp, h⟩ := except_bind_eq_ok.1 h
  obtain ⟨q, hq, h⟩ := except_bind_eq_ok.1 h
  cases h
  exact ⟨except_bind_eq_ok.2 ⟨p, hp, except_bind_eq_ok.2 ⟨q, hq, rfl⟩⟩, rfl⟩

end Tree

/-! ### Pairs of steps -/

/-- Scenes of two searches without a time limit, in related worlds. -/
structure Scene.Like (R : σ → σ → Prop) (s s' : Scene α σ) : Prop where
  world : R s.session.world s'.session.world
  tree : ∃ i began, s'.tree = s.tree.aged i began
  unlimited : Parameter.unlimited ≤ s.tree.params.timeLimit

theorem Scene.Like.mono {R A : σ → σ → Prop} (h : ∀ w w', R w w' → A w w') {s s' : Scene α σ}
    (hs : Like R s s') : Like A s s' := ⟨h _ _ hs.world, hs.tree, hs.unlimited⟩

theorem Scene.Like.shown {A : σ → σ → Prop} {s s' : Scene α σ} (hs : Like A s s') (r : Reason) :
    Like A { s with tree := { s.tree with reason := some r } }
      { s' with tree := { s'.tree with reason := some r } } := by
  obtain ⟨i, began, htree⟩ := hs.tree
  exact ⟨hs.world, ⟨i, began, by rw [htree]; rfl⟩, hs.unlimited⟩

open Scene

namespace SearchTask

/-- From scenes that are alike the two steps return with related answers and alike again. -/
def Pairs (R : σ → σ → Prop) (x : SearchTask α σ β) (y : SearchTask α σ γ) (P : β → γ → Prop) :
    Prop := ∀ s s', Like R s s' → Matches x y s s' fun b t c t' => P b c ∧ Like R t t'

namespace Pairs

variable {R : σ → σ → Prop} {P : β → γ → Prop} {Q : δ → ζ → Prop}

theorem pure {b : β} {c : γ} (h : P b c) :
    Pairs R (Pure.pure b : SearchTask α σ β) (Pure.pure c : SearchTask α σ γ) P :=
  fun _ _ hs => .pure ⟨h, hs⟩

theorem throw (e : Fault α) (y : SearchTask α σ γ) :
    Pairs R (MonadExcept.throw e : SearchTask α σ β) y P := fun _ _ _ => .throw e y

theorem bind {x : SearchTask α σ β} {y : SearchTask α σ γ} {f : β → SearchTask α σ δ}
    {g : γ → SearchTask α σ ζ} (hx : Pairs R x y P) (hf : ∀ b c, P b c → Pairs R (f b) (g c) Q) :
    Pairs R (x >>= f) (y >>= g) Q :=
  fun s s' hs => (hx s s' hs).bind fun b t c t' h => hf b c h.1 t t' h.2

theorem next {x y : SearchTask α σ β} {f : β → SearchTask α σ δ} {g : β → SearchTask α σ ζ}
    (hx : Pairs R x y Eq) (hf : ∀ b, Pairs R (f b) (g b) Q) : Pairs R (x >>= f) (y >>= g) Q :=
  hx.bind fun b _ h => h ▸ hf b

theorem ite {p : Prop} [Decidable p] {x x' : SearchTask α σ β} {y y' : SearchTask α σ γ}
    (hx : Pairs R x y P) (hx' : Pairs R x' y' P) :
    Pairs R (if p then x else x') (if p then y else y') P :=
  fun s s' hs => .ite (hx s s' hs) (hx' s s' hs)

/-- A detour that may be taken or not. -/
theorem detour {p : Prop} [Decidable p] {x x' : SearchTask α σ β} {y y' : SearchTask α σ γ}
    (hx' : Pairs R x' y' P) (hx : Pairs R x' y' P → Pairs R x y P) :
    Pairs R (if p then x else x') (if p then y else y') P := .ite (hx hx') hx'

/-- The trees are read. -/
theorem tree {f : Tree α → SearchTask α σ δ} {g : Tree α → SearchTask α σ ζ}
    (h : ∀ t i began, Parameter.unlimited ≤ t.params.timeLimit →
      Pairs R (f t) (g (t.aged i began)) Q) :
    Pairs R (SearchTask.tree >>= f) (SearchTask.tree >>= g) Q := by
  rintro ⟨session, t⟩ ⟨session', t'⟩ hs
  obtain ⟨i, began, rfl⟩ := hs.tree
  exact h t i began hs.unlimited _ _ hs

theorem modifyTree {f : Tree α → Tree α} (hf : Tree.Ageless f) :
    Pairs R (SearchTask.modifyTree f : SearchTask α σ Unit) (SearchTask.modifyTree f) Eq := by
  rintro ⟨session, t⟩ ⟨session', t'⟩ hs _ _ ⟨⟩
  obtain ⟨i, began, rfl⟩ := hs.tree
  refine ⟨(), _, rfl, rfl, hs.world, ⟨i, began, hf.aged t i began⟩, ?_⟩
  exact (hf.params t).symm ▸ hs.unlimited

theorem ofTask {x : Task α σ β} {y : Task α σ γ} (h : Task.Pairs R x y P) :
    Pairs R (SearchTask.ofTask x) (SearchTask.ofTask y) P := by
  intro s s' hs b t hrun
  unfold SearchTask.ofTask at hrun ⊢
  cases hx : x s.session with
  | error e session =>
    rw [hx] at hrun
    cases hrun
  | ok b session =>
    rw [hx] at hrun
    cases hrun
    obtain ⟨c, session', hy, hP, hR⟩ := h _ _ hs.world b session hx
    exact ⟨c, { s' with session := session' }, by rw [hy], hP, hR, hs.tree, hs.unlimited⟩

theorem ofRounding (x : Except RoundingError β) :
    Pairs R (SearchTask.ofRounding x : SearchTask α σ β) (SearchTask.ofRounding x) Eq :=
  ofTask (.ofRounding x)

theorem ofSearch (x : Except SearchError β) :
    Pairs R (SearchTask.ofSearch x : SearchTask α σ β) (SearchTask.ofSearch x) Eq := by
  cases x with
  | error e => exact .throw _ _
  | ok b => exact .pure rfl

theorem ofProblem {x : Except (ProblemError α) β} {y : Except (ProblemError α) γ}
    (h : ∀ b, x = .ok b → ∃ c, y = .ok c ∧ P b c) :
    Pairs R (SearchTask.ofProblem x : SearchTask α σ β) (SearchTask.ofProblem y) P := by
  cases x with
  | error e => exact .throw _ _
  | ok b =>
    obtain ⟨c, rfl, hP⟩ := h b rfl
    exact .pure hP

/-- The trees are replaced. -/
theorem setTree {t : Tree α} {i : Solution α} {began : α}
    (h : Parameter.unlimited ≤ t.params.timeLimit) :
    Pairs R (SearchTask.modifyTree fun _ => t : SearchTask α σ Unit)
      (SearchTask.modifyTree fun _ => t.aged i began) Eq := by
  rintro s s' hs _ _ ⟨⟩
  exact ⟨(), _, rfl, rfl, hs.world, ⟨i, began, rfl⟩, h⟩

theorem say (n n' : Notice α) :
    Pairs R (SearchTask.say n : SearchTask α σ Unit) (SearchTask.say n') Eq :=
  .tree fun _ _ _ _ => .ofTask (.tellAt _ _ _ _)

end Pairs

end SearchTask

namespace Search

open SearchTask (Pairs)

variable {host : Host α σ} {hear hear' : Listener α σ} {R A : σ → σ → Prop}

/-! ### Without events -/

theorem record_pairs : Pairs (α := α) R record record Eq := by
  refine .tree fun t i began _ => (Pairs.ofRounding t.candidate).next fun o => ?_
  cases o with
  | none => exact .pure rfl
  | some i =>
    exact (Pairs.modifyTree (by exact ⟨fun _ => rfl, fun _ _ _ => rfl⟩)).next fun _ =>
      (Pairs.say _ _).next fun _ => .pure rfl

theorem rowCount_pairs : Pairs (α := α) R rowCount rowCount Eq :=
  .tree fun _ _ _ _ => .pure rfl

/-- Without a limit the clock is not read. -/
theorem timeUp_run (c : Company α σ) {s : Scene α σ}
    (h : Parameter.unlimited ≤ s.tree.params.timeLimit) : timeUp c s = .ok false s := by
  have hread : (SearchTask.tree : SearchTask α σ (Tree α)) s = .ok s.tree s := rfl
  unfold timeUp
  rw [bind_run, hread]
  dsimp only
  rw [if_neg (Int.not_lt.2 h), pure_run]

theorem relaxation_pairs : Pairs R (relaxation (⟨host, some hear⟩ : Company α σ))
    (relaxation ⟨host, some hear'⟩) Eq := by
  refine .tree fun t i began h => ?_
  have hlimit : ¬t.params.timeLimit < Parameter.unlimited := Int.not_lt.2 h
  dsimp only [Tree.aged]
  rw [if_neg hlimit, if_neg hlimit]
  exact .pure rfl

theorem relax_pairs (hhost : host.Respects R) (settings : Parameter.Simplex α) :
    Pairs R (relax (⟨host, some hear⟩ : Company α σ) settings)
      (relax ⟨host, some hear'⟩ settings) Eq := by
  refine .tree fun t i began _ => ?_
  refine (Pairs.ofTask (simplex_pairs t.problem _ _ _ settings hhost)).bind fun r r' h => ?_
  obtain ⟨b, hb, rfl⟩ := h
  have hsame : (t.problem.withSolutions t.problem.basic t.problem.interior
      t.problem.integer).withBasic b = r.1 := hb.symm
  dsimp only
  rw [hsame]
  exact (Pairs.modifyTree (by exact ⟨fun _ => rfl, fun _ _ _ => rfl⟩)).next fun _ => .pure rfl

theorem presolved_pairs (hhost : host.Respects R) :
    Pairs R (presolved (⟨host, some hear⟩ : Company α σ)) (presolved ⟨host, some hear'⟩) Eq := by
  unfold presolved
  refine relaxation_pairs.next fun settings => (relax_pairs hhost _).next fun code => ?_
  cases code with
  | noPrimal => exact (Pairs.say _ _).next fun _ => .pure rfl
  | noDual => exact (Pairs.say _ _).next fun _ => .pure rfl
  | done => exact .tree fun t i began _ => .ite (.pure rfl) (.pure rfl)
  | _ => exact .pure rfl

/-! ### Events -/

/-- From what the listeners leave behind. -/
theorem heard_matches {r : Reason} {s s' : Scene α σ}
    (h : Matches hear hear' { s with tree := { s.tree with reason := some r } }
      { s' with tree := { s'.tree with reason := some r } } fun _ t _ t' => Like R t t') :
    Matches (heard (⟨host, some hear⟩ : Company α σ) r) (heard ⟨host, some hear'⟩ r) s s'
      fun b t c t' => b = c ∧ Like R t t' := by
  refine Matches.bind (Q := fun _ t _ t' => Like R t t') (fun b u hrun => ?_) ?_
  · unfold SearchTask.announce at hrun ⊢
    dsimp only at hrun ⊢
    cases hfirst : hear { s with tree := { s.tree with reason := some r } } with
    | error e v =>
      rw [hfirst] at hrun
      cases hrun
    | ok _ v =>
      rw [hfirst] at hrun
      cases hrun
      obtain ⟨_, v', hsecond, hworld, ⟨i, began, htree⟩, hunlimited⟩ := h () v hfirst
      rw [hsecond]
      exact ⟨(), _, rfl, hworld, ⟨i, began, by rw [htree]; rfl⟩, hunlimited⟩
  · rintro _ ⟨session, t⟩ _ ⟨session', t'⟩ hs
    obtain ⟨i, began, rfl⟩ := hs.tree
    exact .pure ⟨rfl, hs⟩

/-! ### From the first event on -/

section
variable (hhost : host.Respects R) (hhear : Pairs R hear hear' Eq)

section
include hhear

theorem heard_pairs (r : Reason) : Pairs R (heard (⟨host, some hear⟩ : Company α σ) r)
    (heard ⟨host, some hear'⟩ r) Eq :=
  fun _ _ hs => heard_matches ((hhear _ _ (Scene.Like.shown hs r)).imp fun _ _ _ _ h => h.2)

theorem takePoint_pairs (n : Node α) : Pairs R (takePoint (⟨host, some hear⟩ : Company α σ) n)
    (takePoint ⟨host, some hear'⟩ n) Eq := by
  refine record_pairs.next fun _ => .detour ?_ fun hrest => ?_
  · exact (Pairs.modifyTree ((Tree.ageless_prune).comp (Tree.ageless_fathom n))).next
      fun _ => .pure rfl
  · exact (heard_pairs hhear _).next fun _ => .ite (.pure rfl) hrest

theorem divide_pairs (n : Node α) (fs : List (Fraction α)) :
    Pairs R (divide (⟨host, some hear⟩ : Company α σ) n fs)
      (divide ⟨host, some hear'⟩ n fs) Eq := by
  have hheard : ∀ r, Pairs R (heard (⟨host, some hear⟩ : Company α σ) r)
      (heard ⟨host, some hear'⟩ r) Eq := heard_pairs hhear
  unfold divide
  dsimp only
  refine .detour ?_ fun hrest =>
    (Pairs.modifyTree (by exact ⟨fun _ => rfl, fun _ _ _ => rfl⟩)).next fun _ => hrest
  refine (hheard _).next fun _ => .ite (.pure rfl) (rowCount_pairs.next fun rows => ?_)
  refine (hheard _).next fun _ => .ite (.pure rfl) (rowCount_pairs.next fun rows' => ?_)
  refine .ite (.pure rfl) ((hheard _).next fun _ => .ite (.pure rfl) (.tree fun t i began _ => ?_))
  have hchoose : (t.aged i began).choose fs = t.choose fs := rfl
  rw [hchoose]
  cases t.choose fs with
  | none => exact .pure rfl
  | some f =>
    exact (Pairs.modifyTree (Tree.ageless_split n f fs)).next fun _ =>
      (Pairs.say _ _).next fun _ => .pure rfl

theorem take_pairs : Pairs R (take (⟨host, some hear⟩ : Company α σ)) (take ⟨host, some hear'⟩)
    Eq := by
  refine .tree fun t i began _ => (Pairs.ofSearch t.select).next fun o => ?_
  cases o with
  | none => exact .pure rfl
  | some n =>
    refine .tree fun t i began hunlimited => ?_
    refine (Pairs.ofProblem (P := fun u u' => u' = u.aged i began ∧ u.params = t.params)
      fun u hu => ⟨_, (Tree.activate_aged hu i began).1, rfl,
        (Tree.activate_aged hu i began).2⟩).bind ?_
    rintro u _ ⟨rfl, hparams⟩
    refine (Pairs.setTree (hparams ▸ hunlimited)).next fun _ => ?_
    exact (heard_pairs hhear _).next fun _ => .ite (.pure rfl) (.pure rfl)

theorem weigh_pairs (n : Node α) : Pairs R (weigh (⟨host, some hear⟩ : Company α σ) n)
    (weigh ⟨host, some hear'⟩ n) Eq := by
  unfold weigh
  refine .tree fun t i began _ => (Pairs.modifyTree (Tree.ageless_learn n _)).next fun _ => ?_
  refine (Pairs.modifyTree (Tree.ageless_settle _)).next fun _ => .tree fun u j began' _ => ?_
  refine .ite ((Pairs.modifyTree (Tree.ageless_fathom _)).next fun _ => .pure rfl) ?_
  refine rowCount_pairs.next fun rows => (heard_pairs hhear _).next fun _ => .ite (.pure rfl) ?_
  refine rowCount_pairs.next fun rows' => .ite (.pure rfl) (.tree fun v j began' _ => ?_)
  refine (Pairs.ofRounding v.fractional).next fun fs => ?_
  exact .ite (takePoint_pairs hhear _) (divide_pairs hhear _ fs)

end

include hhost hhear

theorem visit_pairs (n : Node α) : Pairs R (visit (⟨host, some hear⟩ : Company α σ) n)
    (visit ⟨host, some hear'⟩ n) Eq := by
  refine (Pairs.modifyTree (by exact ⟨fun _ => rfl, fun _ _ _ => rfl⟩)).next fun _ => ?_
  refine relaxation_pairs.next fun settings => (relax_pairs hhost settings).next fun code => ?_
  refine .ite (.pure rfl) (.ite (.pure rfl) (.tree fun t i began _ => ?_))
  dsimp only [Tree.aged]
  cases t.problem.basic.status with
  | noFeasible => exact (Pairs.modifyTree (Tree.ageless_fathom n)).next fun _ => .pure rfl
  | optimal => exact weigh_pairs hhear n
  | _ => exact .pure rfl

omit hhost in
/-- The choice of a node. Until its first event the worlds are related by `A` only. -/
theorem choose_matches (hmono : ∀ w w', R w w' → A w w')
    (hfirst : ∀ s s', Like A s s' → s.tree.active ≠ [] →
      Matches hear hear' s s' fun _ t _ t' => Like R t t')
    {s s' : Scene α σ} (hs : Like A s s') :
    Matches (choose (⟨host, some hear⟩ : Company α σ)) (choose ⟨host, some hear'⟩) s s'
      fun n t n' t' => n = n' ∧ Like A t t' ∧ ∀ φ, n = .go φ → Like R t t' := by
  have hdone : ∀ {code : ReturnCode} {t t' : Scene α σ}, Like A t t' →
      (Next.done code : Next α) = .done code ∧ Like A t t' ∧
        ∀ φ, (Next.done code : Next α) = .go φ → Like R t t' :=
    fun h => ⟨rfl, h, fun φ hφ => by cases hφ⟩
  obtain ⟨session, t⟩ := s
  obtain ⟨session', t'⟩ := s'
  obtain ⟨i, began, rfl⟩ := hs.tree
  have hlater : Like A ⟨session, { t with current := none }⟩
      ⟨session', { t.aged i began with current := none }⟩ :=
    ⟨hs.world, ⟨i, began, rfl⟩, hs.unlimited⟩
  unfold choose
  refine .step rfl rfl ?_
  dsimp only [Tree.aged]
  by_cases hempty : t.active.isEmpty = true
  · rw [if_pos hempty, if_pos hempty]
    exact .step rfl rfl (.pure (hdone hlater))
  rw [if_neg hempty, if_neg hempty]
  refine .step (timeUp_run _ hs.unlimited) (timeUp_run _ hs.unlimited) ?_
  rw [if_neg Bool.false_ne_true, if_neg Bool.false_ne_true]
  refine .step rfl rfl (.ite ?_ ?_)
  · refine (Pairs.say (R := A) .gapReached .gapReached _ _ hs).bind ?_
    rintro _ u _ u' ⟨-, hu⟩
    exact .pure (hdone hu)
  · refine .step rfl rfl ?_
    have hactive : t.active ≠ [] := by rwa [List.isEmpty_iff] at hempty
    refine (heard_matches (hfirst _ _ (hlater.shown .selection) hactive)).bind ?_
    rintro b u _ u' ⟨rfl, hu⟩
    cases b with
    | true => exact .pure (hdone (hu.mono hmono))
    | false =>
      refine (take_pairs hhear u u' hu).imp ?_
      rintro n v _ v' ⟨rfl, hv⟩
      exact ⟨rfl, hv.mono hmono, fun _ _ => hv⟩

theorem step_pairs (φ : Phase α) : Pairs R (step (⟨host, some hear⟩ : Company α σ) φ)
    (step ⟨host, some hear'⟩ φ) Eq := by
  cases φ with
  | choose =>
    intro s s' hs
    refine (choose_matches hhear (fun _ _ => id) (fun s s' hs _ => ?_) hs).imp ?_
    · exact (hhear s s' hs).imp fun _ _ _ _ h => h.2
    · exact fun _ _ _ _ h => ⟨h.1, h.2.1⟩
  | visit n => exact visit_pairs hhost hhear n

theorem run_pairs (fuel : Nat) (φ : Phase α) :
    Pairs R (run (⟨host, some hear⟩ : Company α σ) fuel φ)
      (run ⟨host, some hear'⟩ fuel φ) Eq := by
  induction fuel generalizing φ with
  | zero => exact .throw _ _
  | succ fuel ih =>
    refine (step_pairs hhost hhear φ).next fun next => ?_
    cases next with
    | done code => exact .pure rfl
    | go φ' => exact ih φ'

/-! ### The whole search -/

variable (hbefore : host.Respects A) (hmono : ∀ w w', R w w' → A w w')
  (hfirst : ∀ s s', Like A s s' → s.tree.active ≠ [] →
    Matches hear hear' s s' fun _ t _ t' => Like R t t')
include hmono hfirst

theorem explore_pairs (fuel : Nat) : Pairs A (explore (⟨host, some hear⟩ : Company α σ) fuel)
    (explore ⟨host, some hear'⟩ fuel) Eq := by
  refine (Pairs.modifyTree Tree.ageless_plant).next fun _ s s' hs => ?_
  cases fuel with
  | zero => exact .throw _ _
  | succ fuel =>
    refine (choose_matches hhear hmono hfirst hs).bind ?_
    rintro n t _ t' ⟨rfl, hA, hR⟩
    cases n with
    | done code => exact .pure ⟨rfl, hA⟩
    | go φ =>
      refine (run_pairs hhost hhear fuel φ t t' (hR φ rfl)).imp ?_
      exact fun _ _ _ _ h => ⟨h.1, h.2.mono hmono⟩

include hbefore

theorem conclude_pairs (fuel : Nat) : Pairs A (conclude (⟨host, some hear⟩ : Company α σ) fuel)
    (conclude ⟨host, some hear'⟩ fuel) Eq := by
  have hexplore := explore_pairs hhost hhear hmono hfirst fuel
  unfold conclude
  refine .tree fun t i began _ => ?_
  dsimp only
  refine .detour (.detour (hexplore.next fun code => .tree fun t i began _ => ?_) fun hrest => ?_)
    fun hrest => ?_
  · dsimp only [Tree.aged]
    split
    · exact (Pairs.say _ _).next fun _ => .pure rfl
    · exact (Pairs.say _ _).next fun _ => .pure rfl
    · exact .pure rfl
  · refine (presolved_pairs hbefore).next fun o => ?_
    cases o with
    | none => exact hrest
    | some r => exact .pure rfl
  · exact .tree fun t i began _ => (Pairs.ofTask (.tell _ _)).next fun _ => hrest

/-- Two searches of problems that differ in their integer solutions come to the same end. -/
theorem intopt_pairs {params : Parameter.Search α} (hlimit : Parameter.unlimited ≤ params.timeLimit)
    (fuel : Nat) (p : Problem α) (i : Solution α) :
    Task.Pairs A (intopt (⟨host, some hear⟩ : Company α σ) params fuel p)
      (intopt ⟨host, some hear'⟩ params fuel (p.withInteger i)) Eq := by
  have hobstacle : obstacle (p.withInteger i) = obstacle p := rfl
  have hconclude := conclude_pairs hhost hhear hbefore hmono hfirst
  unfold intopt
  rw [hobstacle]
  refine (Task.Pairs.ofRounding (obstacle p)).next fun o => ?_
  cases o with
  | some why => exact (Task.Pairs.tellAt _ _ _ _).next fun _ => .pure rfl
  | none =>
    refine .ite ((Task.Pairs.tellAt _ _ _ _).next fun _ => .pure rfl) ?_
    refine (Task.Pairs.now host).bind fun began began' _ => .next ?_ fun r => .pure rfl
    intro s s' hs r t hrun
    have hlike : Like A ⟨s, Tree.ofProblem params p began⟩
        ⟨s', Tree.ofProblem params (p.withInteger i) began'⟩ := ⟨hs, ⟨i, began', rfl⟩, hlimit⟩
    dsimp only at hrun ⊢
    cases hend : conclude (⟨host, some hear⟩ : Company α σ) fuel
        ⟨s, Tree.ofProblem params p began⟩ with
    | error e u =>
      rw [hend] at hrun
      cases hrun
    | ok r u =>
      rw [hend] at hrun
      cases hrun
      obtain ⟨r', u', hsecond, hr, hu⟩ := hconclude fuel _ _ hlike r u hend
      rw [hsecond]
      exact ⟨r', u'.session, rfl, hr, hu.world⟩

end

end Search

end MixedInteger
