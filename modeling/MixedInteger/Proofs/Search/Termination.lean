import MixedInteger.Proofs.Model.Ending
import MixedInteger.Proofs.Number.DoubleValue
import MixedInteger.Proofs.Search.Choice
import MixedInteger.Proofs.Search.Potential
import MixedInteger.Proofs.Solver.Session

/-! Searches end. When the integer columns have finite bounds, every visit makes the tree lighter,
whatever the relaxations are worth and in whatever order the nodes are taken, and so there are
fewer visits than twice the number of integer points. Little is asked of the numbers, and doubles
have it. -/

namespace MixedInteger

open Scalar ValuedScalar SearchTask

variable {α σ β γ : Type} [Scalar α] [ValuedScalar α]

/-- The clock can be read off at any time: what is left of a time limit is a number, and so is a
limit made of it. -/
def Host.Punctual (host : Host α σ) (limit : Int) : Prop :=
  ∃ x : α, ofInt? limit = some x ∧ ∀ w w', ∃ rest,
    toInt (x - (host.now w' - host.now w) * Scalar.ofNat 1000) = .ok rest ∧
      (ofInt? (max 1 rest) : Option α).isSome

namespace Search

/-- Where a search stands between two steps. -/
def Stands (p : Problem α) (params : Parameter.Search α) (began : α) (t : Tree α) : Phase α → Prop
  | .choose => t.Regular p params began
  | .visit n => t.InHand p params began n

/-- The steps that are left at most: a choice and a visit for each unit of weight, and the choice
that finds no node. -/
noncomputable def left (p : Problem α) (t : Tree α) : Phase α → ℕ
  | .choose => 2 * t.weight p + 1
  | .visit _ => 2 * t.weight p

theorem left_pos {p : Problem α} {params : Parameter.Search α} {began : α} {t : Tree α}
    {φ : Phase α} (h : Stands p params began t φ) : 0 < left p t φ := by
  cases φ with
  | choose => exact Nat.succ_pos _
  | visit n =>
    have hfathom := Tree.weight_fathom (p := p) h.mem
    have hpos := (h.whole n h.mem).weight_pos
    change 0 < 2 * t.weight p
    omega

/-- A step goes on with fewer steps left, and pays for a visit with weight. -/
def Advances (p : Problem α) (params : Parameter.Search α) (began : α) (t : Tree α) (φ : Phase α) :
    Next α → Tree α → Prop
  | .go φ', t' => Stands p params began t' φ' ∧ left p t' φ' < left p t φ ∧
      t'.solved + t'.weight p ≤ t.solved + t.weight p
  | .done _, t' => t'.solved ≤ t.solved + t.weight p

/-- In the middle of a visit: it has been counted, and nothing has been given up yet. -/
structure Visiting (p : Problem α) (params : Parameter.Search α) (began : α) (t : Tree α)
    (n : Node α) (t' : Tree α) : Prop where
  inHand : t'.InHand p params began n
  weight : t'.weight p = t.weight p
  solved : t'.solved = t.solved + 1

namespace Visiting

variable {p : Problem α} {params : Parameter.Search α} {began : α} {t t' : Tree α} {n m : Node α}

theorem weight_pos (h : Visiting p params began t n t') : 0 < t.weight p := by
  have hfathom := Tree.weight_fathom (p := p) h.inHand.mem
  have hpos := (h.inHand.whole n h.inHand.mem).weight_pos
  have := h.weight
  omega

theorem done (h : Visiting p params began t n t') (code : ReturnCode) :
    Advances p params began t (.visit m) (.done code) t' := by
  have := h.weight_pos
  have := h.solved
  change t'.solved ≤ _
  omega

/-- A visit ends with a lighter tree. -/
theorem lighter {u : Tree α} (h : Visiting p params began t n t') (hu : u.Regular p params began)
    (hweight : u.weight p < t'.weight p) (hsolved : u.solved = t'.solved) :
    Advances p params began t (.visit m) (.go .choose) u := by
  have := h.weight
  have := h.solved
  refine ⟨hu, ?_, ?_⟩
  · change 2 * u.weight p + 1 < 2 * t.weight p
    omega
  · omega

theorem fathom (h : Visiting p params began t n t') :
    Advances p params began t (.visit m) (.go .choose) (t'.fathom n) := by
  have hfathom := Tree.weight_fathom (p := p) h.inHand.mem
  have hpos := (h.inHand.whole n h.inHand.mem).weight_pos
  exact h.lighter (h.inHand.toRegular.fathom n) (by omega) rfl

/-- The reason of an event does not matter. -/
theorem shown (h : Visiting p params began t n t') (reason : Option Reason) :
    Visiting p params began t n { t' with reason := reason } :=
  ⟨h.inHand.shown reason, h.weight, h.solved⟩

end Visiting

/-- A listener that returns and leaves the tree alone, but for its reason. -/
def Company.Quiet (c : Company α σ) : Prop :=
  ∀ r s, Runs (announce c.listener r) s
    (fun _ s' => ∃ reason, s'.tree = { s.tree with reason := reason }) fun _ => False

omit [ValuedScalar α] in
/-- Without a listener nothing happens at an event. -/
theorem Company.quiet_of_none {c : Company α σ} (h : c.listener = none) : c.Quiet := by
  intro r s
  rw [h]
  exact ⟨s.tree.reason, rfl⟩

/-- A search in which neither the listener nor the clock interferes. -/
structure Unhindered (c : Company α σ) (params : Parameter.Search α) (p : Problem α) : Prop where
  quiet : c.Quiet
  clock : params.timeLimit < Parameter.unlimited → c.host.Punctual params.timeLimit
  tolerance : 0 ≤ params.integerTolerance
  technique : params.backtracking ∈ [1, 2, 3, 4]
  bounded : p.Bounded

/-- What holds before the nodes are gone through and while they are, if it sees to it that
relaxations are solved. -/
structure Sustains (c : Company α σ) (before : Scene α σ → Prop)
    (during : Phase α → Scene α σ → Prop) : Prop where
  told : ∀ s s', s'.tree = s.tree → s'.session.world = s.session.world → before s → before s'
  presolved : ∀ s, before s →
    Runs (presolved c) s (fun r s' => r = none → before s') fun _ => True
  first : ∀ s, before s → c.host.Relaxes s.tree.problem
  planted : ∀ s, before s → during .choose { s with tree := s.tree.plant }
  step : ∀ φ s, during φ s →
    Runs (step c φ) s (fun next s' => ∀ φ', next = .go φ' → during φ' s') fun _ => True
  relaxes : ∀ n s, during (.visit n) s → c.host.Relaxes s.tree.problem

namespace Unhindered

variable {c : Company α σ} {params : Parameter.Search α} {p : Problem α} {w : σ}
  {s : Scene α σ} {n : Node α} {P : γ → Scene α σ → Prop}

/-! ### Reading the clock -/

omit [ValuedScalar α] in
theorem ofTask_returns {x : Task α σ β} {Q : β → Prop} (hx : Task.Returns x Q) :
    Runs (ofTask x) s (fun b s' => Q b ∧ s'.tree = s.tree) fun _ => False :=
  ofTask_session (hx s.session) fun _ => id

omit [ValuedScalar α] in
theorem say_returns (m : Notice α) :
    Runs (say m) s (fun _ s' => s'.tree = s.tree) fun _ => False :=
  tree_bind ((ofTask_returns (Task.Returns.tellAt _ _ _)).imp fun _ _ h => h.2)

omit [ValuedScalar α] in
/-- What has passed is read off the clock. -/
theorem elapsed_returns {f : α → SearchTask α σ γ}
    (h : ∀ w' s', s'.tree = s.tree →
      Runs (f ((c.host.now w' - s.tree.began) * Scalar.ofNat 1000)) s' P fun _ => False) :
    Runs (elapsed c >>= f) s P fun _ => False := h s.session.world s rfl

omit [ValuedScalar α] in
theorem timeUp_returns {f : Bool → SearchTask α σ γ}
    (h : ∀ up s', s'.tree = s.tree → Runs (f up) s' P fun _ => False) :
    Runs (timeUp c >>= f) s P fun _ => False := by
  refine Runs.bind (P := fun _ s' => s'.tree = s.tree) (tree_bind ?_) fun up s' => h up s'
  dsimp only
  split_ifs
  · exact elapsed_returns fun _ _ htree => .pure htree
  · exact .pure rfl

variable (h : Unhindered c params p)
include h

theorem relaxation_returns (ht : s.tree.Regular p params (c.host.now w)) :
    Runs (relaxation c) s (fun settings s' => settings.Timed ∧ s'.tree = s.tree)
      fun _ => False := by
  unfold relaxation
  refine tree_bind ?_
  dsimp only
  split
  · next hlimit =>
    rw [ht.params] at hlimit
    obtain ⟨x, hx, hclock⟩ := h.clock hlimit
    have hnumber : Task.Returns (Task.number params.timeLimit : Task α σ α) (· = x) := by
      rw [Task.number, hx]
      exact .pure rfl
    rw [ht.params]
    refine (ofTask_returns hnumber).bind ?_
    rintro _ s' ⟨rfl, htree⟩
    refine elapsed_returns fun w' s₂ htree₂ => ?_
    obtain ⟨rest, hrest, htimed⟩ := hclock w w'
    rw [htree, ht.began]
    exact ofRounding_bind hrest (.pure ⟨fun _ => htimed, htree₂.trans htree⟩)
  · exact .pure ⟨fun hlimit => absurd hlimit (lt_irrefl _), rfl⟩

omit [ValuedScalar α] h in
/-- A relaxation is solved in place. -/
theorem relax_solves {settings : Parameter.Simplex α} {Q : Problem α × ReturnCode → Prop}
    (hx : Task.Returns (simplex c.host settings s.tree.problem) Q) :
    Runs (relax c settings) s
      (fun code s' => ∃ q, Q (q, code) ∧ s'.tree = { s.tree with problem := q })
      fun _ => False := by
  unfold relax
  refine tree_bind ((ofTask_returns hx).bind ?_)
  rintro ⟨q, code⟩ s' ⟨hq, htree⟩
  refine modifyTree_bind (.pure ⟨q, hq, ?_⟩)
  dsimp only
  rw [htree]

omit [ValuedScalar α] h in
theorem relax_returns (hrelaxes : c.host.Relaxes s.tree.problem) {settings : Parameter.Simplex α}
    (htimed : settings.Timed) :
    Runs (relax c settings) s
      (fun _ s' => ∃ b, s'.tree = { s.tree with problem := s.tree.problem.withBasic b } ∧
        (b.status = .optimal → s.tree.problem.Within b.colPrimal)) fun _ => False := by
  refine (relax_solves (hrelaxes settings htimed)).imp ?_
  rintro _ s' ⟨_, ⟨b, rfl, hwithin⟩, htree⟩
  exact ⟨b, htree, hwithin⟩

theorem heard_returns {r : Reason} {f : Bool → SearchTask α σ γ}
    (hf : ∀ s' reason, s'.tree = { s.tree with reason := reason } →
      Runs (f s.tree.stopped) s' P fun _ => False) :
    Runs (heard c r >>= f) s P fun _ => False := by
  have hrun : Runs (heard c r) s (fun b s' => b = s.tree.stopped ∧
      ∃ reason, s'.tree = { s.tree with reason := reason }) fun _ => False := by
    refine (h.quiet r s).bind ?_
    rintro _ s' ⟨reason, htree⟩
    exact tree_bind (.pure ⟨by rw [htree], reason, htree⟩)
  refine hrun.bind ?_
  rintro _ s' ⟨rfl, reason, htree⟩
  exact hf s' reason htree

/-! ### Visiting a node -/

section Visit
variable {t : Tree α} {m : Node α} {began : α} (hv : Visiting p params began t n s.tree)
  (hwithin : s.tree.problem.Within s.tree.problem.basic.colPrimal)
include hv

/-- An event during a visit, after which the search ends or goes on. -/
theorem heard_visiting {r : Reason} {f : Bool → SearchTask α σ γ}
    (hstop : ∀ s' : Scene α σ, Visiting p params began t n s'.tree →
      Runs (f true) s' P fun _ => False)
    (hgo : ∀ s' : Scene α σ, Visiting p params began t n s'.tree →
      s'.tree.problem = s.tree.problem → Runs (f false) s' P fun _ => False) :
    Runs (heard c r >>= f) s P fun _ => False := by
  refine h.heard_returns fun s' reason htree => ?_
  have hv' : Visiting p params began t n s'.tree := htree ▸ hv.shown reason
  cases s.tree.stopped with
  | true => exact hstop s' hv'
  | false => exact hgo s' hv' (by rw [htree])

include hwithin

theorem takePoint_returns : Runs (takePoint c n) s
    (fun next s' => Advances p params began t (.visit m) next s'.tree) fun _ => False := by
  have hprune : ∀ u : Tree α, Visiting p params began t n u →
      Advances p params began t (.visit m) (.go .choose) (u.fathom n).prune := by
    intro u hu
    have hfathom := Tree.weight_fathom (p := p) hu.inHand.mem
    have hpos := (hu.inHand.whole n hu.inHand.mem).weight_pos
    have hle := Tree.weight_prune (p := p) (t := u.fathom n)
    exact hu.lighter (hu.inHand.toRegular.fathom n).prune (by omega) rfl
  obtain ⟨o, ho⟩ := Tree.exists_candidate hv.inHand.carries
    (hv.inHand.whole n hv.inHand.mem).finite hwithin
  unfold takePoint record
  refine Runs.bind (P := fun _ s' => Visiting p params began t n s'.tree)
    (tree_bind (ofRounding_bind ho ?_)) fun better s₁ h₁ => ?_
  · cases o with
    | none => exact .pure hv
    | some i =>
      refine modifyTree_bind ((say_returns _).bind fun _ s₁ htree => .pure ?_)
      rw [htree]
      exact ⟨⟨hv.inHand.toRegular.congr rfl, hv.inHand.mem, hv.inHand.carries⟩, hv.weight,
        hv.solved⟩
  · cases better with
    | false => exact modifyTree_bind (.pure (hprune _ h₁))
    | true =>
      exact h.heard_visiting h₁ (fun _ h₂ => .pure (h₂.done _)) fun _ h₂ _ =>
        modifyTree_bind (.pure (hprune _ h₂))

omit hwithin in
theorem divide_returns {fs : List (Fraction α)} (hne : fs ≠ [])
    (hfs : ∀ f ∈ fs, ∃ j : p.Place, f.column = j.number ∧ j.Between n.sides f.value ∧
      ¬IsIntegral f.value) : Runs (divide c n fs) s
    (fun next s' => Advances p params began t (.visit m) next s'.tree) fun _ => False := by
  unfold divide
  refine modifyTree_if ?_
  generalize hs₁ : ({ s with tree := _ } : Scene α σ) = s₁
  have hv₁ : Visiting p params began t n s₁.tree := by
    rw [← hs₁]
    dsimp only
    split_ifs
    · exact ⟨⟨hv.inHand.toRegular.congr rfl, hv.inHand.mem, hv.inHand.carries⟩, hv.weight,
        hv.solved⟩
    · exact hv
  refine h.heard_visiting hv₁ (fun _ hv₂ => .pure (hv₂.done _)) fun s₂ hv₂ _ => ?_
  refine rowCount_bind (h.heard_visiting hv₂ (fun _ hv₃ => .pure (hv₃.done _))
    fun s₃ hv₃ hproblem => rowCount_bind ?_)
  rw [hproblem, if_neg (lt_irrefl _)]
  refine h.heard_visiting hv₃ (fun _ hv₄ => .pure (hv₄.done _)) fun s₄ hv₄ _ => tree_bind ?_
  obtain ⟨f, hf⟩ := Tree.exists_choose (t := s₄.tree) hne
  obtain ⟨j, hj, hbetween, hfraction⟩ := hfs f (Tree.choose_mem hf)
  obtain ⟨hregular, hweight⟩ := hv₄.inHand.split hj hbetween hfraction fs
  have hsolved : (s₄.tree.split n f fs).solved = s₄.tree.solved := by
    unfold Tree.split
    split_ifs <;> rfl
  rw [hf]
  refine modifyTree_bind ((say_returns _).bind fun _ s₅ htree => .pure ?_)
  rw [htree]
  exact hv₄.lighter hregular hweight hsolved

theorem weigh_returns : Runs (weigh c n) s
    (fun next s' => Advances p params began t (.visit m) next s'.tree) fun _ => False := by
  unfold weigh
  refine tree_bind (modifyTree_bind (modifyTree_bind (tree_bind ?_)))
  generalize s.tree.problem.basic.objective = objective
  have hlearned : Visiting p params began t n (s.tree.learn n objective) := by
    unfold Tree.learn
    split
    · exact hv
    split
    · exact hv
    · exact ⟨⟨hv.inHand.toRegular.congr rfl, hv.inHand.mem, hv.inHand.carries⟩, hv.weight,
        hv.solved⟩
  have hproblem : (s.tree.learn n objective).problem = s.tree.problem := by
    unfold Tree.learn
    split
    · rfl
    split <;> rfl
  obtain ⟨hsettled, hweight⟩ := hlearned.inHand.settle objective
  generalize hs₁ : ({ s with tree := _ } : Scene α σ) = s₁
  have htree₁ : s₁.tree = (s.tree.learn n objective).settle { n with bound := objective } := by
    rw [← hs₁]
  have hv₁ : Visiting p params began t { n with bound := objective } s₁.tree := by
    rw [htree₁]
    exact ⟨hsettled, hweight.trans hlearned.weight, hlearned.solved⟩
  have hwithin₁ : s₁.tree.problem.Within s₁.tree.problem.basic.colPrimal := by
    have : s₁.tree.problem = s.tree.problem := by rw [htree₁, ← hproblem]; rfl
    rwa [this]
  split
  · exact modifyTree_bind (.pure hv₁.fathom)
  refine rowCount_bind (h.heard_visiting hv₁ (fun _ hv₂ => .pure (hv₂.done _))
    fun s₂ hv₂ hproblem₂ => rowCount_bind ?_)
  rw [hproblem₂, if_neg (lt_irrefl _)]
  rw [← hproblem₂] at hwithin₁
  have hτ : 0 ≤ s₂.tree.params.integerTolerance := hv₂.inHand.params ▸ h.tolerance
  obtain ⟨fs, hfractional, hfs⟩ := Tree.exists_fractional hv₂.inHand.carries
    (hv₂.inHand.whole _ hv₂.inHand.mem).finite hwithin₁ hτ
  refine tree_bind (ofRounding_bind hfractional ?_)
  cases fs with
  | nil => exact h.takePoint_returns hv₂ hwithin₁
  | cons f fs => exact h.divide_returns hv₂ (List.cons_ne_nil f fs) hfs

end Visit

theorem visit_returns (hn : s.tree.InHand p params (c.host.now w) n)
    (hrelaxes : c.host.Relaxes s.tree.problem) : Runs (visit c n) s
    (fun next s' => Advances p params (c.host.now w) s.tree (.visit n) next s'.tree)
    fun _ => False := by
  unfold visit
  refine modifyTree_bind ?_
  have hregular : ({ s.tree with solved := s.tree.solved + 1 } : Tree α).Regular p params
      (c.host.now w) := hn.toRegular.congr rfl
  refine (h.relaxation_returns (s := { s with tree := _ }) hregular).bind ?_
  rintro settings s₁ ⟨htimed, htree₁⟩
  dsimp only at htree₁
  refine (relax_returns (s := s₁) (by rwa [htree₁]) htimed).bind ?_
  rintro code s₂ ⟨b, htree₂, hwithin⟩
  rw [htree₁] at htree₂ hwithin
  have hv : Visiting p params (c.host.now w) s.tree n s₂.tree := by
    rw [htree₂]
    exact ⟨⟨hn.toRegular.congr rfl, hn.mem, hn.carries.congr rfl⟩, rfl, rfl⟩
  split
  · exact .pure (hv.done _)
  split
  · exact .pure (hv.done _)
  refine tree_bind ?_
  split
  · exact modifyTree_bind (.pure hv.fathom)
  · next hoptimal =>
    refine h.weigh_returns hv ?_
    rw [htree₂] at hoptimal ⊢
    exact hwithin hoptimal
  · exact .pure (hv.done _)

/-! ### Choosing a node -/

theorem exists_select {t : Tree α} (ht : t.params = params) (hne : t.active ≠ []) :
    ∃ n ∈ t.active, t.select = .ok (some n) := by
  have htechnique : t.params.backtracking ∈ [1, 2, 3, 4] := ht ▸ h.technique
  obtain ⟨o, ho⟩ : ∃ o, t.select = .ok o := by
    unfold Tree.select
    dsimp only
    split
    · exact ⟨_, rfl⟩
    next hlast =>
    split
    · exact ⟨_, rfl⟩
    next hfirst =>
    split
    · split
      · split <;> exact ⟨_, rfl⟩
      · exact ⟨_, rfl⟩
    next hprojection =>
    split
    · next hbest =>
      simp only [List.mem_cons, List.not_mem_nil, or_false] at htechnique
      omega
    · exact ⟨_, rfl⟩
  obtain ⟨n, hn, rfl⟩ := Tree.select_mem ho hne
  exact ⟨n, hn, ho⟩

theorem choose_returns (ht : s.tree.Regular p params (c.host.now w)) : Runs (choose c) s
    (fun next s' => Advances p params (c.host.now w) s.tree .choose next s'.tree)
    fun _ => False := by
  have hdone : ∀ (code : ReturnCode) (s' : Scene α σ), s'.tree.solved = s.tree.solved →
      Advances p params (c.host.now w) s.tree .choose (.done code) s'.tree := by
    intro code s' hsolved
    change s'.tree.solved ≤ _
    omega
  unfold choose
  refine tree_bind ?_
  split
  · exact modifyTree_bind (.pure (hdone _ _ rfl))
  next hactive =>
  refine timeUp_returns fun up s₁ htree₁ => ?_
  have hsolved₁ : s₁.tree.solved = s.tree.solved := by rw [htree₁]
  cases up with
  | true => exact .pure (hdone _ _ hsolved₁)
  | false =>
  refine tree_bind ?_
  split
  · refine (say_returns _).bind fun _ s₂ htree₂ => .pure (hdone _ _ ?_)
    rw [htree₂, hsolved₁]
  refine modifyTree_bind (h.heard_returns fun s₂ reason htree₂ => ?_)
  replace htree₂ : s₂.tree = { s.tree with current := none, reason := reason } := by
    rw [htree₂, ← htree₁]
  have hsolved₂ : s₂.tree.solved = s.tree.solved := by rw [htree₂]
  have ht₂ : s₂.tree.Regular p params (c.host.now w) := ht.congr (by rw [htree₂])
  have hactive₂ : s₂.tree.active = s.tree.active := by rw [htree₂]
  dsimp only
  cases s₁.tree.stopped with
  | true => exact .pure (hdone _ _ hsolved₂)
  | false =>
  obtain ⟨n, hn, hselect⟩ := h.exists_select (t := s₂.tree) ht₂.params
    (by rw [hactive₂]; simpa using hactive)
  refine tree_bind (ofSearch_bind hselect ?_)
  obtain ⟨q, hq, hcarries⟩ := ht₂.carried.activate h.bounded (ht₂.whole n hn)
  refine tree_bind (ofProblem_bind hq (modifyTree_bind (h.heard_returns fun s₃ reason₃ htree₃ => ?_)))
  dsimp only at htree₃ ⊢
  have hsolved₃ : s₃.tree.solved = s.tree.solved := by rw [htree₃, hsolved₂]
  cases s₂.tree.stopped with
  | true => exact .pure (hdone _ _ hsolved₃)
  | false =>
    have hweight : s₃.tree.weight p = s.tree.weight p := by
      rw [Tree.weight, Tree.weight, htree₃, hactive₂]
    refine .pure ⟨?_, ?_, by omega⟩
    · change s₃.tree.InHand p params (c.host.now w) n
      rw [htree₃]
      exact (ht₂.take hn hcarries).shown reason₃
    · change 2 * s₃.tree.weight p < 2 * s.tree.weight p + 1
      omega

/-! ### Steps until the end -/

section
variable {before : Scene α σ → Prop} {during : Phase α → Scene α σ → Prop}
  (hs : Sustains c before during)
include hs

theorem step_returns {φ : Phase α} (hφ : Stands p params (c.host.now w) s.tree φ)
    (hd : during φ s) : Runs (step c φ) s
      (fun next s' => Advances p params (c.host.now w) s.tree φ next s'.tree ∧
        ∀ φ', next = .go φ' → during φ' s') fun _ => False := by
  have hstep : Runs (step c φ) s
      (fun next s' => Advances p params (c.host.now w) s.tree φ next s'.tree) fun _ => False := by
    cases φ with
    | choose => exact h.choose_returns hφ
    | visit n => exact h.visit_returns hφ (hs.relaxes n s hd)
  exact (hstep.and (hs.step φ s hd)).weaken fun _ hfalse => hfalse.1

theorem run_returns {φ : Phase α} (hφ : Stands p params (c.host.now w) s.tree φ)
    (hd : during φ s) {fuel : ℕ} (hfuel : left p s.tree φ ≤ fuel) : Runs (run c fuel φ) s
      (fun _ s' => s'.tree.solved ≤ s.tree.solved + s.tree.weight p) fun _ => False := by
  induction fuel generalizing φ s with
  | zero => exact absurd (left_pos hφ) (by omega)
  | succ fuel ih =>
    refine (h.step_returns hs hφ hd).bind ?_
    rintro (φ' | code) s₁ ⟨hnext, hd'⟩
    · obtain ⟨hstands, hless, hpaid⟩ := hnext
      exact (ih hstands (hd' φ' rfl) (by omega)).imp fun _ s' hs' => hs'.trans hpaid
    · exact .pure hnext

end

end Unhindered

/-! ### The whole search -/

/-- Before the search: there are no nodes yet. -/
structure Fresh (p : Problem α) (params : Parameter.Search α) (began : α) (t : Tree α) : Prop where
  regular : t.Regular p params began
  active : t.active = []
  solved : t.solved = 0

namespace Unhindered

variable {c : Company α σ} {params : Parameter.Search α} {p : Problem α} {w : σ}
  {s : Scene α σ} (h : Unhindered c params p)
include h

theorem fresh (began : α) : Fresh p params began (Tree.ofProblem params p began) where
  regular :=
    { params := rfl
      began := rfl
      carried := ⟨rfl, (fun _ hi => nomatch hi), p.rootSides, h.bounded.carries, fun _ _ => rfl⟩
      whole := fun _ hn => nomatch hn
      nodup := List.nodup_nil
      fresh := fun _ hn => nomatch hn }
  active := rfl
  solved := rfl

section
variable {before : Scene α σ → Prop} {during : Phase α → Scene α σ → Prop}
  (hs : Sustains c before during) (hb : before s)
include hs hb

/-- The root weighs what the whole problem does. -/
theorem explore_returns (ht : Fresh p params (c.host.now w) s.tree) {fuel : ℕ}
    (hfuel : 4 * p.lattice.card ≤ fuel + 1) : Runs (explore c fuel) s
      (fun _ s' => s'.tree.solved ≤ 2 * p.lattice.card - 1) fun _ => False := by
  let root : Node α :=
    { number := s.tree.nextNumber, level := 0, parent := 0, bound := s.tree.rootBound }
  have hactive : s.tree.plant.active = [root] := by
    change s.tree.active ++ [root] = [root]
    rw [ht.active]
    rfl
  have hwhole : root.Whole p := Node.whole_root h.bounded rfl
  have hweight : s.tree.plant.weight p = 2 * p.lattice.card - 1 := by
    rw [Tree.weight, hactive, List.map_singleton, List.sum_singleton, Node.weight,
      Node.lattice_root rfl]
  have hplanted : s.tree.plant.Regular p params (c.host.now w) :=
    { params := ht.regular.params
      began := ht.regular.began
      carried := ⟨ht.regular.carried.rootBounds, ht.regular.carried.touched,
        ht.regular.carried.carries⟩
      whole := fun n hn => by
        rw [hactive, List.mem_singleton] at hn
        exact hn ▸ hwhole
      nodup := by
        rw [hactive]
        exact List.nodup_singleton _
      fresh := fun n hn => by
        rw [hactive, List.mem_singleton] at hn
        rw [hn]
        exact Nat.lt_succ_self _ }
  unfold explore
  refine modifyTree_bind ?_
  have hsteps : left p s.tree.plant .choose ≤ fuel := by
    have hpos : 0 < p.lattice.card := by
      rw [← Node.lattice_root (n := root) rfl]
      exact hwhole.lattice_nonempty.card_pos
    change 2 * s.tree.plant.weight p + 1 ≤ fuel
    omega
  have hrun := h.run_returns hs (s := { s with tree := s.tree.plant }) (φ := .choose) hplanted
    (hs.planted s hb) hsteps
  refine hrun.imp fun _ s' hs' => ?_
  have hsolved : s.tree.plant.solved = 0 := ht.solved
  dsimp only at hs'
  omega

/-- What the presolver finds out does not change where the search begins. -/
theorem presolved_returns (ht : Fresh p params (c.host.now w) s.tree) :
    Runs (presolved c) s (fun r s' => Fresh p params (c.host.now w) s'.tree ∧ (r = none → before s'))
      fun _ => False := by
  suffices hfresh : Runs (presolved c) s (fun _ s' => Fresh p params (c.host.now w) s'.tree)
      fun _ => False from (hfresh.and (hs.presolved s hb)).weaken fun _ hfalse => hfalse.1
  unfold presolved
  refine (h.relaxation_returns ht.regular).bind ?_
  rintro settings s₁ ⟨htimed, htree₁⟩
  have htimed' : ({ settings with presolve := 1 } : Parameter.Simplex α).Timed := htimed
  refine (relax_returns (s := s₁) (htree₁ ▸ hs.first s hb) htimed').bind ?_
  rintro code s₂ ⟨b, htree₂, -⟩
  have ht₂ : Fresh p params (c.host.now w) s₂.tree := by
    rw [htree₂, htree₁]
    exact ⟨ht.regular.congr rfl, ht.active, ht.solved⟩
  split
  · exact (say_returns _).bind fun _ s₃ htree => .pure (htree ▸ ht₂)
  · exact (say_returns _).bind fun _ s₃ htree => .pure (htree ▸ ht₂)
  · exact .pure ht₂
  · refine tree_bind ?_
    split
    · exact .pure ht₂
    · exact .pure ht₂
  · exact .pure ht₂

theorem conclude_returns (ht : Fresh p params (c.host.now w) s.tree) {fuel : ℕ}
    (hfuel : 4 * p.lattice.card ≤ fuel + 1) : Runs (conclude c fuel) s
      (fun _ s' => s'.tree.solved ≤ 2 * p.lattice.card - 1) fun _ => False := by
  unfold conclude
  refine tree_bind ?_
  dsimp only
  refine Runs.detour (I := fun s => before s ∧ Fresh p params (c.host.now w) s.tree) ⟨hb, ht⟩
    (fun hrest => ?_) ?_
  · exact tree_bind (hrest { s with session := _ } ⟨hs.told s _ rfl rfl hb, ht⟩)
  rintro s₁ ⟨hb₁, ht₁⟩
  refine Runs.detour (I := fun s => before s ∧ Fresh p params (c.host.now w) s.tree) ⟨hb₁, ht₁⟩
    (fun hrest => ?_) ?_
  · refine (h.presolved_returns hs hb₁ ht₁).bind fun r s' hs' => ?_
    cases r with
    | none => exact hrest s' ⟨hs'.2 rfl, hs'.1⟩
    | some r =>
      refine .pure ?_
      rw [hs'.1.solved]
      exact Nat.zero_le _
  rintro s₂ ⟨hb₂, ht₂⟩
  refine (h.explore_returns hs hb₂ ht₂ hfuel).bind fun code s₃ hs₃ => tree_bind ?_
  split
  · exact (say_returns _).bind fun _ s₄ htree => .pure (htree ▸ hs₃)
  · exact (say_returns _).bind fun _ s₄ htree => .pure (htree ▸ hs₃)
  · exact .pure hs₃

end

end Unhindered

omit [ValuedScalar α] in
/-- Nothing has to hold when the host keeps to bounds anyway. -/
theorem Sustains.of_keepsBounds {c : Company α σ} (h : c.host.KeepsBounds) :
    Sustains c (fun _ => True) fun _ _ => True where
  told _ _ _ _ _ := trivial
  presolved _ _ := Runs.anything.imp fun _ _ _ _ => trivial
  first _ _ _ := simplex_relaxes _ h
  planted _ _ := trivial
  step _ _ _ := Runs.anything.imp fun _ _ _ _ _ => trivial
  relaxes _ _ _ _ := simplex_relaxes _ h

/-- A search that nobody listens to, with a solver that keeps to bounds. -/
structure Undisturbed (c : Company α σ) (params : Parameter.Search α) (p : Problem α) : Prop where
  silent : c.listener = none
  host : c.host.KeepsBounds
  clock : params.timeLimit < Parameter.unlimited → c.host.Punctual params.timeLimit
  tolerance : 0 ≤ params.integerTolerance
  technique : params.backtracking ∈ [1, 2, 3, 4]
  bounded : p.Bounded

namespace Undisturbed

variable {c : Company α σ} {params : Parameter.Search α} {p : Problem α} {w : σ}
  {s : Scene α σ} (h : Undisturbed c params p)
include h

theorem unhindered : Unhindered c params p :=
  ⟨Company.quiet_of_none h.silent, h.clock, h.tolerance, h.technique, h.bounded⟩

theorem fresh (began : α) : Fresh p params began (Tree.ofProblem params p began) :=
  h.unhindered.fresh began

theorem conclude_returns (ht : Fresh p params (c.host.now w) s.tree) {fuel : ℕ}
    (hfuel : 4 * p.lattice.card ≤ fuel + 1) : Runs (conclude c fuel) s
      (fun _ s' => s'.tree.solved ≤ 2 * p.lattice.card - 1) fun _ => False :=
  h.unhindered.conclude_returns (.of_keepsBounds h.host) trivial ht hfuel

end Undisturbed

end Search

/-! ### What keeps a search from starting -/

omit [ValuedScalar α] in
/-- Finite bounds of an integer column can be checked. -/
theorem exists_check {x : α} (hx : isFinite x = true) {o : Obstacle α}
    {rest : Except RoundingError (Option (Obstacle α))} (hrest : ∃ o, rest = .ok o) :
    ∃ o', (do if !(x == (← Scalar.floor x)) then return some o else rest) = .ok o' := by
  have hfloor : Scalar.floor x = .ok (ofInt (floorInt x)) := rounded_of_isFinite _ hx
  simp only [hfloor, bind_ok]
  split_ifs
  · exact ⟨_, rfl⟩
  · exact hrest

/-- The bounds that count are finite. -/
structure Column.Checkable (c : Column α) : Prop where
  lower : c.bound.hasLower = true → isFinite c.lower = true
  upper : c.bound.hasUpper = true → isFinite c.upper = true

omit [ValuedScalar α] in
theorem Column.exists_fractionalBound {c : Column α} (h : c.kind = .integer → c.Checkable)
    (j : ℕ) : ∃ o, c.fractionalBound j = .ok o := by
  unfold Column.fractionalBound
  by_cases hkind : c.kind = .integer
  · rw [if_neg (not_not.2 hkind)]
    obtain ⟨hl, hu⟩ := h hkind
    dsimp only
    cases hlower : c.bound.hasLower <;> cases hupper : c.bound.hasUpper <;>
      simp only [Bool.false_eq_true, if_false, if_true]
    · exact ⟨_, rfl⟩
    · exact exists_check (hu hupper) ⟨_, rfl⟩
    · exact exists_check (hl hlower) ⟨_, rfl⟩
    · exact exists_check (hl hlower) (exists_check (hu hupper) ⟨_, rfl⟩)
  · rw [if_pos hkind]
    exact ⟨_, rfl⟩

omit [ValuedScalar α] in
theorem exists_firstFractional {es : List (ℕ × Column α)}
    (h : ∀ e ∈ es, ∃ o, e.2.fractionalBound e.1 = .ok o) : ∃ o, firstFractional es = .ok o := by
  induction es with
  | nil => exact ⟨_, rfl⟩
  | cons e es ih =>
    obtain ⟨o, ho⟩ := h e List.mem_cons_self
    unfold firstFractional
    rw [ho]
    cases o with
    | some o => exact ⟨_, rfl⟩
    | none => exact ih fun e he => h e (List.mem_cons_of_mem _ he)

omit [ValuedScalar α] in
theorem firstFractional_eq_none {es : List (ℕ × Column α)}
    (h : ∀ e ∈ es, e.2.fractionalBound e.1 = .ok none) : firstFractional es = .ok none := by
  induction es with
  | nil => rfl
  | cons e es ih =>
    unfold firstFractional
    rw [h e List.mem_cons_self]
    exact ih fun e he => h e (List.mem_cons_of_mem _ he)

omit [ValuedScalar α] in
/-- A search finds an obstacle, or it looks for crossed bounds. -/
theorem Problem.obstacle_cases {p : Problem α}
    (hp : ∀ c ∈ p.columns, c.kind = .integer → c.Checkable) :
    (∃ o, Search.obstacle p = .ok (some o)) ∨ Search.obstacle p = .ok p.badBounds := by
  obtain ⟨o, ho⟩ : ∃ o, p.fractionalBounds = .ok o := by
    refine exists_firstFractional fun e he => ?_
    obtain ⟨j, c, hc, rfl⟩ := Problem.mem_numberedColumns.1 he
    exact Column.exists_fractionalBound (hp c (List.mem_of_getElem? hc)) _
  unfold Search.obstacle
  rw [ho]
  cases o with
  | some o => exact .inl ⟨o, rfl⟩
  | none => exact .inr rfl

theorem Problem.Bounded.exists_obstacle {p : Problem α} (hp : p.Bounded) :
    ∃ o, Search.obstacle p = .ok o := by
  have hcheckable : ∀ c ∈ p.columns, c.kind = .integer → c.Checkable := fun c hc hkind =>
    ⟨fun _ => (hp.lower c hc hkind).1, fun _ => (hp.upper c hc hkind).1⟩
  obtain ⟨o, ho⟩ | ho := Problem.obstacle_cases hcheckable
  · exact ⟨_, ho⟩
  · exact ⟨_, ho⟩

omit [ValuedScalar α] in
/-- A search returns when its bounds can be checked and its nodes are gone through. -/
theorem intopt_returns (c : Search.Company α σ) (params : Parameter.Search α) (fuel : ℕ)
    {p : Problem α} {s : Session α σ} (hobstacle : ∃ o, Search.obstacle p = .ok o)
    (hconclude : ∀ s' : Session α σ, s'.world = s.world →
      Runs (Search.conclude c fuel) ⟨s', Tree.ofProblem params p (c.host.now s.world)⟩
        (fun _ _ => True) fun _ => False) :
    Runs (intopt c params fuel p) s (fun _ _ => True) fun _ => False := by
  obtain ⟨o, ho⟩ := hobstacle
  refine intopt_ends c params fuel p (Q := fun _ _ => True) (fun err herr => ?_)
    (fun _ _ => trivial) (fun _ => trivial) hconclude
  rw [ho] at herr
  cases herr

/-- A search ends when the integer columns have finite bounds: whatever the relaxations are worth,
as long as their points keep to the bounds of the columns, it visits fewer nodes than twice the
number of integer points between the bounds, and it returns. The number of steps that it needs is
bounded by four times that number. Only with a time limit is the clock looked at. -/
theorem intopt_terminates {host : Host α σ} (hhost : host.KeepsBounds)
    {params : Parameter.Search α}
    (hclock : params.timeLimit < Parameter.unlimited → host.Punctual params.timeLimit)
    (htolerance : 0 ≤ params.integerTolerance) (htechnique : params.backtracking ∈ [1, 2, 3, 4])
    {p : Problem α} (hp : p.Bounded) {fuel : ℕ} (hfuel : 4 * p.lattice.card ≤ fuel + 1)
    (s : Session α σ) :
    Runs (Search.conclude ⟨host, none⟩ fuel) ⟨s, Tree.ofProblem params p (host.now s.world)⟩
      (fun _ s' => s'.tree.solved ≤ 2 * p.lattice.card - 1) (fun _ => False) ∧
    ∃ r s', intopt ⟨host, none⟩ params fuel p s = .ok r s' := by
  have h : Search.Undisturbed ⟨host, none⟩ params p :=
    ⟨rfl, hhost, hclock, htolerance, htechnique, hp⟩
  have hconclude := h.conclude_returns
    (s := ⟨s, Tree.ofProblem params p (host.now s.world)⟩) (h.fresh (host.now s.world)) hfuel
  refine ⟨hconclude, ?_⟩
  have hreturns := intopt_returns ⟨host, none⟩ params fuel (s := s)
    hp.exists_obstacle fun s' _ => (h.conclude_returns (w := s.world) (s := ⟨s', _⟩)
      (h.fresh (host.now s.world)) hfuel).imp fun _ _ _ => trivial
  obtain ⟨r, s', hrun, -⟩ := hreturns.returns
  exact ⟨r, s', hrun⟩

/-- An integer column between zero and three. -/
def fourPoints : Problem Float where
  columns := [{ bound := .double, lower := 0, upper := ofInt 3, kind := .integer }]

theorem fourPoints_bounded : fourPoints.Bounded where
  lower := by
    simp only [fourPoints, List.mem_singleton, forall_eq]
    exact fun _ => ⟨isFinite_zero, 0, by rw [value_zero, Int.cast_zero]⟩
  upper := by
    simp only [fourPoints, List.mem_singleton, forall_eq]
    obtain ⟨hproper, hvalue⟩ := DoubleValue.ofInt_exact (i := 3) ⟨3, 0, rfl, by omega, by omega⟩
    exact fun _ => ⟨DoubleValue.proper_iff.2 hproper, 3, hvalue⟩
  ordered := by
    simp only [fourPoints, List.mem_singleton, forall_eq]
    exact fun _ => by decide

theorem card_fourPoints : fourPoints.lattice.card = 4 := by decide +kernel

theorem intopt_terminates_fourPoints :
    Runs (Search.conclude ⟨Host.halfway, none⟩ 15)
      ⟨⟨(), #[]⟩, Tree.ofProblem { presolve := 1 } fourPoints 0⟩
      (fun _ s' => s'.tree.solved ≤ 7) (fun _ => False) ∧
    ∃ r s', intopt ⟨Host.halfway, none⟩ { presolve := 1 } 15 fourPoints ⟨(), #[]⟩ = .ok r s' := by
  have hnodes : 7 = 2 * fourPoints.lattice.card - 1 := by rw [card_fourPoints]
  rw [hnodes]
  exact intopt_terminates Host.halfway_keepsBounds (fun hlimit => absurd hlimit (lt_irrefl _))
    (by decide +kernel) (by decide) fourPoints_bounded (by rw [card_fourPoints]) ⟨(), #[]⟩

/-- As many nodes may be visited. -/
example : (after (Search.conclude ⟨Host.halfway, none⟩ 15)
    ⟨⟨(), #[]⟩, Tree.ofProblem { presolve := 1 } fourPoints 0⟩).tree.solved = 7 := by
  decide +kernel

end MixedInteger
