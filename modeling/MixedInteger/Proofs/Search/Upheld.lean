import MixedInteger.Proofs.Solver.Session
import MixedInteger.Search.Run
import Mathlib.Tactic.SplitIfs

/-! What a search upholds. A property of scenes that nodes in hand, relaxations, new incumbents, the
listener and notices keep is kept by every step, and so by the search; and when relaxations and the
listener fail with faults of some sort only, so does the search, but for faults that have nothing to
do with the solver. -/

namespace MixedInteger

variable {α σ β γ : Type} [Scalar α] {W : σ → Prop} {F : Fault α → Prop} {I : Tree α → Prop}
  {J : Scene α σ → Prop}

/-! ### Steps on a scene -/

/-- The tree has one property and the world another. -/
def Scene.Has (I : Tree α → Prop) (W : σ → Prop) (s : Scene α σ) : Prop :=
  I s.tree ∧ W s.session.world

namespace SearchTask

/-- The step keeps a property of the tree and one of the world, and its faults have `F`. -/
def Upholds (I : Tree α → Prop) (W : σ → Prop) (F : Fault α → Prop) (x : SearchTask α σ β) : Prop :=
  Lasts (Scene.Has I W) F x

/-- A task leaves the tree alone. -/
theorem ofTask_ends {x : Task α σ β} {s : Scene α σ} {P : β → Session α σ → Prop}
    {E : Fault α → Session α σ → Prop} (hx : Ends x s.session P E) :
    Ends (ofTask x) s (fun b s' => P b s'.session ∧ s'.tree = s.tree)
      fun e s' => E e s'.session ∧ s'.tree = s.tree := by
  unfold Ends ofTask at *
  cases h : x s.session with
  | ok b session =>
    rw [h] at hx
    exact ⟨hx, rfl⟩
  | error e session =>
    rw [h] at hx
    exact ⟨hx, rfl⟩

namespace Upholds

theorem pure (b : β) : Upholds I W F (Pure.pure b : SearchTask α σ β) := Lasts.pure b

theorem bind {x : SearchTask α σ β} {f : β → SearchTask α σ γ} (hx : Upholds I W F x)
    (hf : ∀ b, Upholds I W F (f b)) : Upholds I W F (x >>= f) := Lasts.bind hx hf

/-- The tree is read. -/
theorem tree {f : Tree α → SearchTask α σ γ} (hf : ∀ t, I t → Upholds I W F (f t)) :
    Upholds I W F (SearchTask.tree >>= f) := fun s h => hf s.tree h.1 s h

theorem modifyTree {f : Tree α → Tree α} (hf : ∀ t, I t → I (f t)) :
    Upholds I W F (SearchTask.modifyTree f : SearchTask α σ Unit) := fun s h => ⟨hf s.tree h.1, h.2⟩

end Upholds

theorem tree_lasts {f : Tree α → SearchTask α σ γ} (hf : ∀ t, Lasts J F (f t)) :
    Lasts J F (SearchTask.tree >>= f) := fun s h => hf s.tree s h

variable (hF : Innocent F)
include hF

theorem ofRounding_lasts (x : Except RoundingError β) :
    Lasts J F (ofRounding x : SearchTask α σ β) := by
  cases x with
  | ok b => exact fun _ h => h
  | error e => exact fun _ h => ⟨hF _ (fun _ h => nomatch h), h⟩

theorem number_lasts (i : Int) : Lasts J F (ofTask (Task.number i) : SearchTask α σ α) := by
  unfold Task.number
  split
  · exact fun _ h => h
  · exact fun _ h => ⟨hF _ (fun _ h => nomatch h), h⟩

theorem ofSearch_lasts (x : Except SearchError β) :
    Lasts J F (ofSearch x : SearchTask α σ β) := by
  cases x with
  | ok b => exact Lasts.pure b
  | error e => exact Lasts.throw (hF _ fun _ h => nomatch h)

end SearchTask

/-! ### Steps of a search -/

namespace Tree

variable (t : Tree α) (n : Node α)

/-- Trees about the same problems, with the same parameters and the same incumbent, and asked to
end or not. -/
structure Alike (t t' : Tree α) : Prop where
  params : t'.params = t.params
  original : t'.original = t.original
  problem : t'.problem = t.problem
  incumbent : t'.incumbent = t.incumbent
  stopped : t'.stopped = t.stopped

theorem alike_learn (o : α) : t.Alike (t.learn n o) := by
  unfold Tree.learn
  split
  · exact ⟨rfl, rfl, rfl, rfl, rfl⟩
  · split_ifs <;> exact ⟨rfl, rfl, rfl, rfl, rfl⟩

theorem alike_split (f : Fraction α) (fs : List (Fraction α)) : t.Alike (t.split n f fs) := by
  unfold Tree.split
  dsimp only
  split_ifs <;> exact ⟨rfl, rfl, rfl, rfl, rfl⟩

end Tree

namespace Search

open SearchTask

variable {c : Company α σ}

theorem rowCount_lasts : Lasts J F (rowCount : SearchTask α σ Nat) := fun _ h => h

theorem elapsed_lasts : Lasts J F (elapsed c) := fun _ h => h

theorem timeUp_lasts : Lasts J F (timeUp c) := by
  refine tree_lasts fun t => ?_
  dsimp only
  split_ifs
  · exact elapsed_lasts.map _
  · exact Lasts.pure _

/-- Settings for relaxations change nothing, and a relaxation is silent where the search is. -/
theorem relaxation_ends (hF : Innocent F) (s : Scene α σ) : Ends (relaxation c) s
    (fun settings s' => s' = s ∧ (Parameter.levelErrors ≤ settings.messageLevel →
      Parameter.levelErrors ≤ s.tree.params.messageLevel))
    fun e s' => F e ∧ s' = s := by
  have hlevel : Parameter.levelErrors ≤ (if Parameter.levelErrors ≤ s.tree.params.messageLevel
      then Parameter.levelErrors else Parameter.levelOff) →
      Parameter.levelErrors ≤ s.tree.params.messageLevel := by
    intro h
    split_ifs at h with hloud
    · exact hloud
    · exact absurd h (by decide)
  unfold relaxation
  refine Ends.bind (P := fun t s' => s.tree = t ∧ s = s') ⟨rfl, rfl⟩ ?_
  rintro _ _ ⟨rfl, rfl⟩
  dsimp only
  revert hlevel
  generalize (if Parameter.levelErrors ≤ s.tree.params.messageLevel then Parameter.levelErrors
    else Parameter.levelOff) = level
  intro hlevel
  split_ifs
  · refine (number_lasts (J := (· = s)) hF _ s rfl).bind fun limit s' hs => ?_
    refine (elapsed_lasts s' hs).bind fun past s' hs => ?_
    refine (ofRounding_lasts hF _ s' hs).bind fun rest s' hs => ?_
    exact ⟨hs, hlevel⟩
  · exact ⟨rfl, hlevel⟩

/-- A relaxation is solved in place. -/
theorem relax_ends {P : Scene α σ → Prop} {E : Fault α → Scene α σ → Prop} {s : Scene α σ}
    {settings : Parameter.Simplex α}
    (h : Ends (simplex c.host settings s.tree.problem) s.session
      (fun r session => P ⟨session, { s.tree with problem := r.1 }⟩)
      fun e session => E e ⟨session, s.tree⟩) :
    Ends (relax c settings) s (fun _ s' => P s') E := by
  unfold relax
  refine Ends.bind (P := fun t s' => s.tree = t ∧ s = s') ⟨rfl, rfl⟩ ?_
  rintro _ _ ⟨rfl, rfl⟩
  refine ((ofTask_ends h).imp (fun _ _ => id) ?_).bind ?_
  · rintro e ⟨session, tree⟩ ⟨he, htree⟩
    cases htree
    exact he
  · rintro ⟨p, code⟩ ⟨session, tree⟩ ⟨hp, htree⟩
    cases htree
    exact hp

/-- What holds from one step of a search to the next: it is enough to know what changes of what the
property is not about, a node in hand, a relaxation, a new incumbent, the listener and notices do
to it. Where the search is silent there are no notices. -/
structure Upholds (c : Company α σ) (J : Scene α σ → Prop) (F : Fault α → Prop) : Prop where
  innocent : Innocent F
  alike : ∀ {s t}, J s → s.tree.Alike t → J { s with tree := t }
  activate : ∀ {s n t}, J s → s.tree.activate n = .ok t → J { s with tree := t }
  relaxed : ∀ {s} settings, J s → (Parameter.levelErrors ≤ settings.messageLevel →
      Parameter.levelErrors ≤ s.tree.params.messageLevel) →
    Ends (simplex c.host settings s.tree.problem) s.session
      (fun r session => J ⟨session, { s.tree with problem := r.1 }⟩)
      fun e session => F e ∧ J ⟨session, s.tree⟩
  recorded : ∀ {s i}, J s → s.tree.candidate = .ok (some i) →
    J { s with tree := { s.tree with incumbent := some i } }
  told : ∀ {s} n, J s → Parameter.levelErrors ≤ s.tree.params.messageLevel →
    J { s with session := s.session.told n }
  hear : ∀ hear, c.listener = some hear → Lasts J F hear

namespace Upholds

variable (h : Upholds c J F)
include h

/-- A change of what the property is not about. -/
theorem modifyTree {f : Tree α → Tree α} (hf : ∀ t : Tree α, t.Alike (f t)) :
    Lasts J F (SearchTask.modifyTree f : SearchTask α σ Unit) :=
  Lasts.modify fun s hs => h.alike hs (hf s.tree)

theorem tell {least : Int} (hleast : Parameter.levelErrors ≤ least) (n : Notice α) {s : Scene α σ}
    (hs : J s) : Ends (ofTask (Task.tellAt least s.tree.params.messageLevel n)) s
      (fun _ s' => J s') fun e s' => F e ∧ J s' := by
  unfold Task.tellAt
  split
  · next hlevel => exact h.told n hs (Int.le_trans hleast hlevel)
  · exact hs

theorem say (n : Notice α) : Lasts J F (SearchTask.say n : SearchTask α σ Unit) :=
  fun _ hs => h.tell (by decide) n hs

/-- A relaxation with the settings for it. -/
theorem relax_bind (presolve : Parameter.Simplex α → Int) {f : ReturnCode → SearchTask α σ β}
    (hf : ∀ code, Lasts J F (f code)) : Lasts J F (do
      let settings ← relaxation c
      f (← relax c { settings with presolve := presolve settings })) := by
  intro s hs
  refine Ends.bind ((relaxation_ends h.innocent s).imp (fun _ _ => id) ?_) ?_
  · rintro e _ ⟨he, rfl⟩
    exact ⟨he, hs⟩
  · rintro settings _ ⟨rfl, hlevel⟩
    exact (relax_ends (h.relaxed { settings with presolve := presolve settings } hs hlevel)).bind
      fun code s' hs' => hf code s' hs'

theorem heard (r : Reason) : Lasts J F (heard c r) := by
  refine Lasts.bind (fun s hs => ?_) fun _ => tree_lasts fun _ => Lasts.pure _
  unfold announce
  cases hlistener : c.listener with
  | none => exact hs
  | some hear =>
    have hheard := h.hear hear hlistener { s with tree := { s.tree with reason := some r } }
      (h.alike hs ⟨rfl, rfl, rfl, rfl, rfl⟩)
    unfold Ends at hheard ⊢
    dsimp only
    cases hrun : hear { s with tree := { s.tree with reason := some r } } with
    | ok u s' =>
      rw [hrun] at hheard
      exact h.alike hheard ⟨rfl, rfl, rfl, rfl, rfl⟩
    | error e s' =>
      rw [hrun] at hheard
      exact ⟨hheard.1, h.alike hheard.2 ⟨rfl, rfl, rfl, rfl, rfl⟩⟩

theorem record : Lasts J F (Search.record : SearchTask α σ Bool) := by
  intro s hs
  refine Ends.bind (P := fun t s' => s.tree = t ∧ s = s') ⟨rfl, rfl⟩ ?_
  rintro _ _ ⟨rfl, rfl⟩
  cases hcandidate : s.tree.candidate with
  | error e => exact ⟨h.innocent _ (fun _ h => nomatch h), hs⟩
  | ok o =>
    refine Ends.bind (P := fun o' s' => o = o' ∧ s = s') ⟨rfl, rfl⟩ ?_
    rintro _ _ ⟨rfl, rfl⟩
    cases o with
    | none => exact hs
    | some i => exact (h.say _).map _ _ (h.recorded hs hcandidate)

theorem takePoint (n : Node α) : Lasts J F (takePoint c n) := by
  refine h.record.bind fun taken => Lasts.detour (fun hrest => ?_) ?_
  · refine (h.heard _).bind fun stop => ?_
    split_ifs
    · exact Lasts.pure _
    · exact hrest
  · exact (h.modifyTree fun t => by exact ⟨rfl, rfl, rfl, rfl, rfl⟩).map _

theorem divide (n : Node α) (fs : List (Fraction α)) : Lasts J F (divide c n fs) := by
  refine Lasts.detour
    (fun hrest => (h.modifyTree fun t => by exact ⟨rfl, rfl, rfl, rfl, rfl⟩).bind fun _ => hrest)
    ((h.heard _).bind fun stop => ?_)
  split_ifs
  · exact Lasts.pure _
  refine rowCount_lasts.bind fun rows => (h.heard _).bind fun stop => ?_
  split_ifs
  · exact Lasts.pure _
  refine rowCount_lasts.bind fun rows => ?_
  split_ifs
  · exact Lasts.pure _
  refine (h.heard _).bind fun stop => ?_
  split_ifs
  · exact Lasts.pure _
  refine tree_lasts fun t => ?_
  split
  · exact Lasts.pure _
  · exact (h.modifyTree fun t => t.alike_split n _ fs).bind fun _ => (h.say _).map _

theorem weigh (n : Node α) : Lasts J F (weigh c n) := by
  refine tree_lasts fun t => (h.modifyTree fun t => t.alike_learn n _).bind fun _ =>
    (h.modifyTree fun t => by exact ⟨rfl, rfl, rfl, rfl, rfl⟩).bind fun _ => tree_lasts fun t => ?_
  split_ifs
  · exact (h.modifyTree fun t => by exact ⟨rfl, rfl, rfl, rfl, rfl⟩).map _
  refine rowCount_lasts.bind fun rows => (h.heard _).bind fun stop => ?_
  split_ifs
  · exact Lasts.pure _
  refine rowCount_lasts.bind fun rows => ?_
  split_ifs
  · exact Lasts.pure _
  refine tree_lasts fun t => (ofRounding_lasts h.innocent _).bind fun fs => ?_
  split_ifs
  · exact h.takePoint _
  · exact h.divide _ _

theorem visit (n : Node α) : Lasts J F (visit c n) := by
  refine (h.modifyTree fun t => by exact ⟨rfl, rfl, rfl, rfl, rfl⟩).bind fun _ =>
    h.relax_bind (·.presolve) fun code => ?_
  split_ifs
  · exact Lasts.pure _
  · exact Lasts.pure _
  refine tree_lasts fun t => ?_
  split
  · exact (h.modifyTree fun t => by exact ⟨rfl, rfl, rfl, rfl, rfl⟩).map _
  · exact h.weigh n
  · exact Lasts.pure _

theorem choose : Lasts J F (choose c) := by
  refine tree_lasts fun t => ?_
  split_ifs
  · exact (h.modifyTree fun t => by exact ⟨rfl, rfl, rfl, rfl, rfl⟩).map _
  refine timeUp_lasts.bind fun late => ?_
  split_ifs
  · exact Lasts.pure _
  refine tree_lasts fun t => ?_
  split_ifs
  · exact (h.say _).map _
  refine (h.modifyTree fun t => by exact ⟨rfl, rfl, rfl, rfl, rfl⟩).bind fun _ =>
    (h.heard _).bind fun stop => ?_
  split_ifs
  · exact Lasts.pure _
  refine tree_lasts fun t => (ofSearch_lasts h.innocent _).bind fun o => ?_
  split
  · exact Lasts.pure _
  next n =>
  intro s hs
  refine Ends.bind (P := fun t s' => s.tree = t ∧ s = s') ⟨rfl, rfl⟩ ?_
  rintro _ _ ⟨rfl, rfl⟩
  cases ht : s.tree.activate n with
  | error e => exact ⟨h.innocent _ (fun _ h => nomatch h), hs⟩
  | ok t =>
    have hrest : Lasts J F (do
        if ← Search.heard c .preprocessing then return .done .stopped
        return .go (.visit n) : SearchTask α σ (Next α)) := by
      refine (h.heard _).bind fun stop => ?_
      split_ifs
      · exact Lasts.pure _
      · exact Lasts.pure _
    exact hrest _ (h.activate hs ht)

theorem run (fuel : Nat) (phase : Phase α) : Lasts J F (run c fuel phase) := by
  induction fuel generalizing phase with
  | zero => exact Lasts.throw (h.innocent _ fun _ h => nomatch h)
  | succ fuel ih =>
    have hstep : Lasts J F (step c phase) := by
      cases phase with
      | choose => exact h.choose
      | visit n => exact h.visit n
    refine hstep.bind fun next => ?_
    cases next with
    | done code => exact Lasts.pure _
    | go phase => exact ih phase

theorem explore (fuel : Nat) : Lasts J F (explore c fuel) :=
  (h.modifyTree fun t => by exact ⟨rfl, rfl, rfl, rfl, rfl⟩).bind fun _ => h.run fuel .choose

/-! ### Whole searches -/

theorem presolved : Lasts J F (presolved c) := by
  refine h.relax_bind (fun _ => 1) fun code => ?_
  split
  · exact (h.say _).bind fun _ => Lasts.pure _
  · exact (h.say _).bind fun _ => Lasts.pure _
  · exact Lasts.pure _
  · refine tree_lasts fun t => ?_
    split_ifs
    · exact Lasts.pure _
    · exact Lasts.pure _
  · exact Lasts.pure _

theorem conclude (fuel : Nat) : Lasts J F (conclude c fuel) := by
  unfold Search.conclude
  intro s hs
  refine Ends.bind (P := fun t s' => s.tree = t ∧ s = s') ⟨rfl, rfl⟩ ?_
  rintro _ _ ⟨rfl, rfl⟩
  refine Lasts.detour_ends hs (Lasts.detour (fun hrest => ?_) ?_) fun hlevel hrest => ?_
  · refine h.presolved.bind fun r => ?_
    cases r with
    | none => exact hrest
    | some r => exact Lasts.pure _
  · refine (h.explore fuel).bind fun code => tree_lasts fun t => ?_
    dsimp only
    split
    · exact (h.say _).bind fun _ => Lasts.pure _
    · exact (h.say _).bind fun _ => Lasts.pure _
    · exact Lasts.pure _
  · exact hrest _ (h.told _ hs (Int.le_trans (by decide) hlevel))

/-- What a search upholds from its first tree on. -/
theorem intopt {V : Session α σ → Prop} (params : Parameter.Search α) (p : Problem α)
    (hstart : ∀ now session, V session → J ⟨session, Tree.ofProblem params p now⟩)
    (hend : ∀ s, J s → V s.session) (fuel : Nat) : Lasts V F (intopt c params fuel p) := by
  have htold : ∀ n : Notice α, Lasts V F (Task.tellAt Parameter.levelErrors params.messageLevel n :
      Task α σ Unit) := fun n => Task.tellAt_lasts fun hlevel s hs =>
    hend _ (h.told n (hstart (c.host.now s.world) s hs) hlevel)
  unfold MixedInteger.intopt
  refine (Task.ofRounding_lasts h.innocent _).bind fun o => ?_
  split
  · exact (htold _).bind fun _ => Lasts.pure _
  split_ifs
  · exact (htold _).bind fun _ => Lasts.pure _
  refine (Task.now_lasts _).bind fun now => Lasts.bind (fun s hs => ?_) fun _ => Lasts.pure _
  have hconclude := h.conclude fuel ⟨s, Tree.ofProblem params p now⟩ (hstart now s hs)
  unfold Ends at hconclude ⊢
  dsimp only
  cases hrun : Search.conclude c fuel ⟨s, Tree.ofProblem params p now⟩ with
  | ok r scene =>
    rw [hrun] at hconclude
    exact hend _ hconclude
  | error e scene =>
    rw [hrun] at hconclude
    exact ⟨hconclude.1, hend _ hconclude.2⟩

end Upholds

end Search

end MixedInteger
