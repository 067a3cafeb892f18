import MixedInteger.Proofs.Steps
import MixedInteger.Search.Run
import MixedInteger.Solver.Session

/-! What a task answers, whatever the session it starts in. A task reaches the world through the
solver only, so a property that every question to the solver keeps is kept by the task, also
when it fails. -/

namespace MixedInteger

variable {α σ β γ : Type}

/-- A question, answered or not, keeps a property of the world. -/
def Host.Keeps (host : Host α σ) (W : σ → Prop) : Prop := ∀ r w, W w → W (host.solve r w).2

/-- A host that has one answer to all questions; its clock stands still. -/
def Host.steady [Zero α] (a : Answer α) : Host α σ where
  solve _ w := (.ok a, w)
  now _ := 0

/-- Nothing is known of the world. -/
theorem Host.keeps_true (host : Host α σ) : host.Keeps fun _ => True := fun _ _ _ => trivial

namespace Task

/-- The task keeps `W`, and its answer, if there is one, has `P`. -/
def Keeps (W : σ → Prop) (x : Task α σ β) (P : β → Prop) : Prop :=
  ∀ s : Session α σ, W s.world → Runs x s (fun b s' => P b ∧ W s'.world) fun s' => W s'.world

namespace Keeps

variable {W : σ → Prop} {P : β → Prop} {Q : γ → Prop}

theorem pure {b : β} (h : P b) : Keeps W (Pure.pure b : Task α σ β) P := fun _ hw => ⟨h, hw⟩

theorem throw (e : Fault α) : Keeps W (MonadExcept.throw e : Task α σ β) P := fun _ hw => hw

theorem bind {x : Task α σ β} {f : β → Task α σ γ} (hx : Keeps W x P)
    (hf : ∀ b, P b → Keeps W (f b) Q) : Keeps W (x >>= f) Q :=
  fun s hw => (hx s hw).bind fun b s' h => hf b h.1 s' h.2

theorem imp {R : β → Prop} {x : Task α σ β} (hx : Keeps W x P) (h : ∀ b, P b → R b) :
    Keeps W x R := fun s hw => (hx s hw).imp fun b _ hb => ⟨h b hb.1, hb.2⟩

/-- Nothing is asked of the world, and nothing is known of the answer. -/
theorem any (x : Task α σ β) : Keeps (fun _ => True) x fun _ => True := by
  intro s _
  unfold Runs
  cases x s with
  | ok b s' => exact ⟨trivial, trivial⟩
  | error e s' => trivial

/-- What is answered, when nothing is asked of the world. -/
theorem runs {x : Task α σ β} (hx : Keeps (fun _ => True) x P) (s : Session α σ) :
    Runs x s (fun b _ => P b) fun _ => True := (hx s trivial).imp fun _ _ h => h.1

theorem tell (n : Notice α) : Keeps W (Task.tell n : Task α σ Unit) fun _ => True :=
  fun _ hw => ⟨trivial, hw⟩

theorem tellAt (least level : Int) (n : Notice α) :
    Keeps W (Task.tellAt least level n : Task α σ Unit) fun _ => True := by
  unfold Task.tellAt
  split
  · exact tell n
  · exact pure trivial

theorem now (host : Host α σ) : Keeps W (Task.now host) fun _ => True := fun _ hw => ⟨trivial, hw⟩

theorem ask {host : Host α σ} (hhost : host.Keeps W) {P : Answer α → Prop} {r : Request α}
    (h : ∀ w a, (host.solve r w).1 = .ok a → P a) : Keeps W (Task.ask host r) P := by
  intro s hw
  have hworld := hhost r s.world hw
  unfold Runs Task.ask
  cases hsolve : host.solve r s.world with
  | mk answer world =>
    rw [hsolve] at hworld
    cases answer with
    | error e => exact hworld
    | ok a => exact ⟨h s.world a (by rw [hsolve]), hworld⟩

theorem ofRounding (x : Except RoundingError β) (h : ∀ b, x = .ok b → P b) :
    Keeps W (Task.ofRounding x : Task α σ β) P := by
  cases x with
  | error e => exact throw _
  | ok b => exact pure (h b rfl)

theorem number [Scalar α] (i : Int) : Keeps W (Task.number i : Task α σ α) fun _ => True := by
  unfold Task.number
  split
  · exact pure trivial
  · exact throw _

end Keeps

/-! ### Tasks that do not fail -/

/-- The task comes to its end with `P`, wherever it starts. -/
def Returns (x : Task α σ β) (P : β → Prop) : Prop := ∀ s, Runs x s (fun b _ => P b) fun _ => False

namespace Returns

variable {P : β → Prop} {Q : γ → Prop}

theorem pure {b : β} (h : P b) : Returns (Pure.pure b : Task α σ β) P := fun _ => h

theorem bind {x : Task α σ β} {f : β → Task α σ γ} (hx : Returns x P)
    (hf : ∀ b, P b → Returns (f b) Q) : Returns (x >>= f) Q :=
  fun s => (hx s).bind fun b s' h => hf b h s'

theorem imp {R : β → Prop} {x : Task α σ β} (hx : Returns x P) (h : ∀ b, P b → R b) :
    Returns x R := fun s => (hx s).imp fun b _ hb => h b hb

theorem tell (n : Notice α) : Returns (Task.tell n : Task α σ Unit) fun _ => True :=
  fun _ => trivial

theorem tellAt (least level : Int) (n : Notice α) :
    Returns (Task.tellAt least level n : Task α σ Unit) fun _ => True := by
  unfold Task.tellAt
  split
  · exact tell n
  · exact pure trivial

theorem now (host : Host α σ) : Returns (Task.now host) fun _ => True := fun _ => trivial

/-- A question that is answered. -/
theorem ask {host : Host α σ} {P : Answer α → Prop} {r : Request α}
    (h : ∀ w, ∃ a, (host.solve r w).1 = .ok a ∧ P a) : Returns (Task.ask host r) P := by
  intro s
  obtain ⟨a, ha, hP⟩ := h s.world
  unfold Runs Task.ask
  cases hsolve : host.solve r s.world with
  | mk answer world =>
    rw [hsolve] at ha
    cases ha
    exact hP

end Returns

end Task

/-! ### Tasks that hear an answer -/

/-- Every question is answered in some way. -/
def Host.Responds (host : Host α σ) : Prop := ∀ r w, ∃ a w', host.solve r w = (.ok a, w')

namespace Task

/-- The question is answered, and what comes of it has `P`. -/
def Heeds (x : Task α σ β) (host : Host α σ) (question? : Option (Request α))
    (P : Answer α → β → Prop) : Prop :=
  ∀ s, Runs x s (fun b _ => ∃ r a w, question? = some r ∧ host.solve r s.world = (.ok a, w) ∧ P a b)
    fun _ => question? = none

section
variable {host : Host α σ} {r : Request α} {P : β → Session α σ → Prop} {E : Session α σ → Prop}
  {s s' : Session α σ}

/-- Reports do not reach the world. -/
theorem tellAt_bind {least level : Int} {n : Notice α} {f : Unit → Task α σ β}
    (h : ∀ s' : Session α σ, s'.world = s.world → Runs (f ()) s' P E) :
    Runs (tellAt least level n >>= f) s P E := by
  unfold tellAt
  split
  · exact h _ rfl
  · exact h s rfl

/-- The answer is the one that the world has for the question. -/
theorem ask_bind (hhost : host.Responds) {f : Answer α → Task α σ β}
    (h : ∀ a s', host.solve r s.world = (.ok a, s'.world) → Runs (f a) s' P E) :
    Runs (ask host r >>= f) s P E := by
  obtain ⟨a, w, ha⟩ := hhost r s.world
  have hask : ask host r s = .ok a { s with world := w } := by rw [ask, ha]
  exact (Runs.of_ok (P := fun a s' => host.solve r s.world = (.ok a, s'.world)) hask ha).bind h

theorem Returns.responds (hhost : host.Responds) (r : Request α) :
    Returns (Task.ask host r) fun _ => True :=
  .ask fun w => by
    obtain ⟨a, w', ha⟩ := hhost r w
    exact ⟨a, by rw [ha], trivial⟩

/-- When the answer is known the world does not matter any more. -/
theorem Returns.heeds {x : Task α σ β} {question? : Option (Request α)} {a : Answer α}
    {Q : Answer α → β → Prop} (hx : x.Returns (Q a)) (hr : question? = some r)
    (ha : host.solve r s.world = (.ok a, s'.world)) :
    Runs x s' (fun b _ => ∃ r a w, question? = some r ∧ host.solve r s.world = (.ok a, w) ∧ Q a b)
      fun _ => question? = none :=
  ((hx s').imp fun _ _ hb => ⟨r, a, _, hr, ha, hb⟩).weaken fun _ => False.elim

end

end Task

/-! ### Tasks that uphold something

A property of sessions is upheld by a task when the questions of some sort keep it, the task asks no
others, and it does not get lost by what is told at the level at which the task speaks. The faults
of the task are of some sort when refusals of such questions are, but for faults that have nothing
to do with the solver. -/

section
variable {W : σ → Prop} {V : Session α σ → Prop} {F : Fault α → Prop} {Q : LinearProgram α → Prop}

/-- Among the faults are all that do not come from the solver. -/
def Innocent (F : Fault α → Prop) : Prop := ∀ e, (∀ refusal, e ≠ .solver refusal) → F e

/-- A session after one notice more. -/
def Session.told (s : Session α σ) (n : Notice α) : Session α σ :=
  { s with journal := s.journal.push n }

/-- Questions about such programs keep `W`, and refusals of them have `F`. -/
def Host.Bears (host : Host α σ) (Q : LinearProgram α → Prop) (W : σ → Prop)
    (F : Fault α → Prop) : Prop :=
  ∀ r w, Q r.program → W w →
    W (host.solve r w).2 ∧ ∀ refusal, (host.solve r w).1 = .error refusal → F (.solver refusal)

/-- Questions about such programs keep `V`, and refusals of them have `F`. What is told keeps `V`
too, unless the level is one at which nothing is. -/
structure Host.Upholds (host : Host α σ) (Q : LinearProgram α → Prop) (V : Session α σ → Prop)
    (F : Fault α → Prop) (level : Int) : Prop where
  innocent : Innocent F
  ask : ∀ {r}, Q r.program → Lasts V F (Task.ask host r)
  told : Parameter.levelErrors ≤ level → ∀ s n, V s → V (s.told n)

/-- What is told does not reach the world. -/
theorem Host.Bears.upholds {host : Host α σ} (h : host.Bears Q W F) (hF : Innocent F)
    (level : Int) : host.Upholds Q (fun s => W s.world) F level where
  innocent := hF
  ask {r} hr s hs := by
    have hsolve := h r s.world hr hs
    unfold Ends Task.ask
    cases hrun : host.solve r s.world with
    | mk answer world =>
      rw [hrun] at hsolve
      cases answer with
      | ok a => exact hsolve.1
      | error e => exact ⟨hsolve.2 e rfl, hsolve.1⟩
  told _ _ _ hs := hs

namespace Task

theorem tell_lasts {n : Notice α} (h : ∀ s, V s → V (s.told n)) :
    Lasts V F (Task.tell n : Task α σ Unit) := Lasts.modify h

theorem tellAt_lasts {least level : Int} {n : Notice α} (h : least ≤ level → ∀ s, V s → V (s.told n)) :
    Lasts V F (Task.tellAt least level n : Task α σ Unit) := by
  unfold Task.tellAt
  split
  · next hlevel => exact tell_lasts (h hlevel)
  · exact Lasts.pure _

theorem now_lasts (host : Host α σ) : Lasts V F (Task.now host) := fun _ h => h

theorem ofRounding_lasts (hF : Innocent F) (x : Except RoundingError β) :
    Lasts V F (Task.ofRounding x : Task α σ β) := by
  cases x with
  | ok b => exact Lasts.pure b
  | error e => exact Lasts.throw (hF _ fun _ h => nomatch h)

theorem number_lasts [Scalar α] (hF : Innocent F) (i : Int) :
    Lasts V F (Task.number i : Task α σ α) := by
  unfold Task.number
  split
  · exact Lasts.pure _
  · exact Lasts.throw (hF _ fun _ h => nomatch h)

end Task

namespace Host.Upholds

variable {host : Host α σ} {level : Int} (h : host.Upholds Q V F level)
include h

theorem complain (n : Notice α) :
    Lasts V F (Task.tellAt Parameter.levelErrors level n : Task α σ Unit) :=
  Task.tellAt_lasts fun hlevel s => h.told hlevel s n

theorem say (n : Notice α) :
    Lasts V F (Task.tellAt Parameter.levelNormal level n : Task α σ Unit) :=
  Task.tellAt_lasts fun hlevel s => h.told (Int.le_trans (by decide) hlevel) s n

end Host.Upholds

end

/-! ### Scenes

Reading and changing a scene. Each rule says what comes after one of the small steps that a search is
made of. -/

section
open SearchTask

variable [Scalar α] {s : Scene α σ} {P : γ → Scene α σ → Prop} {E : Scene α σ → Prop}

theorem tree_bind {f : Tree α → SearchTask α σ γ} (h : Runs (f s.tree) s P E) :
    Runs (tree >>= f) s P E := h

theorem modifyTree_bind {g : Tree α → Tree α} {f : Unit → SearchTask α σ γ}
    (h : Runs (f ()) { s with tree := g s.tree } P E) : Runs (modifyTree g >>= f) s P E := h

theorem modifyTree_if {b : Prop} [Decidable b] {g : Tree α → Tree α} {f : Unit → SearchTask α σ γ}
    (h : Runs (f ()) { s with tree := if b then g s.tree else s.tree } P E) :
    Runs (if b then modifyTree g >>= f else f ()) s P E := by
  cases Decidable.em b with
  | inl hb =>
    rw [if_pos hb] at h ⊢
    exact h
  | inr hb =>
    rw [if_neg hb] at h ⊢
    exact h

theorem rowCount_bind {f : Nat → SearchTask α σ γ}
    (h : Runs (f s.tree.problem.rowCount) s P E) : Runs (Search.rowCount >>= f) s P E := h

/-- A task changes the session only. -/
theorem ofTask_session {x : Task α σ β} {Q : β → Session α σ → Prop} {F : Session α σ → Prop}
    (hx : Runs x s.session Q F) (hE : ∀ session, F session → E { s with session := session }) :
    Runs (ofTask x) s (fun b s' => Q b s'.session ∧ s'.tree = s.tree) E := by
  unfold Runs ofTask at *
  cases hrun : x s.session with
  | ok b session =>
    rw [hrun] at hx
    exact ⟨hx, rfl⟩
  | error e session =>
    rw [hrun] at hx
    exact hE session hx

theorem ofTask_runs {W : σ → Prop} {x : Task α σ β} {Q : β → Prop} (hx : Task.Keeps W x Q)
    (hw : W s.session.world) (hE : ∀ s' : Scene α σ, W s'.session.world → E s') :
    Runs (ofTask x) s (fun b s' => Q b ∧ s'.tree = s.tree ∧ W s'.session.world) E :=
  (ofTask_session (hx s.session hw) fun session h => hE { s with session := session } h).imp
    fun _ _ h => ⟨h.1.1, h.2, h.1.2⟩

/-- A report changes neither the tree nor the world. -/
theorem say_runs {W : σ → Prop} (hw : W s.session.world)
    (hE : ∀ s' : Scene α σ, W s'.session.world → E s') (m : Notice α) :
    Runs (say m) s (fun _ s' => s'.tree = s.tree ∧ W s'.session.world) E :=
  tree_bind ((ofTask_runs (Task.Keeps.tellAt _ _ _) hw hE).imp fun _ _ h => h.2)

theorem ofRounding_bind {x : Except RoundingError β} {b : β} (hx : x = .ok b)
    {f : β → SearchTask α σ γ} (h : Runs (f b) s P E) : Runs (ofRounding x >>= f) s P E := by
  subst hx
  exact h

theorem ofSearch_bind {x : Except SearchError β} {b : β} (hx : x = .ok b)
    {f : β → SearchTask α σ γ} (h : Runs (f b) s P E) : Runs (ofSearch x >>= f) s P E := by
  subst hx
  exact h

theorem ofProblem_bind {x : Except (ProblemError α) β} {b : β} (hx : x = .ok b)
    {f : β → SearchTask α σ γ} (h : Runs (f b) s P E) : Runs (ofProblem x >>= f) s P E := by
  subst hx
  exact h

/-! ### Failures that leave the scene alone -/

theorem ofRounding_next {x : Except RoundingError β} {f : β → SearchTask α σ γ} (hE : E s)
    (h : ∀ b, x = .ok b → Runs (f b) s P E) : Runs (ofRounding x >>= f) s P E := by
  cases x with
  | ok b => exact h b rfl
  | error e => exact hE

theorem ofSearch_next {x : Except SearchError β} {f : β → SearchTask α σ γ} (hE : E s)
    (h : ∀ b, x = .ok b → Runs (f b) s P E) : Runs (ofSearch x >>= f) s P E := by
  cases x with
  | ok b => exact h b rfl
  | error e => exact hE

theorem ofProblem_next {x : Except (ProblemError α) β} {f : β → SearchTask α σ γ} (hE : E s)
    (h : ∀ b, x = .ok b → Runs (f b) s P E) : Runs (ofProblem x >>= f) s P E := by
  cases x with
  | ok b => exact h b rfl
  | error e => exact hE

end

end MixedInteger
