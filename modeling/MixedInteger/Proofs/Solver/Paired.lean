import MixedInteger.Continuous.Simplex
import MixedInteger.Continuous.Optimum
import MixedInteger.Proofs.Continuous.Stored

/-! Two runs side by side. Where the first returns the second returns too, and their ends are
related. When the solver answers alike in two worlds, a continuous method comes to the same
solution in both, also on problems that differ in the solutions stored beside their data. What
the clock says has a part in the journal only. -/

namespace MixedInteger

/-! ### Pairs of calls -/

section
variable {ε σ τ β γ δ ζ : Type} {s : σ} {s' : τ}

/-- Where the first call returns, the second one does, and the two ends have `Q`. -/
def Matches (x : EStateM ε σ β) (y : EStateM ε τ γ) (s : σ) (s' : τ)
    (Q : β → σ → γ → τ → Prop) : Prop :=
  ∀ b t, x s = .ok b t → ∃ c t', y s' = .ok c t' ∧ Q b t c t'

namespace Matches

variable {Q : β → σ → γ → τ → Prop} {R : δ → σ → ζ → τ → Prop}

theorem pure {b : β} {c : γ} (h : Q b s c s') :
    Matches (Pure.pure b : EStateM ε σ β) (Pure.pure c : EStateM ε τ γ) s s' Q := by
  rintro _ _ ⟨⟩
  exact ⟨c, s', rfl, h⟩

theorem throw (e : ε) (y : EStateM ε τ γ) :
    Matches (MonadExcept.throw e : EStateM ε σ β) y s s' Q := by
  rintro _ _ ⟨⟩

theorem bind {x : EStateM ε σ β} {y : EStateM ε τ γ} {f : β → EStateM ε σ δ}
    {g : γ → EStateM ε τ ζ} (hx : Matches x y s s' Q)
    (hf : ∀ b t c t', Q b t c t' → Matches (f b) (g c) t t' R) :
    Matches (x >>= f) (y >>= g) s s' R := by
  intro d u hrun
  rw [bind_run] at hrun
  cases hstep : x s with
  | error e t =>
    rw [hstep] at hrun
    cases hrun
  | ok b t =>
    rw [hstep] at hrun
    obtain ⟨c, t', hy, hQ⟩ := hx b t hstep
    obtain ⟨z, u', hg, hR⟩ := hf b t c t' hQ d u hrun
    refine ⟨z, u', ?_, hR⟩
    rw [bind_run, hy]
    exact hg

/-- After first steps whose ends are known. -/
theorem step {x : EStateM ε σ β} {y : EStateM ε τ γ} {f : β → EStateM ε σ δ}
    {g : γ → EStateM ε τ ζ} {b : β} {t : σ} {c : γ} {t' : τ} (hx : x s = .ok b t)
    (hy : y s' = .ok c t') (h : Matches (f b) (g c) t t' R) :
    Matches (x >>= f) (y >>= g) s s' R := by
  refine bind (Q := fun b' u c' u' => b' = b ∧ u = t ∧ c' = c ∧ u' = t') ?_ ?_
  · intro b' u hrun
    cases hx.symm.trans hrun
    exact ⟨c, t', hy, rfl, rfl, rfl, rfl⟩
  · rintro _ _ _ _ ⟨rfl, rfl, rfl, rfl⟩
    exact h

theorem imp {x : EStateM ε σ β} {y : EStateM ε τ γ} {Q' : β → σ → γ → τ → Prop}
    (hx : Matches x y s s' Q) (h : ∀ b t c t', Q b t c t' → Q' b t c t') :
    Matches x y s s' Q' := by
  intro b t hrun
  obtain ⟨c, t', hy, hQ⟩ := hx b t hrun
  exact ⟨c, t', hy, h b t c t' hQ⟩

theorem ite {p : Prop} [Decidable p] {x x' : EStateM ε σ β} {y y' : EStateM ε τ γ}
    (hx : Matches x y s s' Q) (hx' : Matches x' y' s s' Q) :
    Matches (if p then x else x') (if p then y else y') s s' Q := by
  split_ifs
  · exact hx
  · exact hx'

end Matches

end

variable {α σ β γ δ ζ : Type}

/-! ### Worlds -/

/-- In related worlds the host gives the same answers, and the worlds stay related. -/
def Host.Respects (host : Host α σ) (R : σ → σ → Prop) : Prop :=
  ∀ r w w', R w w' →
    (host.solve r w').1 = (host.solve r w).1 ∧ R (host.solve r w).2 (host.solve r w').2

namespace Task

/-- From related worlds the two tasks return with related answers and in related worlds. -/
def Pairs (R : σ → σ → Prop) (x : Task α σ β) (y : Task α σ γ) (P : β → γ → Prop) : Prop :=
  ∀ s s', R s.world s'.world →
    Matches x y s s' fun b t c t' => P b c ∧ R t.world t'.world

namespace Pairs

variable {R : σ → σ → Prop} {P : β → γ → Prop} {Q : δ → ζ → Prop}

theorem pure {b : β} {c : γ} (h : P b c) :
    Pairs R (Pure.pure b : Task α σ β) (Pure.pure c : Task α σ γ) P :=
  fun _ _ hR => .pure ⟨h, hR⟩

theorem throw (e : Fault α) (y : Task α σ γ) :
    Pairs R (MonadExcept.throw e : Task α σ β) y P := fun _ _ _ => .throw e y

theorem bind {x : Task α σ β} {y : Task α σ γ} {f : β → Task α σ δ} {g : γ → Task α σ ζ}
    (hx : Pairs R x y P) (hf : ∀ b c, P b c → Pairs R (f b) (g c) Q) :
    Pairs R (x >>= f) (y >>= g) Q :=
  fun s s' hR => (hx s s' hR).bind fun b t c t' h => hf b c h.1 t t' h.2

theorem ite {p : Prop} [Decidable p] {x x' : Task α σ β} {y y' : Task α σ γ}
    (hx : Pairs R x y P) (hx' : Pairs R x' y' P) :
    Pairs R (if p then x else x') (if p then y else y') P :=
  fun s s' hR => .ite (hx s s' hR) (hx' s s' hR)

/-- One task after another, where the answer is the same. -/
theorem next {x y : Task α σ β} {f : β → Task α σ δ} {g : β → Task α σ ζ}
    (hx : Pairs R x y Eq) (hf : ∀ b, Pairs R (f b) (g b) Q) : Pairs R (x >>= f) (y >>= g) Q :=
  hx.bind fun b _ h => h ▸ hf b

theorem ask {host : Host α σ} (hhost : host.Respects R) (r : Request α) :
    Pairs R (Task.ask host r) (Task.ask host r) Eq := by
  intro s s' hR a t hrun
  obtain ⟨hanswer, hworld⟩ := hhost r s.world s'.world hR
  unfold Task.ask at hrun ⊢
  cases hsolve : host.solve r s.world with
  | mk answer w =>
    cases hsolve' : host.solve r s'.world with
    | mk answer' w' =>
      rw [hsolve, hsolve'] at hanswer hworld
      rw [hsolve] at hrun
      cases hanswer
      cases answer with
      | error e => cases hrun
      | ok a =>
        cases hrun
        exact ⟨a, { s' with world := w' }, rfl, rfl, hworld⟩

/-- Two clocks may differ. -/
theorem now (host : Host α σ) : Pairs R (Task.now host) (Task.now host) fun _ _ => True := by
  rintro s s' hR _ _ ⟨⟩
  exact ⟨host.now s'.world, s', rfl, trivial, hR⟩

theorem tell (n n' : Notice α) : Pairs R (Task.tell n : Task α σ Unit) (Task.tell n') Eq := by
  rintro s s' hR _ _ ⟨⟩
  exact ⟨(), _, rfl, rfl, hR⟩

theorem tellAt (least level : Int) (n n' : Notice α) :
    Pairs R (Task.tellAt least level n : Task α σ Unit) (Task.tellAt least level n') Eq := by
  unfold Task.tellAt
  exact .ite (tell n n') (.pure rfl)

theorem ofRounding (x : Except RoundingError β) :
    Pairs R (Task.ofRounding x : Task α σ β) (Task.ofRounding x) Eq := by
  cases x with
  | error e => exact .throw _ _
  | ok b => exact .pure rfl

theorem number [Scalar α] (i : Int) : Pairs R (Task.number i : Task α σ α) (Task.number i) Eq := by
  unfold Task.number
  split
  · exact .pure rfl
  · exact .throw _ _

end Pairs

end Task

/-! ### Problems with other solutions -/

variable [Scalar α]

/-- The problem with other solutions stored beside its data. -/
def Problem.withSolutions (p : Problem α) (basic interior integer : Solution α) : Problem α :=
  { p with basic := basic, interior := interior, integer := integer }

/-- The same solution is written to both problems, with the same code. -/
def SameEnd (write : Problem α → Solution α → Problem α) (p p' : Problem α)
    (r r' : Problem α × ReturnCode) : Prop :=
  ∃ s, r.1 = write p s ∧ r' = (write p' s, r.2)

section
variable {R : σ → σ → Prop} {host : Host α σ} (p : Problem α)
  (b i n : Solution α) (params : Parameter.Simplex α) (options : SolverOptions α) (name : String)

theorem limited_pairs :
    Task.Pairs R (params.limited (σ := σ) options) (params.limited options) Eq := by
  unfold Parameter.Simplex.limited
  exact .ite ((Task.Pairs.number _).next fun _ => .pure rfl) (.pure rfl)

theorem noOptimum_pairs (unbounded : Bool) :
    Task.Pairs R (noOptimum (σ := σ) params name p unbounded)
      (noOptimum params name (p.withSolutions b i n) unbounded)
      (SameEnd .withBasic p (p.withSolutions b i n)) := by
  unfold noOptimum
  exact .ite ((Task.Pairs.tellAt _ _ _ _).next fun _ => .pure ⟨_, rfl, rfl⟩)
    (.ite (.pure ⟨_, rfl, rfl⟩) ((Task.Pairs.tellAt _ _ _ _).next fun _ => .pure ⟨_, rfl, rfl⟩))

theorem refuse_pairs (why : Obstacle α) :
    Task.Pairs R (refuse (σ := σ) params name p why)
      (refuse params name (p.withSolutions b i n) why)
      (SameEnd .withBasic p (p.withSolutions b i n)) :=
  (Task.Pairs.tellAt _ _ _ _).next fun _ => .pure ⟨_, rfl, rfl⟩

variable (hhost : host.Respects R)
include hhost

theorem isUnbounded_pairs (r : Request α) :
    Task.Pairs R (isUnbounded host r) (isUnbounded host r) Eq :=
  (Task.Pairs.ask hhost _).next fun _ => .pure rfl

theorem solveBasic_pairs :
    Task.Pairs R (solveBasic host params options name p)
      (solveBasic host params options name (p.withSolutions b i n))
      (SameEnd .withBasic p (p.withSolutions b i n)) := by
  have htold : ∀ (least level : Int) (m m' : Notice α) (s : Solution α) (code : ReturnCode),
      Task.Pairs (σ := σ) R (do Task.tellAt least level m; return (p.withBasic s, code))
        (do Task.tellAt least level m'; return ((p.withSolutions b i n).withBasic s, code))
        (SameEnd .withBasic p (p.withSolutions b i n)) :=
    fun _ _ _ _ _ _ => (Task.Pairs.tellAt _ _ _ _).next fun _ => .pure ⟨_, rfl, rfl⟩
  unfold solveBasic
  refine (Task.Pairs.now host).bind fun start start' _ => ?_
  refine (Task.Pairs.tellAt _ _ _ _).next fun _ => ?_
  refine .ite (.pure ⟨_, rfl, rfl⟩) ((limited_pairs params options).next fun options => ?_)
  refine (Task.Pairs.ask hhost _).next fun a => ?_
  refine .ite (.ite (htold _ _ _ _ _ _) (htold _ _ _ _ _ _)) (.ite (htold _ _ _ _ _ _)
    (.ite ?_ (.ite ?_ ?_)))
  · exact (isUnbounded_pairs hhost _).next fun _ => noOptimum_pairs p b i n params name _
  · exact noOptimum_pairs p b i n params name true
  · exact (Task.Pairs.now host).bind fun _ _ _ => htold _ _ _ _ _ _

theorem simplex_pairs : Task.Pairs R (simplex host params p)
    (simplex host params (p.withSolutions b i n))
    (SameEnd .withBasic p (p.withSolutions b i n)) := by
  have hbounds : (p.withSolutions b i n).badBounds = p.badBounds := rfl
  unfold simplex
  rw [hbounds]
  cases p.badBounds with
  | some why => exact refuse_pairs p b i n params "simplex" why
  | none => exact solveBasic_pairs p b i n params _ _ hhost

theorem exact_pairs : Task.Pairs R (exact host params p) (exact host params (p.withSolutions b i n))
    (SameEnd .withBasic p (p.withSolutions b i n)) := by
  have hbounds : (p.withSolutions b i n).badBounds = p.badBounds := rfl
  rw [exact_eq, exact_eq]
  rw [hbounds]
  refine .ite ((Task.Pairs.tellAt _ _ _ _).next fun _ => .pure ⟨_, rfl, rfl⟩) ?_
  cases p.badBounds with
  | some why => exact refuse_pairs p b i n params "exact" why
  | none => exact solveBasic_pairs p b i n _ _ _ hhost

theorem interior_pairs (params : Parameter.Interior) :
    Task.Pairs R (interior host params p) (interior host params (p.withSolutions b i n))
      (SameEnd .withInterior p (p.withSolutions b i n)) := by
  have htold : ∀ (least level : Int) (m : Notice α) (s : Solution α) (code : ReturnCode),
      Task.Pairs (σ := σ) R (do Task.tellAt least level m; return (p.withInterior s, code))
        (do Task.tellAt least level m; return ((p.withSolutions b i n).withInterior s, code))
        (SameEnd .withInterior p (p.withSolutions b i n)) :=
    fun _ _ _ _ _ => (Task.Pairs.tellAt _ _ _ _).next fun _ => .pure ⟨_, rfl, rfl⟩
  unfold interior
  refine .ite (htold _ _ _ _ _) ((Task.Pairs.tellAt _ _ _ _).next fun _ => ?_)
  refine (Task.Pairs.ask hhost _).next fun a => ?_
  exact .ite (.pure ⟨_, rfl, rfl⟩)
    (.ite (htold _ _ _ _ _) (.ite (htold _ _ _ _ _) (htold _ _ _ _ _)))

theorem unboundedRay_pairs :
    Task.Pairs R (unboundedRay host p) (unboundedRay host (p.withSolutions b i n)) Eq := by
  unfold unboundedRay
  refine (Task.Pairs.ask hhost _).next fun a => ?_
  exact .ite ((Task.Pairs.tell _ _).next fun _ => .pure rfl) (.pure rfl)

theorem infeasibilityRay_pairs :
    Task.Pairs R (infeasibilityRay host p) (infeasibilityRay host (p.withSolutions b i n)) Eq := by
  unfold infeasibilityRay
  refine .ite (.pure rfl) ((Task.Pairs.ask hhost _).next fun a => ?_)
  exact .ite ((Task.Pairs.tell _ _).next fun _ => .pure rfl) (.pure rfl)

end

end MixedInteger
