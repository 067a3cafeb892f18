import MixedInteger.Proofs.Model.Agreement
import MixedInteger.Proofs.Model.Conclusion
import MixedInteger.Proofs.Model.Integral
import MixedInteger.Proofs.Model.PointValues

/-! Feasibility problems. Of a model without its objective function the constraints let through the
same points, and it is unfit when the model is. So two feasibility problems that differ in nothing
but their objectives end with the same termination status, when both objectives are unbounded over
the relaxation or neither is, and both optima are past a limit of the dual simplex method or neither
is. That the sense is feasibility takes no coefficients away, though: of two objectives only one may
be unbounded, or past the limit, or have its optimum at a fraction close to an integer, or take too
long to search for, or lead the search to where a callback ends it. -/

namespace MixedInteger

open Extended Finset

variable {σ : Type}

/-! ### Without an objective -/

namespace Problem

/-- The problem whose points are all as good as one another. -/
def costless {α : Type} [Scalar α] (p : Problem α) : Problem α :=
  { p with constant := 0, columns := p.columns.map fun c => { c with cost := 0 } }

variable {p : Problem Extended} {x : ℕ → ℚ}

theorem columnCount_costless : p.costless.columnCount = p.columnCount := List.length_map _

theorem getElem?_costless (j : ℕ) :
    p.costless.columns[j]? = p.columns[j]?.map fun c => { c with cost := 0 } :=
  List.getElem?_map ..

theorem badBounds_costless : p.costless.badBounds = none ↔ p.badBounds = none := by
  rw [badBounds_eq_none_iff, badBounds_eq_none_iff]
  simp [costless]

theorem relaxed_costless : p.costless.Relaxed x ↔ p.Relaxed x := by
  constructor
  · intro h
    refine ⟨fun {j c} hc => ?_, fun r hr => columnCount_costless (p := p) ▸ h.holds r hr⟩
    exact h.within (c := { c with cost := 0 }) (by rw [getElem?_costless, hc]; rfl)
  · intro h
    refine ⟨fun {j c} hc => ?_, fun r hr => columnCount_costless (p := p) ▸ h.holds r hr⟩
    rw [getElem?_costless] at hc
    obtain ⟨d, hd, rfl⟩ := Option.map_eq_some_iff.1 hc
    exact h.within (c := d) hd

theorem integers_costless : p.costless.integers = p.integers := by
  ext j
  rw [mem_integers, mem_integers, getElem?_costless]
  simp only [Option.map_eq_some_iff]
  constructor
  · rintro ⟨_, ⟨c, hc, rfl⟩, hkind⟩
    exact ⟨c, hc, hkind⟩
  · rintro ⟨c, hc, hkind⟩
    exact ⟨_, ⟨c, hc, rfl⟩, hkind⟩

theorem feasible_costless : p.costless.Feasible x ↔ p.Feasible x := by
  have hintegral : p.costless.Integral x ↔ p.Integral x := by
    rw [Integral, Integral, integers_costless]
  exact ⟨fun h => ⟨relaxed_costless.1 h.relaxed, hintegral.1 h.integral⟩,
    fun h => ⟨relaxed_costless.2 h.relaxed, hintegral.2 h.integral⟩⟩

end Problem

theorem Column.inner_withCost {α : Type} [Scalar α] (c : Column α) (t : TypeState) (cost : α) :
    ({ c with cost := cost } : Column α).inner t = { c.inner t with cost := cost } := by
  have hrounds : ({ c with cost := cost } : Column α).rounds t = c.rounds t := rfl
  unfold Column.inner
  rw [hrounds]
  split_ifs <;> rfl

namespace Model

/-- The model without its objective function. -/
def costless {α : Type} [Scalar α] (m : Model α) : Model α :=
  { m with problem := m.problem.costless, objectiveKind := .scalarAffine }

variable {m : Model Extended}

theorem inner_costless : m.costless.inner.problem = m.inner.problem.costless := by
  have hcolumns : m.costless.innerColumns = m.innerColumns.map fun c => { c with cost := 0 } := by
    unfold innerColumns
    rw [List.map_zipWith, costless, Problem.costless, List.zipWith_map_right]
    simp only [Column.inner_withCost]
  unfold inner withColumns
  rw [hcolumns]
  rfl

theorem unfit_costless : m.costless.Unfit ↔ m.Unfit := by
  have hcolumns : m.costless.problem.columns = [] ↔ m.problem.columns = [] := List.map_eq_nil_iff
  constructor
  · rintro (⟨hmixed, hbounds⟩ | ⟨hmixed, hmethod, hbounds⟩ | ⟨hmixed, hmethod, hempty⟩)
    · rw [inner_costless, ne_eq, Problem.badBounds_costless] at hbounds
      exact .mixed hmixed hbounds
    · exact .crossed hmixed hmethod (mt Problem.badBounds_costless.2 hbounds)
    · exact .empty hmixed hmethod (hempty.imp_right hcolumns.1)
  · rintro (⟨hmixed, hbounds⟩ | ⟨hmixed, hmethod, hbounds⟩ | ⟨hmixed, hmethod, hempty⟩)
    · refine .mixed hmixed ?_
      rw [inner_costless, ne_eq, Problem.badBounds_costless]
      exact hbounds
    · exact .crossed hmixed hmethod (mt Problem.badBounds_costless.1 hbounds)
    · exact .empty hmixed hmethod (hempty.imp_right hcolumns.2)

end Model

/-! ### Feasibility problems -/

/-- Which limit of the objective stops the dual simplex method depends on the direction. -/
theorem objectiveLimit_eq {params : Parameter.Simplex Extended} {p q : Problem Extended}
    {a b : Extended} (hdirection : p.direction = q.direction)
    (hdone : objectiveLimit params p a = .done ↔ objectiveLimit params q b = .done) :
    objectiveLimit params p a = objectiveLimit params q b := by
  unfold objectiveLimit at *
  rw [hdirection] at *
  split_ifs at * <;> simp_all

namespace Model

/-- Two models of the sense of feasibility that differ in nothing but their objective functions. -/
structure SameButObjective (m₁ m₂ : Model Extended) : Prop where
  left : m₁.objectiveSense = .feasibility
  right : m₂.objectiveSense = .feasibility
  same : m₁.costless = m₂.costless

/-- Of two models that can be solved, both have objectives that are unbounded over the relaxation or
neither has, and without a search both optima are past a limit of the objective or neither is. -/
structure Alike (m₁ m₂ : Model Extended) : Prop where
  bounded : ¬m₁.Unfit →
    (m₁.inner.problem.Admits .unbounded ↔ m₂.inner.problem.Admits .unbounded)
  unlimited : ¬m₁.Unfit → ¬m₁.IsMixed → m₁.method ≠ .interior → (m₁.Unlimited ↔ m₂.Unlimited)

namespace SameButObjective

variable {m₁ m₂ : Model Extended} (h : m₁.SameButObjective m₂)
include h

theorem stores : m₁.stores = m₂.stores := congrArg (·.stores) h.same

theorem method : m₁.method = m₂.method := congrArg (·.method) h.same

theorem direction : m₁.problem.direction = m₂.problem.direction :=
  congrArg (·.problem.direction) h.same

theorem isEmpty_columns : m₁.problem.columns.isEmpty = m₂.problem.columns.isEmpty := by
  have hempty := congrArg (·.problem.columns.isEmpty) h.same
  simpa only [costless, Problem.costless, List.isEmpty_map] using hempty

theorem isMixed : m₁.IsMixed ↔ m₂.IsMixed := by
  have hmixed : m₁.costless.IsMixed ↔ m₂.costless.IsMixed := by rw [h.same]
  exact hmixed

theorem unfit : m₁.Unfit ↔ m₂.Unfit := by
  rw [← unfit_costless, h.same, unfit_costless]

theorem relaxed (x : ℕ → ℚ) : m₁.problem.Relaxed x ↔ m₂.problem.Relaxed x := by
  have hproblem : m₁.problem.costless = m₂.problem.costless := congrArg (·.problem) h.same
  rw [← Problem.relaxed_costless, hproblem, Problem.relaxed_costless]

theorem feasible (x : ℕ → ℚ) : m₁.inner.problem.Feasible x ↔ m₂.inner.problem.Feasible x := by
  rw [← Problem.feasible_costless, ← inner_costless, h.same, inner_costless,
    Problem.feasible_costless]

theorem explored (halike : m₁.Alike m₂) : m₁.Explored ↔ m₂.Explored :=
  ⟨fun ⟨hmixed, hfit, hbounded⟩ =>
    ⟨h.isMixed.1 hmixed, mt h.unfit.2 hfit, mt (halike.bounded hfit).2 hbounded⟩,
  fun ⟨hmixed, hfit, hbounded⟩ =>
    ⟨h.isMixed.2 hmixed, mt h.unfit.1 hfit, mt (halike.bounded (mt h.unfit.1 hfit)).1 hbounded⟩⟩

/-- The interior method takes no objective limit, and the exact method has a way of presolving of
its own. -/
theorem ending_eq {f g : Finding} (hblurred : f.blurred.status = g.blurred.status)
    (hsimplex : m₁.method ≠ .interior → ∀ k : ℤ,
      { m₁.stores.simplex with presolve := k }.ending m₁.problem f =
        { m₁.stores.simplex with presolve := k }.ending m₂.problem g) :
    m₁.ending f = m₂.ending g := by
  unfold ending
  rw [← h.method, ← h.stores]
  cases hmethod : m₁.method with
  | simplex => exact hsimplex (by simp [hmethod]) m₁.stores.simplex.presolve
  | exact => exact hsimplex (by simp [hmethod]) 0
  | interior => exact congrArg _ hblurred

theorem ending_infeasible : m₁.ending .infeasible = m₂.ending .infeasible := by
  refine h.ending_eq rfl fun _ k => ?_
  unfold Parameter.Simplex.ending
  rw [h.isEmpty_columns, h.direction]

theorem ending_unbounded : m₁.ending .unbounded = m₂.ending .unbounded :=
  h.ending_eq rfl fun _ _ => rfl

theorem ending_optimal (hlimits : m₁.method ≠ .interior → (m₁.Unlimited ↔ m₂.Unlimited)) {v v' : ℚ}
    (hv : m₁.problem.Admits (.optimal v)) (hv' : m₂.problem.Admits (.optimal v')) :
    m₁.ending (.optimal v) = m₂.ending (.optimal v') := by
  refine h.ending_eq rfl fun hmethod k => ?_
  unfold Parameter.Simplex.ending
  rw [← h.isEmpty_columns]
  by_cases hcolumns : m₁.problem.columns = []
  · rw [hcolumns]
    rfl
  have hcolumns' : m₂.problem.columns ≠ [] := by
    rwa [ne_eq, ← List.isEmpty_iff, ← h.isEmpty_columns, List.isEmpty_iff]
  have hdone := hlimits hmethod
  rw [unlimited_iff hcolumns hv, unlimited_iff hcolumns' hv', ← h.stores] at hdone
  have hlimit : objectiveLimit m₁.stores.simplex m₁.problem (rat v) =
      objectiveLimit m₁.stores.simplex m₂.problem (rat v') :=
    objectiveLimit_eq h.direction hdone
  exact congrArg (fun code => (if m₁.problem.columns.isEmpty then .done else code, _)) hlimit

/-- Without a search both methods end in the same way. -/
theorem ending_agrees (halike : m₁.Alike m₂) (hm₁ : m₁.Sound) (hm₂ : m₂.Sound) (hfit : ¬m₁.Unfit)
    (hmixed : ¬m₁.IsMixed) {f g : Finding} (hf : m₁.problem.Admits f) (hg : m₂.problem.Admits g) :
    m₁.ending f = m₂.ending g := by
  have hinfeasible : m₁.problem.Admits .infeasible ↔ m₂.problem.Admits .infeasible :=
    forall_congr' fun x => not_congr (h.relaxed x)
  have hunbounded := halike.bounded hfit
  rw [hm₁.inner_of_unmixed hmixed, hm₂.inner_of_unmixed (mt h.isMixed.2 hmixed)] at hunbounded
  cases f with
  | infeasible =>
    obtain rfl := (hinfeasible.1 hf).unique hg
    exact h.ending_infeasible
  | unbounded =>
    obtain rfl := (hunbounded.1 hf).unique hg
    exact h.ending_unbounded
  | optimal v =>
    cases g with
    | infeasible => cases (hinfeasible.2 hg).unique hf
    | unbounded => cases (hunbounded.2 hg).unique hf
    | optimal v' => exact h.ending_optimal (halike.unlimited hfit hmixed) hf hg

end SameButObjective

variable {t₁ t₂ : TerminationStatus}

/-- What there is to find in one model is found in the other. -/
theorem Concludes.agree {m₁ m₂ : Model Extended} (hsame : m₁.SameButObjective m₂)
    (halike : m₁.Alike m₂) (hm₁ : m₁.Sound) (hm₂ : m₂.Sound) (h₁ : m₁.Concludes t₁)
    (h₂ : m₂.Concludes t₂) : t₁ = t₂ := by
  cases h₁ with
  | unfit hunfit =>
    cases h₂ with
    | unfit => rfl
    | ended hfit | unbounded hfit => exact absurd (hsame.unfit.1 hunfit) hfit
    | found h | exhausted h => exact absurd (hsame.unfit.1 hunfit) h.fit
  | ended hfit hmixed f hf =>
    cases h₂ with
    | unfit hunfit => exact absurd (hsame.unfit.2 hunfit) hfit
    | ended _ hmixed' g hg =>
      rw [hsame.method, hsame.ending_agrees halike hm₁ hm₂ hfit hmixed hf hg]
    | unbounded _ hmixed' => exact absurd (hsame.isMixed.2 hmixed') hmixed
    | found h | exhausted h => exact absurd (hsame.isMixed.2 h.mixed) hmixed
  | unbounded hfit hmixed hf =>
    cases h₂ with
    | unfit hunfit => exact absurd (hsame.unfit.2 hunfit) hfit
    | ended _ hmixed' => exact absurd (hsame.isMixed.1 hmixed) hmixed'
    | unbounded => rfl
    | found h | exhausted h => exact absurd ((halike.bounded hfit).1 hf) h.bounded
  | found h x hx =>
    cases h₂ with
    | unfit hunfit => exact absurd (hsame.unfit.2 hunfit) h.fit
    | ended _ hmixed' => exact absurd (hsame.isMixed.1 h.mixed) hmixed'
    | unbounded _ _ hf => exact absurd ((halike.bounded h.fit).2 hf) h.bounded
    | found => rfl
    | exhausted _ hnone => exact absurd ((hsame.feasible x).1 hx) (hnone x)
  | exhausted h hnone =>
    cases h₂ with
    | unfit hunfit => exact absurd (hsame.unfit.2 hunfit) h.fit
    | ended _ hmixed' => exact absurd (hsame.isMixed.1 h.mixed) hmixed'
    | unbounded _ _ hf => exact absurd ((halike.bounded h.fit).2 hf) h.bounded
    | found _ x hx => exact absurd ((hsame.feasible x).2 hx) (hnone x)
    | exhausted => rfl

variable {m : Model Extended}

/-- Nothing else is written when an objective function is set. -/
theorem WellFormed.costless_withObjective (hm : m.WellFormed) (f : AffineFunction Extended)
    (kind : ObjectiveKind) : (m.withObjective f kind).costless = m.costless := by
  have hkeys : m.vars.keys.length = m.problem.columns.length := by
    rw [Registry.keys, List.length_map, hm.columnCount]
  have hcolumns : (m.withObjective f kind).problem.costless.columns =
      m.problem.costless.columns := by
    refine List.ext_getElem ?_ fun j hj hj' => ?_
    · simp [Problem.costless, Model.withObjective, hkeys]
    · simp [Problem.costless, Model.withObjective]
  have hproblem : (m.withObjective f kind).problem.costless = m.problem.costless :=
    congrArg (fun cs => { m.problem.costless with columns := cs }) hcolumns
  unfold costless
  rw [hproblem]
  rfl

theorem WellFormed.sameButObjective (hm : m.WellFormed) (hsense : m.objectiveSense = .feasibility)
    (f g : AffineFunction Extended) (kind kind' : ObjectiveKind) :
    (m.withObjective f kind).SameButObjective (m.withObjective g kind') :=
  ⟨hsense, hsense,
    (hm.costless_withObjective f kind).trans (hm.costless_withObjective g kind').symm⟩

end Model

/-- Where the objective of a feasibility problem can be ignored. With an exact solver, two models
that differ in nothing but their objective functions end with the same termination status, whatever
the method, when both objectives are unbounded over the relaxation or neither is, when both optima
are past a limit of the dual simplex method or neither is, and when searches take no fraction for
an integer and are not stopped. Both solves return, and where nodes are searched they do so when all
of them can be gone through. -/
theorem optimize_ignores_objective {host : Host Extended σ} (hexact : host.IsExact)
    (hdecides : host.Decides) {callback : Option (Callback Extended σ)}
    (hcallback : ∀ call, callback = some call → call.Looks) {m₁ m₂ : Model Extended}
    (hsame : m₁.SameButObjective m₂) (halike : m₁.Alike m₂) (h₁ : m₁.WellPosed host)
    (h₂ : m₂.WellPosed host) (fuel₁ fuel₂ : ℕ) (s₁ s₂ : Session Extended σ) :
    (∀ w₁ w₂, Solving.optimize host callback fuel₁ ⟨s₁, m₁⟩ = .ok () w₁ →
      Solving.optimize host callback fuel₂ ⟨s₂, m₂⟩ = .ok () w₂ →
        ∃ t, w₁.model.terminationStatus = .ok t ∧ w₂.model.terminationStatus = .ok t) ∧
    ((m₁.Explored → m₁.Exhaustible callback fuel₁ ∧ m₂.Exhaustible callback fuel₂) →
      ∃ w₁ w₂, Solving.optimize host callback fuel₁ ⟨s₁, m₁⟩ = .ok () w₁ ∧
        Solving.optimize host callback fuel₂ ⟨s₂, m₂⟩ = .ok () w₂) := by
  have hrun₁ : Runs (Solving.optimize host callback fuel₁) ⟨s₁, m₁⟩ _ _ :=
    Solving.optimize_concludes hexact hdecides hcallback h₁
  have hrun₂ : Runs (Solving.optimize host callback fuel₂) ⟨s₂, m₂⟩ _ _ :=
    Solving.optimize_concludes hexact hdecides hcallback h₂
  constructor
  · intro w₁ w₂ hw₁ hw₂
    obtain ⟨t₁, ht₁, hconcludes₁⟩ := hrun₁.ok hw₁
    obtain ⟨t₂, ht₂, hconcludes₂⟩ := hrun₂.ok hw₂
    obtain rfl := hconcludes₁.agree hsame halike h₁.reachable.sound h₂.reachable.sound hconcludes₂
    exact ⟨t₁, ht₁, ht₂⟩
  · intro hexhaustible
    obtain ⟨_, w₁, hw₁, -⟩ := Runs.returns (hrun₁.weaken fun _ hfails =>
      hfails.2 (hexhaustible hfails.1).1)
    obtain ⟨_, w₂, hw₂, -⟩ := Runs.returns (hrun₂.weaken fun _ hfails =>
      hfails.2 (hexhaustible ((hsame.explored halike).2 hfails.1)).2)
    exact ⟨w₁, w₂, hw₁, hw₂⟩

/-! ### One variable -/

/-- A multiple of the first variable. -/
def multiple (q : ℚ) : AffineFunction Extended := ⟨[⟨rat q, ⟨1⟩⟩], 0⟩

theorem coefficient_multiple (q : ℚ) : (multiple q).coefficient ⟨1⟩ = rat q := by
  simp [multiple, AffineFunction.coefficient, Scalar.sum, zero_eq]

namespace Problem

variable {p : Problem Extended}

/-- With one column and no constant. -/
theorem valueOf_singleton {c : Column Extended} {q : ℚ} (hcolumns : p.columns = [c])
    (hcost : c.cost = rat q) (hconstant : p.constant = 0) (x : ℕ → ℚ) : p.valueOf x = q * x 0 := by
  have hcostAt : p.costAt 0 = q := by
    rw [costAt, hcolumns]
    change c.cost.value = q
    rw [hcost]
    rfl
  rw [valueOf, columnCount, hcolumns, hconstant, List.length_singleton, sum_range_one, hcostAt]
  exact zero_add _

end Problem

namespace Model

/-- The model with a multiple of the first variable as its objective. -/
def scaled (m : Model Extended) (q : ℚ) : Model Extended :=
  m.withObjective (multiple q) .scalarAffine

variable {m : Model Extended} {c : Column Extended} {q : ℚ}

theorem Reachable.scaled (hm : m.Reachable) {info : VariableInfo}
    (hfirst : m.vars.entries[0]? = some (1, info)) (q : ℚ) : (m.scaled q).Reachable := by
  have hcall := hm.call (c := .edit (.setObjective (.affine (multiple q))))
    (by rintro _ ⟨⟩ _ ⟨⟩)
  have hget : m.vars.get? 1 = some info := hm.sound.named.wf.vars.get?_of_getElem hfirst
  have hlive : m.firstDead (multiple q).terms = none := by
    simp [firstDead, multiple, hget]
  have hrun := Modelling.setAffineObjective_run hm.sound.named.wf hlive .scalarAffine
  have hafter : Call.after m (.edit (.setObjective (.affine (multiple q)))) = m.scaled q :=
    (after_return (Modelling.setAffineObjective _ _) fun _ => Reply.done).trans (after_ok hrun)
  rwa [hafter] at hcall

theorem Reachable.sameButObjective (hm : m.Reachable) (hsense : m.objectiveSense = .feasibility)
    (q q' : ℚ) : (m.scaled q).SameButObjective (m.scaled q') :=
  hm.sound.named.wf.sameButObjective hsense _ _ _ _

theorem columns_scaled (hkeys : m.vars.keys = [1]) (hcolumns : m.problem.columns = [c]) :
    (m.scaled q).problem.columns = [{ c with cost := rat q }] := by
  rw [← coefficient_multiple]
  change List.zipWith _ m.problem.columns (m.vars.keys.map _) = _
  rw [hkeys, hcolumns]
  rfl

theorem rational_scaled (hkeys : m.vars.keys = [1]) (hcolumns : m.problem.columns = [c])
    (hrows : ∀ r ∈ m.problem.rows, r.Rational) : (m.scaled q).Rational where
  constant := rfl
  cost d hd := by
    rw [columns_scaled hkeys hcolumns, List.mem_singleton] at hd
    rw [hd]
    rfl
  rows := hrows

theorem relaxed_scaled (hm : m.WellFormed) {x : ℕ → ℚ} :
    (m.scaled q).problem.Relaxed x ↔ m.problem.Relaxed x := by
  rw [← Problem.relaxed_costless, ← Problem.relaxed_costless (p := m.problem)]
  exact Iff.of_eq (congrArg (fun m => m.problem.Relaxed x) (hm.costless_withObjective _ _))

end Model

theorem floored_reachable : floored.Reachable := fenced_reachable rfl rfl

namespace Model

variable {m m₁ m₂ : Model Extended}

/-- Without integer variables nothing more is asked for. -/
theorem WellPosed.of_unmixed (hm : m.Reachable) (hr : m.Rational) (hmixed : ¬m.IsMixed)
    (host : Host Extended σ) : m.WellPosed host :=
  ⟨hm, hr, fun h => absurd h hmixed, fun h => absurd h.mixed hmixed⟩

theorem Alike.of_optima (hm₁ : m₁.Sound) (hm₂ : m₂.Sound) (hmixed₁ : ¬m₁.IsMixed)
    (hmixed₂ : ¬m₂.IsMixed) {v v' : ℚ} (hv : m₁.problem.Admits (.optimal v))
    (hv' : m₂.problem.Admits (.optimal v')) (hunlimited : m₁.Unlimited ↔ m₂.Unlimited) :
    m₁.Alike m₂ where
  bounded _ := by
    rw [hm₁.inner_of_unmixed hmixed₁, hm₂.inner_of_unmixed hmixed₂]
    exact iff_of_false (fun h => nomatch h.unique hv) fun h => nomatch h.unique hv'
  unlimited _ _ _ := hunlimited

end Model

section
variable {q : ℚ}

theorem floored_admits_scaled (hq : 0 ≤ q) :
    (floored.scaled q).problem.Admits (.optimal (q * 3)) := by
  have hwf := floored_reachable.sound.named.wf
  have hvalue := Problem.valueOf_singleton (p := (floored.scaled q).problem)
    (Model.columns_scaled rfl fenced_columns) rfl rfl
  have hsign : (floored.scaled q).problem.sign = 1 := rfl
  have hthree : floored.problem.Relaxed fun _ => 3 :=
    fenced_relaxed.2 ⟨(rat_le_rat _ _).2 le_rfl, rat_le_top _⟩
  refine ⟨fun _ => 3, ⟨(Model.relaxed_scaled hwf).2 hthree, fun y hy => ?_⟩, hvalue _⟩
  have hle := (fenced_relaxed.1 ((Model.relaxed_scaled hwf).1 hy)).1
  rw [hvalue, hvalue, hsign, one_mul, one_mul]
  exact mul_le_mul_of_nonneg_left ((rat_le_rat _ _).1 hle) hq

theorem wellPosed_floored (host : Host Extended σ) : (floored.scaled q).WellPosed host :=
  .of_unmixed (floored_reachable.scaled rfl q)
    (Model.rational_scaled rfl fenced_columns floored_continuous.rational.rows)
    floored_continuous.unmixed host

/-- At least three, for the dual simplex method, which stops at zero. -/
def limited : Model Extended := { floored with
    stores := { floored.stores with
      simplex := { floored.stores.simplex with method := 3, objectiveUpper := 0 } } }

theorem limited_reachable : limited.Reachable :=
  floored_reachable.settings floored.presolve floored.method limited.stores floored.given
    floored.silent

theorem limited_columns : limited.problem.columns = [{ cost := 1 }] :=
  fenced_columns (s := .greaterThan (rat 3))

theorem limited_admits (hq : 0 ≤ q) : (limited.scaled q).problem.Admits (.optimal (q * 3)) :=
  floored_admits_scaled hq

theorem wellPosed_limited (host : Host Extended σ) : (limited.scaled q).WellPosed host :=
  .of_unmixed (limited_reachable.scaled rfl q)
    (Model.rational_scaled rfl limited_columns floored_continuous.rational.rows)
    floored_continuous.unmixed host

/-- What is worth more than zero is past the limit. -/
theorem not_unlimited_limited (hq : 0 < q) : ¬(limited.scaled q).Unlimited := by
  have hcolumns := Model.columns_scaled (m := limited) (q := q) rfl limited_columns
  rw [Model.unlimited_iff (by rw [hcolumns]; simp) (limited_admits hq.le)]
  have hpast : (0 : Extended) < rat (q * 3) := (rat_lt_rat 0 _).2 (by positivity)
  have hlimit : objectiveLimit (limited.scaled q).stores.simplex (limited.scaled q).problem
      (rat (q * 3)) = .objectiveUpper := if_pos hpast
  rw [hlimit]
  simp

end

/-! ### A binary variable -/

/-- A binary variable, in a search without tolerance for fractions. -/
def loneBinary : Model Extended :=
  { lone with
    vars := { lone.vars with entries := [(1, { index := ⟨1⟩, column := 1, type := .binary })] }
    binaries := 1
    problem := { lone.problem with columns := [{ kind := .integer }] }
    stores := { lone.stores with search := { lone.stores.search with integerTolerance := 0 } } }

theorem loneBinary_reachable : loneBinary.Reachable := by
  have hcall := lone_reachable.call (c := .edit (.addConstraint (.single ⟨1⟩) (.set .zeroOne)))
    (by decide +kernel)
  have hentry : lone.vars.entries[0]? = some (1, { index := ⟨1⟩, column := 1 }) := rfl
  have hrun := Modelling.addTypeConstraint_run lone_wellFormed (c := {}) ⟨hentry, rfl, rfl, rfl⟩
    rfl .binary .zeroOne
  rw [Model.withVariable, Model.withColumn, lone_wellFormed.vars.modify_of_getElem hentry] at hrun
  have hafter := (after_return (Modelling.addConstraint (.single ⟨1⟩) (.set .zeroOne))
    Reply.newConstraint).trans (after_ok hrun)
  change Call.after lone (.edit (.addConstraint (.single ⟨1⟩) (.set .zeroOne))) = _ at hafter
  rw [hafter] at hcall
  exact hcall.settings _ _ loneBinary.stores _ _

/-- The column of a binary variable, as a search sees it. -/
def unitColumn (q : ℚ) : Column Extended :=
  { bound := .double, lower := 0, upper := 1, kind := .integer, cost := rat q }

theorem inner_binary : ({ kind := .integer } : Column Extended).inner .binary =
    { bound := .double, lower := 0, upper := 1, kind := .integer } := by
  have hbox : Solving.integerBox .binary ({ kind := .integer } : Column Extended) = (0, 1) := rfl
  have hrounds : ({ kind := .integer } : Column Extended).rounds .binary = true := by
    decide +kernel
  have hkind : boundKind (0 : Extended) 1 = .double := by decide +kernel
  unfold Column.inner
  rw [if_pos hrounds]
  simp only [Column.rebound, Column.box, hbox, Option.getD_some, storedBounds, hkind]
  rfl

section
variable {q : ℚ}

theorem loneBinary_columns : (loneBinary.scaled q).inner.problem.columns = [unitColumn q] := by
  have hcolumns := Model.columns_scaled (m := loneBinary) (q := q) rfl rfl
  have hvalues : (loneBinary.scaled q).vars.values =
      [{ index := ⟨1⟩, column := 1, type := .binary }] := rfl
  change (loneBinary.scaled q).innerColumns = _
  rw [Model.innerColumns, hvalues, hcolumns, List.zipWith_cons_cons, List.zipWith_nil_left,
    Column.inner_withCost, inner_binary]
  rfl

theorem loneBinary_isMixed : (loneBinary.scaled q).IsMixed := .inl Int.zero_lt_one

theorem wellPosed_loneBinary (host : Host Extended σ) : (loneBinary.scaled q).WellPosed host where
  reachable := loneBinary_reachable.scaled rfl q
  rational := Model.rational_scaled rfl rfl (by rintro _ ⟨⟩)
  unhurried _ := lt_irrefl Parameter.unlimited
  decisive _ := ⟨0, rfl, host.isDecisive_zero _ _⟩

theorem loneBinary_bounded : ¬(loneBinary.scaled q).inner.problem.Admits .unbounded := by
  refine Problem.not_admits_unbounded (b := -|q|) fun x hx => ?_
  obtain ⟨hl, hu⟩ := hx.within (j := 0) (c := unitColumn q) (by rw [loneBinary_columns]; rfl)
  have hsize : |x 0| ≤ 1 := by
    rw [abs_of_nonneg ((rat_le_rat _ _).1 hl)]
    exact (rat_le_rat _ _).1 hu
  have hsign : (loneBinary.scaled q).inner.problem.sign = 1 := rfl
  rw [Problem.valueOf_singleton loneBinary_columns rfl rfl, hsign, one_mul]
  refine neg_le_of_abs_le ?_
  rw [abs_mul]
  exact mul_le_of_le_one_right (abs_nonneg q) hsize

theorem exhaustible_loneBinary :
    (loneBinary.scaled q).Exhaustible (none : Option (Callback Extended σ)) 20 := by
  have hcolumns : ∀ c ∈ (loneBinary.scaled q).inner.problem.columns, c = unitColumn q := by
    rw [loneBinary_columns]
    exact fun c hc => List.mem_singleton.1 hc
  have hlower : ValuedScalar.IsIntegral (unitColumn q).lower := ⟨rfl, 0, Int.cast_zero.symm⟩
  have hupper : ValuedScalar.IsIntegral (unitColumn q).upper := ⟨rfl, 1, Int.cast_one.symm⟩
  refine
    { silent := rfl
      tolerance := (rat_le_rat 0 0).2 le_rfl
      technique := by
        change loneBinary.stores.search.backtracking ∈ _
        decide
      bounded := ⟨fun c hc _ => hcolumns c hc ▸ hlower, fun c hc _ => hcolumns c hc ▸ hupper,
        fun c hc _ => hcolumns c hc ▸ (rat_le_rat 0 1).2 zero_le_one⟩
      fuel := ?_ }
  have hplaces : Fintype.card (loneBinary.scaled q).inner.problem.Place ≤ 1 := by
    refine (Fintype.card_subtype_le _).trans ?_
    rw [Fintype.card_fin, loneBinary_columns]
    rfl
  have hfactor : ∀ j : (loneBinary.scaled q).inner.problem.Place,
      (Scalar.floorInt j.column.upper + 1 - Scalar.floorInt j.column.lower).toNat = 2 := by
    intro j
    rw [hcolumns _ j.mem]
    rfl
  rw [Problem.card_lattice, Finset.prod_congr rfl fun j _ => hfactor j, Finset.prod_const,
    Finset.card_univ]
  have hpow := Nat.pow_le_pow_right two_pos hplaces
  omega

end

/-! ### An integer variable without bounds -/

section
variable {q : ℚ}

theorem loneInteger_columns : (loneInteger.scaled q).inner.problem.columns =
    [{ kind := .integer, cost := rat q }] := by
  have hcolumns := Model.columns_scaled (m := loneInteger) (q := q) rfl rfl
  have hvalues : (loneInteger.scaled q).vars.values =
      [{ index := ⟨1⟩, column := 1, type := .integer }] := rfl
  have hrounds : ({ kind := .integer } : Column Extended).rounds .integer = false := by
    decide +kernel
  change (loneInteger.scaled q).innerColumns = _
  rw [Model.innerColumns, hvalues, hcolumns, List.zipWith_cons_cons, List.zipWith_nil_left,
    Column.inner_withCost, Column.inner, hrounds]
  rfl

theorem loneInteger_isMixed : (loneInteger.scaled q).IsMixed := .inr Int.zero_lt_one

/-- It is minimised without end. -/
theorem loneInteger_unbounded (hq : 0 < q) :
    (loneInteger.scaled q).inner.problem.Admits .unbounded := by
  intro b
  have hsign : (loneInteger.scaled q).inner.problem.sign = 1 := rfl
  refine ⟨fun _ => b / q - 1, ⟨fun hc => ?_, nofun⟩, ?_⟩
  · rw [loneInteger_columns] at hc
    obtain rfl := List.mem_singleton.1 (List.mem_of_getElem? hc)
    exact ⟨bottom_le_rat _, rat_le_top _⟩
  · rw [Problem.valueOf_singleton loneInteger_columns rfl rfl, hsign, one_mul, mul_sub,
      mul_div_cancel₀ _ hq.ne', mul_one]
    exact sub_lt_self b hq

theorem wellPosed_loneInteger (host : Host Extended σ) (hq : 0 < q) :
    (loneInteger.scaled q).WellPosed host where
  reachable := loneInteger_reachable.scaled rfl q
  rational := Model.rational_scaled rfl rfl (by rintro _ ⟨⟩)
  unhurried _ := lt_irrefl Parameter.unlimited
  decisive h := absurd (loneInteger_unbounded hq) h.bounded

end

/-- Solves of both models, without a callback, end with the same status. -/
def EndsAlike (m₁ m₂ : Model Extended) : Prop := ∃ w₁ w₂ t,
  Solving.optimize Host.eliminating none 20 ⟨⟨(), #[]⟩, m₁⟩ = .ok () w₁ ∧
  Solving.optimize Host.eliminating none 20 ⟨⟨(), #[]⟩, m₂⟩ = .ok () w₂ ∧
  w₁.model.terminationStatus = .ok t ∧ w₂.model.terminationStatus = .ok t

theorem EndsAlike.of_returns {m₁ m₂ : Model Extended} {e : Prop}
    (h : (∀ w₁ w₂, Solving.optimize Host.eliminating none 20 ⟨⟨(), #[]⟩, m₁⟩ = .ok () w₁ →
      Solving.optimize Host.eliminating none 20 ⟨⟨(), #[]⟩, m₂⟩ = .ok () w₂ →
        ∃ t, w₁.model.terminationStatus = .ok t ∧ w₂.model.terminationStatus = .ok t) ∧
      (e → ∃ w₁ w₂, Solving.optimize Host.eliminating none 20 ⟨⟨(), #[]⟩, m₁⟩ = .ok () w₁ ∧
        Solving.optimize Host.eliminating none 20 ⟨⟨(), #[]⟩, m₂⟩ = .ok () w₂)) (he : e) :
    EndsAlike m₁ m₂ := by
  obtain ⟨w₁, w₂, hw₁, hw₂⟩ := h.2 he
  obtain ⟨t, ht₁, ht₂⟩ := h.1 w₁ w₂ hw₁ hw₂
  exact ⟨w₁, w₂, t, hw₁, hw₂, ht₁, ht₂⟩

/-- A continuous variable with an optimum, also past a limit of the objective, a binary one that is
minimised or maximised, and an integer one that is minimised without end. -/
theorem optimize_ignores_objective_one : EndsAlike (floored.scaled 1) (floored.scaled 0) ∧
    EndsAlike (limited.scaled 1) (limited.scaled 2) ∧
    EndsAlike (loneBinary.scaled 1) (loneBinary.scaled (-1)) ∧
    EndsAlike (loneInteger.scaled 1) (loneInteger.scaled 2) := by
  have hsilent : ∀ call, (none : Option (Callback Extended Unit)) = some call → call.Looks := by
    rintro _ ⟨⟩
  have hunmixed : ∀ q, ¬(floored.scaled q).IsMixed := fun _ => floored_continuous.unmixed
  have hunmixed' : ∀ q, ¬(limited.scaled q).IsMixed := fun _ => floored_continuous.unmixed
  have hsound := fun q => (floored_reachable.scaled rfl q).sound
  have hsound' := fun q => (limited_reachable.scaled rfl q).sound
  refine ⟨?_, ?_, ?_, ?_⟩
  · exact .of_returns (optimize_ignores_objective Host.eliminating_isExact Host.eliminating_decides
      hsilent (floored_reachable.sameButObjective rfl 1 0)
      (.of_optima (hsound 1) (hsound 0) (hunmixed 1) (hunmixed 0)
        (floored_admits_scaled zero_le_one) (floored_admits_scaled le_rfl)
        (iff_of_true (fun _ _ _ => rfl) fun _ _ _ => rfl))
      (wellPosed_floored _) (wellPosed_floored _) 20 20 ⟨(), #[]⟩ ⟨(), #[]⟩)
      fun h => absurd h.mixed (hunmixed 1)
  · exact .of_returns (optimize_ignores_objective Host.eliminating_isExact Host.eliminating_decides
      hsilent (limited_reachable.sameButObjective rfl 1 2)
      (.of_optima (hsound' 1) (hsound' 2) (hunmixed' 1) (hunmixed' 2)
        (limited_admits zero_le_one) (limited_admits zero_le_two)
        (iff_of_false (not_unlimited_limited one_pos) (not_unlimited_limited two_pos)))
      (wellPosed_limited _) (wellPosed_limited _) 20 20 ⟨(), #[]⟩ ⟨(), #[]⟩)
      fun h => absurd h.mixed (hunmixed' 1)
  · exact .of_returns (optimize_ignores_objective Host.eliminating_isExact Host.eliminating_decides
      hsilent (loneBinary_reachable.sameButObjective rfl 1 (-1))
      ⟨fun _ => iff_of_false loneBinary_bounded loneBinary_bounded,
        fun _ hunmixed => absurd loneBinary_isMixed hunmixed⟩
      (wellPosed_loneBinary _) (wellPosed_loneBinary _) 20 20 ⟨(), #[]⟩ ⟨(), #[]⟩)
      fun _ => ⟨exhaustible_loneBinary, exhaustible_loneBinary⟩
  · exact .of_returns (optimize_ignores_objective Host.eliminating_isExact Host.eliminating_decides
      hsilent (loneInteger_reachable.sameButObjective rfl 1 2)
      ⟨fun _ => iff_of_true (loneInteger_unbounded one_pos) (loneInteger_unbounded two_pos),
        fun _ hunmixed => absurd loneInteger_isMixed hunmixed⟩
      (wellPosed_loneInteger _ one_pos) (wellPosed_loneInteger _ two_pos) 20 20 ⟨(), #[]⟩
      ⟨(), #[]⟩)
      fun h => absurd (loneInteger_unbounded one_pos) h.bounded

/-! ### Where the objective matters -/

/-- Two feasibility problems, which differ in nothing but their objectives, and the statuses that
solves of them with an exact solver end with. -/
structure Diverge (host : Host Extended σ) (callback : Option (Callback Extended σ)) (world : σ)
    (m₁ m₂ : Model Extended) (t₁ t₂ : TerminationStatus) : Prop where
  exact : host.IsExact
  left : m₁.Reachable
  right : m₂.Reachable
  same : m₁.SameButObjective m₂
  first : ∃ w, Solving.optimize host callback 20 ⟨⟨world, #[]⟩, m₁⟩ = .ok () w ∧
    w.model.terminationStatus = .ok t₁
  second : ∃ w, Solving.optimize host callback 20 ⟨⟨world, #[]⟩, m₂⟩ = .ok () w ∧
    w.model.terminationStatus = .ok t₂

section
variable {host : Host Extended σ} {callback : Option (Callback Extended σ)} {world : σ}
  {m : Model Extended}

/-- A solve on given data ends with a status. -/
theorem exists_solve {t : TerminationStatus}
    (hreturns : passes (Solving.optimize host callback 20) ⟨⟨world, #[]⟩, m⟩ (fun _ => true) = true)
    (hstatus : (after (Solving.optimize host callback 20)
      ⟨⟨world, #[]⟩, m⟩).model.terminationStatus.toOption = some t) :
    ∃ w, Solving.optimize host callback 20 ⟨⟨world, #[]⟩, m⟩ = .ok () w ∧
      w.model.terminationStatus = .ok t := by
  obtain ⟨_, w, hrun, -⟩ := exists_of_passes (fun _ => true) hreturns
  rw [after_ok hrun] at hstatus
  exact ⟨w, hrun, ok_of_toOption hstatus⟩

theorem Model.Reachable.diverge (hm : m.Reachable) (hexact : host.IsExact) {info : VariableInfo}
    (hvar : m.vars.entries[0]? = some (1, info)) (hsense : m.objectiveSense = .feasibility)
    {q q' : ℚ} {t t' : TerminationStatus}
    (hfirst : ∃ w, Solving.optimize host callback 20 ⟨⟨world, #[]⟩, m.scaled q⟩ = .ok () w ∧
      w.model.terminationStatus = .ok t)
    (hsecond : ∃ w, Solving.optimize host callback 20 ⟨⟨world, #[]⟩, m.scaled q'⟩ = .ok () w ∧
      w.model.terminationStatus = .ok t') :
    Diverge host callback world (m.scaled q) (m.scaled q') t t' :=
  ⟨hexact, hm.scaled hvar q, hm.scaled hvar q', hm.sameButObjective hsense q q', hfirst, hsecond⟩

end

/-- An integer variable between these bounds. -/
def between (l u : ℚ) : Model Extended :=
  (loneInteger.withRow (.greaterThan (rat l))
    (({ coefs := [(1, 1)] } : Row Extended).within (.lower, rat l, top))).withRow
      (.lessThan (rat u)) (({ coefs := [(1, 1)] } : Row Extended).within (.upper, bottom, rat u))

/-- A search between a half and two that is given a second. -/
def hurried : Model Extended := { between (1 / 2) 2 with
    stores := { floored.stores with search := { floored.stores.search with timeLimit := 1000 } } }

/-- It takes a second to answer. -/
def Host.counting : Host Extended ℕ where
  solve r w := (r.program.solveSingle, w + 1)
  now w := rat w

theorem Host.counting_isExact : Host.counting.IsExact :=
  fun _ _ _ hr h => LinearProgram.solveSingle_answers hr h

theorem between_reachable (l u : ℚ) : (between l u).Reachable := by
  have hinfo := loneInteger_get?
  have hfirst := loneInteger_reachable.call (c := fence (.greaterThan (rat l)))
    (by rintro _ ⟨⟩ _ ⟨⟩)
  rw [loneInteger_reachable.sound.named.wf.after_fence (by decide) hinfo rfl rfl rfl] at hfirst
  have hsecond := hfirst.call (c := fence (.lessThan (rat u))) (by rintro _ ⟨⟩ _ ⟨⟩)
  rwa [hfirst.sound.named.wf.after_fence (by decide) hinfo rfl rfl rfl] at hsecond

theorem hurried_reachable : hurried.Reachable :=
  (between_reachable (1 / 2) 2).settings _ _ hurried.stores _ _

/-- It ends a search where that branches. -/
def halting : Callback Extended Unit := fun d => do
  if (← d.reason) = 5 then d.terminate

/-- Solves of feasibility problems with an exact solver end differently when one objective is
unbounded, when it is past the limit of the dual simplex method, when its optimum is at a fraction
that is taken for an integer, when the search for it takes too long, and when that comes to where a
callback ends it. -/
theorem objectives_matter :
    Diverge Host.single none () (roofed.scaled 1) (roofed.scaled 0) .dualInfeasible .optimal ∧
    Diverge Host.single none () (limited.scaled 1) (limited.scaled 0) .objectiveLimit .optimal ∧
    Diverge Host.single none () ((between (200001 / 200000) (3 / 2)).scaled 1)
      ((between (200001 / 200000) (3 / 2)).scaled (-1)) .optimal .infeasible ∧
    Diverge Host.counting none 0 (hurried.scaled 1) (hurried.scaled (-1)) .timeLimit .optimal ∧
    Diverge Host.single (some halting) () ((between (1 / 2) 2).scaled 1)
      ((between (1 / 2) 2).scaled (-1)) .interrupted .optimal := by
  have hroofed : roofed.Reachable := fenced_reachable rfl rfl
  have hnear := between_reachable (200001 / 200000) (3 / 2)
  have hfar := between_reachable (1 / 2) 2
  refine ⟨hroofed.diverge Host.single_isExact rfl rfl ?_ ?_,
    limited_reachable.diverge Host.single_isExact rfl rfl ?_ ?_,
    hnear.diverge Host.single_isExact rfl rfl ?_ ?_,
    hurried_reachable.diverge Host.counting_isExact rfl rfl ?_ ?_,
    hfar.diverge Host.single_isExact rfl rfl ?_ ?_⟩
  all_goals exact exists_solve (by decide +kernel) (by decide +kernel)

end MixedInteger
