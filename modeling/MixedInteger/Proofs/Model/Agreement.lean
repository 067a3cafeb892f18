import MixedInteger.Model.Result
import MixedInteger.Proofs.Continuous.Recession
import MixedInteger.Proofs.Model.Certificates
import MixedInteger.Proofs.Model.Instruction
import MixedInteger.Proofs.Model.Solve

/-! The three continuous methods on one model. With an exact solver each of them comes to its
end, and the model then says what is true of its relaxation. The simplex and exact methods say
the same. The interior method says it too, except that it calls a problem without a bound
infeasible. -/

namespace MixedInteger

open Extended

variable {σ : Type}

/-! ### What a model says -/

/-- The termination status of a finding. -/
def Finding.termination : Finding → TerminationStatus
  | optimal _ => .optimal
  | infeasible => .infeasible
  | unbounded => .dualInfeasible

/-- What a method makes known of a finding. -/
def Method.reported : Method → Finding → Finding
  | .interior => Finding.blurred
  | _ => id

namespace Model

variable (m : Model Extended)

/-- The model with this method. -/
def under (method : Method) : Model Extended := { m with method := method }

/-- A model with columns and rows but without integer variables, whose data are rational and
whose bounds are not crossed. Presolving is off, and the simplex method is the primal one, as it
is unless something else is set. -/
structure Continuous : Prop where
  unmixed : ¬m.IsMixed
  columns : m.problem.columns ≠ []
  rows : m.problem.rows ≠ []
  rational : m.problem.Rational
  uncrossed : m.problem.badBounds = none
  presolve : m.stores.simplex.presolve = 0
  primal : m.stores.simplex.isDual = false

/-- A solve without a search came to its end and stored the finding. -/
structure Tells (f : Finding) : Prop where
  called : m.last.called = true
  bySearch : m.last.bySearch = false
  code : m.last.code = .done
  solution : m.solution.Tells f

variable {m} {f : Finding}

theorem Continuous.under (h : m.Continuous) (method : Method) : (m.under method).Continuous :=
  ⟨h.unmixed, h.columns, h.rows, h.rational, h.uncrossed, h.presolve, h.primal⟩

theorem Tells.terminationStatus (h : m.Tells f) : m.terminationStatus = .ok f.termination := by
  unfold Model.terminationStatus verdict solutionVerdict
  rw [h.called, h.code, h.solution.status]
  cases f <;> rfl

end Model

/-! ### The whole solve -/

theorem Problem.Rational.place {m : Model Extended} (hp : m.problem.Rational)
    (s : Solution Extended) : (m.place s).Rational := by
  unfold Model.place
  cases m.method <;> exact ⟨hp.constant, hp.cost, hp.proper, hp.whole, hp.rows⟩

namespace Solving

variable {host : Host Extended σ} (hexact : host.IsExact) (hdecides : host.Decides)
  {w : Workbench Extended σ}

include hexact hdecides in
theorem attempt_returns {m : Model Extended} (h : m.Continuous) :
    Task.Returns (m.attempt host) fun r => ∃ b, r.1 = m.place b ∧ r.2 = .done ∧
      ∃ f, m.problem.Admits f ∧ b.Tells (m.method.reported f) := by
  have hp := h.rational
  unfold Model.attempt Model.place
  cases m.method with
  | simplex =>
    refine (simplex_returns hexact hdecides hp h.uncrossed h.presolve h.primal).imp ?_
    rintro _ ⟨s, f, rfl, hadmits, htells⟩
    exact ⟨s, rfl, rfl, f, hadmits, htells⟩
  | exact =>
    refine (exact_returns hexact hdecides hp h.columns h.rows h.uncrossed h.primal).imp ?_
    rintro _ ⟨s, f, rfl, hadmits, htells⟩
    exact ⟨s, rfl, rfl, f, hadmits, htells⟩
  | interior =>
    refine (interior_returns hexact hdecides hp h.columns h.rows _).imp ?_
    rintro _ ⟨s, f, rfl, hadmits, htells⟩
    exact ⟨s, rfl, rfl, f, hadmits, htells⟩

include hexact hdecides in
/-- A solve comes to its end, and the model says what is true of its relaxation, as far as the
method makes it known. -/
theorem optimize_returns (callback : Option (Callback Extended σ)) (fuel : ℕ)
    (h : w.model.Continuous) :
    Runs (optimize host callback fuel) w (fun _ w' => ∃ f, w.model.problem.Admits f ∧
      w'.model.Tells (w.model.method.reported f)) fun _ => False := by
  refine (optimize_settles h.unmixed (S := fun code b => code = .done ∧
    ∃ f, w.model.problem.Admits f ∧ b.Tells (w.model.method.reported f))
    (attempt_returns hexact hdecides h)
    (fun _ b _ _ => unboundedRay_returns hexact hdecides (h.rational.place b).linear)
    fun _ b _ _ => infeasibilityRay_returns hexact hdecides (h.rational.place b)).imp ?_
  rintro _ w' ⟨code, b, ray, certificate, seconds, ⟨rfl, f, hadmits, htells⟩, -, -, hw'⟩
  rw [hw']
  refine ⟨f, hadmits, rfl, rfl, rfl, ?_⟩
  rw [Model.settled, Model.solution_place b rfl]
  exact htells

include hexact hdecides in
theorem exists_optimize {m : Model Extended} (hm : m.Continuous) (method : Method)
    (callback : Option (Callback Extended σ)) (fuel : ℕ) (s : Session Extended σ) :
    ∃ w f, optimize host callback fuel ⟨s, m.under method⟩ = .ok () w ∧ m.problem.Admits f ∧
      w.model.Tells (method.reported f) := by
  have hrun := optimize_returns hexact hdecides (w := ⟨s, m.under method⟩) callback fuel
    (hm.under method)
  unfold Runs at hrun
  cases hw : optimize host callback fuel ⟨s, m.under method⟩ with
  | ok b w =>
    rw [hw] at hrun
    obtain ⟨f, hadmits, htells⟩ := hrun
    exact ⟨w, f, rfl, hadmits, htells⟩
  | error e w =>
    rw [hw] at hrun
    exact hrun.elim

end Solving

/-! ### The three methods -/

/-- With an exact solver, and whatever the sessions they start in, the three methods come to their
end with what is true of the relaxation. The simplex and exact methods always say the same. The
interior method says it too, unless the objective has no bound: it then calls the problem
infeasible, as it does a problem without a point. An optimum has the same value for all three. -/
theorem optimize_agrees {host : Host Extended σ} (hexact : host.IsExact) (hdecides : host.Decides)
    {m : Model Extended} (hm : m.Continuous) (callback : Option (Callback Extended σ)) (fuel : ℕ)
    (s₁ s₂ s₃ : Session Extended σ) :
    ∃ w₁ w₂ w₃ f, m.problem.Admits f ∧
      Solving.optimize host callback fuel ⟨s₁, m.under .simplex⟩ = .ok () w₁ ∧
      Solving.optimize host callback fuel ⟨s₂, m.under .exact⟩ = .ok () w₂ ∧
      Solving.optimize host callback fuel ⟨s₃, m.under .interior⟩ = .ok () w₃ ∧
      w₁.model.terminationStatus = .ok f.termination ∧
      w₂.model.terminationStatus = .ok f.termination ∧
      w₃.model.terminationStatus = .ok f.blurred.termination ∧
      ∀ v, f = .optimal v → w₁.model.objectiveValue = rat v ∧
        w₂.model.objectiveValue = rat v ∧ w₃.model.objectiveValue = rat v := by
  obtain ⟨w₁, f, hrun₁, hadmits, h₁⟩ :=
    Solving.exists_optimize hexact hdecides hm .simplex callback fuel s₁
  obtain ⟨w₂, f₂, hrun₂, hadmits₂, h₂⟩ :=
    Solving.exists_optimize hexact hdecides hm .exact callback fuel s₂
  obtain ⟨w₃, f₃, hrun₃, hadmits₃, h₃⟩ :=
    Solving.exists_optimize hexact hdecides hm .interior callback fuel s₃
  obtain rfl := hadmits.unique hadmits₂
  obtain rfl := hadmits.unique hadmits₃
  refine ⟨w₁, w₂, w₃, f, hadmits, hrun₁, hrun₂, hrun₃, h₁.terminationStatus,
    h₂.terminationStatus, h₃.terminationStatus, ?_⟩
  rintro v rfl
  exact ⟨h₁.solution.objective v rfl, h₂.solution.objective v rfl, h₃.solution.objective v rfl⟩

/-! ### A variable with bounds and with one row -/

section
variable {α : Type} [Scalar α] {m : Model α} {info : VariableInfo} {s : ScalarSet α}

/-- The first variable is kept to a set by a row. -/
def fence (s : ScalarSet α) : Call α :=
  .edit (.addConstraint (.affine ⟨[⟨1, ⟨1⟩⟩], 0⟩) (.set s))

/-- The row comes to a model in which the variable is live. -/
theorem Model.WellFormed.after_fence [LawfulScalar α] (hm : m.WellFormed)
    (hone : ((1 : α) == 0) = false) (hinfo : m.vars.get? 1 = some info) (hnumber : info.column = 1)
    (hs : s.isRow = true) {b : BoundKind × α × α} (hb : s.rowBound? = some b) :
    Call.after m (fence s) = m.withRow s (({ coefs := [(1, 1)] } : Row α).within b) := by
  have hterms : (⟨[⟨1, ⟨1⟩⟩], 0⟩ : AffineFunction α).canonical.terms = [⟨1, ⟨1⟩⟩] :=
    AffineFunction.canonical_single hone ⟨1⟩ 0
  have hlive : m.firstDead (⟨[⟨1, ⟨1⟩⟩], 0⟩ : AffineFunction α).canonical.terms = none := by
    rw [hterms]
    simp [Model.firstDead, hinfo]
  have hcoefs : m.coefsOf ⟨[⟨1, ⟨1⟩⟩], 0⟩ = [(1, 1)] := by
    rw [Model.coefsOf, hterms]
    simp [hinfo, hnumber]
  have hrun := Modelling.addAffineConstraint_run hm (f := ⟨[⟨1, ⟨1⟩⟩], 0⟩)
    OrderedScalar.zero_beq hlive hb
  have hadd : Modelling.addConstraint (.affine ⟨[⟨1, ⟨1⟩⟩], 0⟩) (.set s) =
      Modelling.addAffineConstraint (α := α) ⟨[⟨1, ⟨1⟩⟩], 0⟩ s := by
    simp only [Modelling.addConstraint, hs, if_true]
  rw [hcoefs, ← hadd] at hrun
  exact (after_return (Modelling.addConstraint (.affine ⟨[⟨1, ⟨1⟩⟩], 0⟩) (.set s))
    Reply.newConstraint).trans (after_ok hrun)

/-- The model, with one variable. -/
def Model.solo (m : Model α) (info : VariableInfo) (c : Column α) : Model α :=
  { m with
    vars := { m.vars with entries := [(1, info)] }, problem := { m.problem with columns := [c] } }

/-- The only variable is given a bound that is not refused. -/
theorem Model.WellFormed.after_addBound (hm : m.WellFormed) {c : Column α}
    (hvars : m.vars.entries = [(1, info)]) (hcolumns : m.problem.columns = [c])
    (hindex : info.index = ⟨1⟩) (hnumber : info.column = 1) {b : BoundState}
    (hb : info.addBound s.kind = .ok b) (hrefuses : m.problem.refusesChange c s.change = false) :
    Call.after m (.edit (.addConstraint (.single ⟨1⟩) (.set s))) =
      m.solo { info with bound := b } (c.rebound s.change) := by
  have hentry : m.vars.entries[0]? = some (1, info) := by rw [hvars]; rfl
  have hat : m.VariableAt 0 1 info c := ⟨hentry, by rw [hcolumns]; rfl, hindex, hnumber⟩
  have hadd : Modelling.addConstraint (.single ⟨1⟩) (.set s) =
      Modelling.addBoundConstraint (α := α) ⟨1⟩ s := by
    cases s <;> first | rfl | cases hb
  have hrun := hm.addBoundConstraint_eq hat hb
  rw [hrefuses, if_neg Bool.false_ne_true, Model.withColumn, Model.withVariable,
    hm.vars.modify_of_getElem hentry, hvars] at hrun
  dsimp only at hrun
  rw [hcolumns] at hrun
  exact (after_return (Modelling.addConstraint _ _) Reply.newConstraint).trans
    (hadd ▸ after_ok hrun)

end

/-- What comes of a row for the variable of `falling`. -/
def fenced (s : ScalarSet Extended) (b : BoundKind × Extended × Extended) : Model Extended :=
  falling.withRow s (({ coefs := [(1, 1)] } : Row Extended).within b)

section
variable {s : ScalarSet Extended} {b : BoundKind × Extended × Extended}

theorem after_fence (hs : s.isRow = true) (hb : s.rowBound? = some b) :
    Call.after falling (fence s) = fenced s b := by
  have hm := falling_reachable.sound.named.wf
  have hinfo : falling.vars.get? 1 = some { index := ⟨1⟩, column := 1 } :=
    hm.vars.get?_of_getElem (i := 0) rfl
  exact hm.after_fence (by decide) hinfo rfl hs hb

theorem fenced_attained (hs : s.isRow = true) (hb : s.rowBound? = some b) :
    (fenced s b).Attained := by
  have hfalling : falling.Attained := by
    rw [← afterAll_fallingCalls]
    exact ((Model.Attained.emptied ({} : Model Extended)).call (.edit (.addVariables 1))).call
      (.edit (.setObjective (.single ⟨1⟩)))
  rw [← after_fence hs hb]
  exact hfalling.call _

theorem falling_columns : falling.problem.columns = [{ cost := 1 }] := by
  have hcost : (⟨[⟨1, ⟨1⟩⟩], 0⟩ : AffineFunction Extended).coefficient ⟨1⟩ = 1 := by
    simp [AffineFunction.coefficient, Scalar.sum, one_eq, zero_eq]
  have hcolumns : falling.problem.columns =
      [{ cost := (⟨[⟨1, ⟨1⟩⟩], 0⟩ : AffineFunction Extended).coefficient ⟨1⟩ }] := rfl
  rw [hcolumns, hcost]

theorem fenced_columns : (fenced s b).problem.columns = [{ cost := 1 }] := falling_columns

/-- A half-line as the bounds of a row. -/
def IsHalfLine (b : BoundKind × Extended × Extended) : Prop :=
  ∃ q : ℚ, b = (.lower, rat q, top) ∨ b = (.upper, bottom, rat q)

theorem fenced_continuous (h : IsHalfLine b) : (fenced s b).Continuous := by
  have hcolumn : ∀ {P : Column Extended → Prop}, P { cost := 1 } →
      ∀ c ∈ (fenced s b).problem.columns, P c := by
    intro P hP c hc
    rw [fenced_columns, List.mem_singleton] at hc
    exact hc ▸ hP
  have hrow : ∀ {P : Row Extended → Prop}, P (({ coefs := [(1, 1)] } : Row Extended).within b) →
      ∀ r ∈ (fenced s b).problem.rows, P r := fun hP r hr => List.mem_singleton.1 hr ▸ hP
  have hcoefs : ∀ e ∈ [((1 : ℕ), (1 : Extended))], e.2.IsRat := by
    simp only [List.mem_singleton, forall_eq]
    rfl
  refine
    { unmixed := not_or.2 ⟨lt_irrefl 0, lt_irrefl 0⟩
      columns := by rw [fenced_columns]; simp
      rows := List.cons_ne_nil _ _
      rational :=
        { constant := rfl
          cost := hcolumn rfl
          proper := hcolumn ⟨.inl rfl, .inl rfl⟩
          whole := hcolumn fun hk => nomatch hk
          rows := hrow ?_ }
      uncrossed := ?_
      presolve := rfl
      primal := rfl }
  · obtain ⟨q, rfl | rfl⟩ := h
    · exact ⟨hcoefs, rfl, fun _ => rfl, (fun hb => nomatch hb)⟩
    · exact ⟨hcoefs, rfl, (fun hb => nomatch hb), fun _ => rfl⟩
  · obtain ⟨q, rfl | rfl⟩ := h
    · rfl
    · rfl

theorem fenced_valueOf (x : ℕ → ℚ) : (fenced s b).problem.valueOf x = x 0 := by
  have hcost : (fenced s b).problem.costAt 0 = 1 := by
    rw [Problem.costAt, fenced_columns]
    rfl
  have hconstant : (fenced s b).problem.constant.value = 0 := rfl
  rw [Problem.valueOf, Problem.columnCount, fenced_columns, List.length_singleton,
    Finset.sum_range_one, hcost, hconstant, zero_add, one_mul]

theorem fenced_sign : (fenced s b).problem.sign = 1 := rfl

theorem fenced_relaxed {x : ℕ → ℚ} :
    (fenced s b).problem.Relaxed x ↔ b.2.1 ≤ rat (x 0) ∧ rat (x 0) ≤ b.2.2 := by
  have hactivity : (({ coefs := [(1, 1)] } : Row Extended).within b).activity 1 x = x 0 := by
    rw [Row.activity, Finset.sum_range_one]
    exact one_mul _
  have hcount : (fenced s b).problem.columnCount = 1 := by
    rw [Problem.columnCount, fenced_columns]
    rfl
  constructor
  · intro h
    have hrow := h.holds _ (List.mem_singleton_self _)
    rwa [hcount, Row.Holds, hactivity] at hrow
  · intro h
    refine ⟨fun {j c} hc => ?_, fun r hr => ?_⟩
    · rw [fenced_columns] at hc
      cases List.mem_singleton.1 (List.mem_of_getElem? hc)
      exact ⟨bottom_le_rat _, rat_le_top _⟩
    · cases List.mem_singleton.1 hr
      rwa [hcount, Row.Holds, hactivity]
end

/-- At least three. -/
def floored : Model Extended := fenced (.greaterThan (rat 3)) (.lower, rat 3, top)

/-- At most three. -/
def roofed : Model Extended := fenced (.lessThan (rat 3)) (.upper, bottom, rat 3)

theorem floored_admits : floored.problem.Admits (.optimal 3) := by
  have hthree : floored.problem.Relaxed fun _ => 3 :=
    fenced_relaxed.2 ⟨(rat_le_rat _ _).2 le_rfl, rat_le_top _⟩
  refine ⟨fun _ => 3, ⟨hthree, fun y hy => ?_⟩, fenced_valueOf _⟩
  have hle := (rat_le_rat _ _).1 (fenced_relaxed.1 hy).1
  rw [floored, fenced_sign, fenced_valueOf, fenced_valueOf, one_mul, one_mul]
  exact hle

theorem roofed_admits : roofed.problem.Admits .unbounded := by
  intro v
  refine ⟨fun _ => 3 ⊓ (v - 1), fenced_relaxed.2 ⟨bottom_le_rat _, (rat_le_rat _ _).2 inf_le_left⟩, ?_⟩
  rw [roofed, fenced_sign, fenced_valueOf, one_mul]
  exact inf_le_right.trans_lt (sub_one_lt v)

theorem floored_continuous : floored.Continuous := fenced_continuous ⟨3, .inl rfl⟩

theorem roofed_continuous : roofed.Continuous := fenced_continuous ⟨3, .inr rfl⟩

/-- The least value from three on is three, by all methods. -/
theorem optimize_agrees_floored : ∃ w₁ w₂ w₃,
    Solving.optimize Host.eliminating none 20 ⟨⟨(), #[]⟩, floored.under .simplex⟩ = .ok () w₁ ∧
    Solving.optimize Host.eliminating none 20 ⟨⟨(), #[]⟩, floored.under .exact⟩ = .ok () w₂ ∧
    Solving.optimize Host.eliminating none 20 ⟨⟨(), #[]⟩, floored.under .interior⟩ = .ok () w₃ ∧
    w₁.model.terminationStatus = .ok .optimal ∧ w₂.model.terminationStatus = .ok .optimal ∧
    w₃.model.terminationStatus = .ok .optimal ∧ w₁.model.objectiveValue = rat 3 ∧
    w₂.model.objectiveValue = rat 3 ∧ w₃.model.objectiveValue = rat 3 := by
  obtain ⟨w₁, w₂, w₃, f, hadmits, hrun₁, hrun₂, hrun₃, ht₁, ht₂, ht₃, hvalues⟩ :=
    optimize_agrees Host.eliminating_isExact Host.eliminating_decides floored_continuous none 20
      ⟨(), #[]⟩ ⟨(), #[]⟩ ⟨(), #[]⟩
  obtain rfl := hadmits.unique floored_admits
  exact ⟨w₁, w₂, w₃, hrun₁, hrun₂, hrun₃, ht₁, ht₂, ht₃, hvalues 3 rfl⟩

/-- Not every model has the same termination status under all methods. -/
theorem not_forall_methods_agree : ¬∀ (host : Host Extended Unit) (m : Model Extended)
    (method₁ method₂ : Method) (s : Session Extended Unit) (w₁ w₂ : Workbench Extended Unit),
    host.IsExact → host.Decides → m.Attained → m.Continuous →
      Solving.optimize host none 20 ⟨s, m.under method₁⟩ = .ok () w₁ →
      Solving.optimize host none 20 ⟨s, m.under method₂⟩ = .ok () w₂ →
      w₁.model.terminationStatus = w₂.model.terminationStatus := by
  intro hagree
  obtain ⟨w₁, f₁, hrun₁, hadmits₁, h₁⟩ := Solving.exists_optimize Host.eliminating_isExact
    Host.eliminating_decides roofed_continuous .simplex none 20 ⟨(), #[]⟩
  obtain ⟨w₂, f₂, hrun₂, hadmits₂, h₂⟩ := Solving.exists_optimize Host.eliminating_isExact
    Host.eliminating_decides roofed_continuous .interior none 20 ⟨(), #[]⟩
  obtain rfl := hadmits₁.unique roofed_admits
  obtain rfl := hadmits₂.unique roofed_admits
  have hsame := hagree Host.eliminating roofed .simplex .interior ⟨(), #[]⟩ w₁ w₂
    Host.eliminating_isExact Host.eliminating_decides (fenced_attained rfl rfl) roofed_continuous
    hrun₁ hrun₂
  rw [h₁.terminationStatus, h₂.terminationStatus] at hsame
  cases hsame

end MixedInteger
