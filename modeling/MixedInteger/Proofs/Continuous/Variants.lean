import MixedInteger.Continuous.Simplex
import MixedInteger.Proofs.Number.DoubleParts
import MixedInteger.Proofs.Solver.Session

/-! Variants of the simplex method, on doubles. A variant has a part in the code only, and there
only in what is made of a limit of the objective. No limit is the largest double and not infinity,
so it still is a limit: without any the dual variants come to what the primal one comes to, except
that a minimised problem without a feasible point ends at the limit, and that an objective does
that is infinite for the worse. -/

namespace MixedInteger

variable {σ β γ δ : Type}

/-! ### Outcomes -/

namespace Task

variable {α : Type}

/-- The answer or the fault, and the world. What was reported on the way is left out. -/
def outcome (x : Task α σ β) (s : Session α σ) : Except (Fault α) β × σ :=
  match x s with
  | .ok b s' => (.ok b, s'.world)
  | .error e s' => (.error e, s'.world)

/-- The outcomes of `y` are those of `x`, with `f` for the answer. -/
def Turns (f : β → γ) (x : Task α σ β) (y : Task α σ γ) : Prop :=
  ∀ s, y.outcome s = ((x.outcome s).1.map f, (x.outcome s).2)

namespace Turns

variable {f : β → γ} {b : β} {c : γ}

theorem pure (h : f b = c) : Turns (σ := σ) (α := α) f (Pure.pure b) (Pure.pure c) := by
  subst h
  exact fun _ => rfl

/-- Both begin alike. -/
theorem next {x : Task α σ δ} {y : δ → Task α σ β} {z : δ → Task α σ γ}
    (h : ∀ d, Turns f (y d) (z d)) : Turns f (x >>= y) (x >>= z) := by
  intro s
  unfold outcome
  rw [bind_run, bind_run]
  cases x s with
  | ok d s' => exact h d s'
  | error e s' => rfl

theorem ite {p : Prop} [Decidable p] {x x' : Task α σ β} {y y' : Task α σ γ} (hx : Turns f x y)
    (hx' : Turns f x' y') : Turns f (if p then x else x') (if p then y else y') := by
  split_ifs
  · exact hx
  · exact hx'

/-- It does not count that only one of the two reports something. -/
theorem told (least level : Int) (n : Notice α) (h : f b = c) : Turns (σ := σ) f
    (do Task.tellAt least level n; Pure.pure b) (Pure.pure c) := by
  subst h
  unfold Task.tellAt
  split_ifs <;> exact fun _ => rfl

end Turns

end Task

/-! ### Methods without a limit -/

/-- The code of the dual method for an objective past its limit. -/
def Direction.limitCode : Direction → ReturnCode
  | .maximize => .objectiveLower
  | .minimize => .objectiveUpper

/-- What an objective is at worst. -/
def Direction.worst : Direction → Float
  | .maximize => -Scalar.infinity
  | .minimize => Scalar.infinity

/-- A method without a limit of the objective; all else is as before. -/
def Parameter.Simplex.variant (s : Parameter.Simplex Float) (method : Int) :
    Parameter.Simplex Float :=
  { s with
    method := method
    objectiveLower := -Scalar.largest
    objectiveUpper := Scalar.largest }

/-- What another method comes to where the primal one comes to `r`. Only a dual method comes to
anything else, and only where the primal one comes to its end with columns: without a feasible
point, when the objective is minimised, and with an objective that is infinite for the worse. -/
def Problem.beside (p : Problem Float) (dual : Bool) (r : Problem Float × ReturnCode) :
    Problem Float × ReturnCode :=
  if dual = false ∨ p.columns = [] ∨ r.2 ≠ .done then r
  else match r.1.basic.status with
    | .noFeasible =>
      if p.direction = .minimize then
        (p.withBasic { status := .infeasible, dualStatus := .feasible }, .objectiveUpper)
      else r
    | .optimal =>
      if r.1.basic.objective == p.direction.worst then (r.1, p.direction.limitCode) else r
    | _ => r

section
variable {host : Host Float σ} {params : Parameter.Simplex Float} {p : Problem Float} {method : Int}

open Parameter.Simplex

theorem objectiveLimit_variant (x : Float) : objectiveLimit (params.variant method) p x =
    if (params.variant method).isDual = true ∧ (x == p.direction.worst) = true then
      p.direction.limitCode else .done := by
  have hlower : x < (params.variant method).objectiveLower ↔ (x == -Scalar.infinity) = true :=
    DoubleParts.lt_neg_largest_iff
  have hupper : (params.variant method).objectiveUpper < x ↔ (x == Scalar.infinity) = true :=
    DoubleParts.largest_lt_iff
  unfold objectiveLimit
  simp only [hlower, hupper]
  cases (params.variant method).isDual <;> cases p.direction <;>
    simp [Direction.worst, Direction.limitCode]

theorem beside_of_ne_done {dual : Bool} {r : Problem Float × ReturnCode} (h : r.2 ≠ .done) :
    p.beside dual r = r := if_pos (.inr (.inr h))

theorem beside_noFeasible (dual : Bool) (hcolumns : p.columns ≠ []) :
    p.beside dual (p.withBasic { status := .noFeasible }, .done) =
      if dual = true ∧ p.direction = .minimize then
        (p.withBasic { status := .infeasible, dualStatus := .feasible }, .objectiveUpper)
      else (p.withBasic { status := .noFeasible }, .done) := by
  unfold Problem.beside Problem.withBasic
  cases dual <;> simp [hcolumns]

theorem beside_unbounded {dual : Bool} :
    p.beside dual (p.withBasic { status := .unbounded, dualStatus := .noFeasible }, .done) =
      (p.withBasic { status := .unbounded, dualStatus := .noFeasible }, .done) := by
  unfold Problem.beside Problem.withBasic
  simp

theorem beside_optimal {dual : Bool} {b : Solution Float} (hcolumns : p.columns ≠ [])
    (hb : b.status = .optimal) : p.beside dual (p.withBasic b, .done) =
      (p.withBasic b, if dual = true ∧ (b.objective == p.direction.worst) = true then
        p.direction.limitCode else .done) := by
  unfold Problem.beside Problem.withBasic
  cases dual with
  | false => simp
  | true =>
    simp only [hcolumns, hb, Bool.true_eq_false, ne_eq, not_true_eq_false, or_self, if_false,
      true_and]
    split_ifs <;> rfl

theorem noOptimum_turns (hcolumns : p.columns ≠ []) (name : String) (unbounded : Bool) :
    Task.Turns (σ := σ) (p.beside (params.variant method).isDual)
      (noOptimum (params.variant 1) name p unbounded)
      (noOptimum (params.variant method) name p unbounded) := by
  have hprimal : (!unbounded && (params.variant 1).isDual && decide (p.direction ≠ .maximize) &&
      decide ((params.variant 1).objectiveUpper < Scalar.infinity)) = false := by
    simp [isDual, variant]
  have hlimit : (params.variant method).objectiveUpper < Scalar.infinity :=
    OrderedScalar.largest_lt
  unfold noOptimum
  refine .ite (.next fun _ => .pure (beside_of_ne_done ?_)) ?_
  · cases unbounded <;> simp
  rw [hprimal, if_neg Bool.false_ne_true]
  cases unbounded with
  | true => exact .next fun _ => .pure beside_unbounded
  | false =>
    have hturned := beside_noFeasible (params.variant method).isDual hcolumns
    have hminimize : p.direction ≠ .maximize ↔ p.direction = .minimize := by
      cases p.direction <;> simp
    simp only [Bool.not_false, Bool.true_and, hlimit, decide_true, Bool.and_true,
      Bool.and_eq_true, decide_eq_true_eq, hminimize, Bool.false_eq_true, if_false]
    split_ifs with hdual
    · exact .told _ _ _ (hturned.trans (if_pos hdual))
    · exact .next fun _ => .pure (hturned.trans (if_neg hdual))

theorem solveBasic_turns (params : Parameter.Simplex Float) (options : SolverOptions Float)
    (name : String) :
    Task.Turns (p.beside (params.variant method).isDual)
      (solveBasic host (params.variant 1) options name p)
      (solveBasic host (params.variant method) options name p) := by
  have hstops : ∀ (least level : Int) (n : Notice Float) {code : ReturnCode}, code ≠ .done →
      Task.Turns (σ := σ) (p.beside (params.variant method).isDual)
        (do Task.tellAt least level n; return (p.withBasic {}, code))
        (do Task.tellAt least level n; return (p.withBasic {}, code)) :=
    fun _ _ _ _ h => .next fun _ => .pure (beside_of_ne_done h)
  unfold solveBasic
  refine .next fun start => .next fun _ => ?_
  split_ifs with hempty
  · exact .pure (if_pos (.inr (.inl (List.isEmpty_iff.1 hempty))))
  have hcolumns : p.columns ≠ [] := fun h => hempty (List.isEmpty_iff.2 h)
  refine .next fun options => .next fun a => ?_
  refine .ite (.ite (hstops _ _ _ (by simp)) (hstops _ _ _ (by simp)))
    (.ite (hstops _ _ _ (by simp)) (.ite ?_ (.ite ?_ ?_)))
  · exact .next fun b => noOptimum_turns hcolumns name b
  · exact noOptimum_turns hcolumns name true
  · refine .next fun now => .next fun _ => .pure ?_
    have hprimal : (params.variant 1).isDual = false := rfl
    rw [objectiveLimit_variant, objectiveLimit_variant, hprimal, if_neg (by simp)]
    exact beside_optimal hcolumns rfl

theorem refuse_turns (name : String) (why : Obstacle Float) :
    Task.Turns (σ := σ) (p.beside (params.variant method).isDual)
      (refuse (params.variant 1) name p why) (refuse (params.variant method) name p why) :=
  .next fun _ => .pure (beside_of_ne_done (by simp))

theorem simplex_turns : Task.Turns (p.beside (params.variant method).isDual)
    (simplex host (params.variant 1) p) (simplex host (params.variant method) p) := by
  unfold simplex
  cases p.badBounds with
  | some why => exact refuse_turns "simplex" why
  | none => exact solveBasic_turns params _ "simplex"

theorem exact_turns : Task.Turns (p.beside (params.variant method).isDual)
    (exact host (params.variant 1) p) (exact host (params.variant method) p) := by
  rw [exact_eq, exact_eq]
  refine .ite (.next fun _ => .pure (beside_of_ne_done (by simp))) ?_
  cases p.badBounds with
  | some why => exact refuse_turns "exact" why
  | none => exact solveBasic_turns { params with presolve := 0 } _ "exact"

end

/-- Without a limit of the objective, whatever the solver answers and however it fails: all methods
ask the same and come to the same outcome, up to the two cases of `Problem.beside`. -/
theorem variants_outcome (host : Host Float σ) (params : Parameter.Simplex Float)
    (p : Problem Float) (method : Int) (s : Session Float σ) :
    ∀ run ∈ [simplex host, exact host],
      let primal := (run (params.variant 1) p).outcome s
      (run (params.variant method) p).outcome s =
        (primal.1.map (p.beside (params.variant method).isDual), primal.2) := by
  intro run hrun
  obtain rfl | rfl : run = simplex host ∨ run = exact host := by simpa using hrun
  · exact simplex_turns s
  · exact exact_turns s

/-- A host that finds no optimum anywhere. -/
def Host.barren : Host Float σ := .steady
  { status := 2, point := [], value := 0, ubMarginals := [], eqMarginals := [], lowerMarginals := []
    upperMarginals := [] }

/-- To minimise with a free column, when nothing is an optimum: the dual method ends as the other
one does but for its limit. -/
theorem variants_outcome_barren :
    let p : Problem Float := { columns := [{}] }
    let primal := (simplex (Host.barren (σ := Unit)) (Parameter.Simplex.variant {} 1) p).outcome
      ⟨(), #[]⟩
    (simplex Host.barren (Parameter.Simplex.variant {} 3) p).outcome ⟨(), #[]⟩ =
      (primal.1.map (p.beside true), primal.2) :=
  variants_outcome .barren {} { columns := [{}] } 3 ⟨(), #[]⟩ (simplex .barren) List.mem_cons_self

/-- Without a limit of the objective, on finite answers, the method still has a part in the outcome:
nothing but a free column is minimised, and the dual method ends at the limit. -/
theorem not_forall_variants_agree : ¬∀ (host : Host Float Unit) (params : Parameter.Simplex Float)
    (p : Problem Float) (s : Session Float Unit),
    (∀ r w a, (host.solve r w).1 = .ok a → Scalar.isFinite a.value = true) →
      (simplex host (params.variant 3) p).outcome s =
        (simplex host (params.variant 1) p).outcome s := by
  intro hall
  let p : Problem Float := { columns := [{}] }
  let code (method : Int) : Option ReturnCode := ((simplex Host.barren
    (({} : Parameter.Simplex Float).variant method) p).outcome ⟨(), #[]⟩).1.toOption.map (·.2)
  have hdual : code 3 = some .objectiveUpper := by decide +kernel
  have hprimal : code 1 = some .done := by decide +kernel
  have hsame : code 3 = code 1 := congrArg (fun o => o.1.toOption.map (·.2))
    (hall .barren {} p ⟨(), #[]⟩ (by rintro _ _ _ ⟨⟩; decide))
  rw [hdual, hprimal] at hsame
  cases hsame

end MixedInteger
