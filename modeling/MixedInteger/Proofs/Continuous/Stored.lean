import MixedInteger.Model.Optimize
import MixedInteger.Proofs.Solver.Answers
import MixedInteger.Proofs.Solver.Session
import Mathlib.Tactic.SplitIfs

/-! What continuous methods store. Whatever a solver answers, a method writes one solution to its
problem: a blank one, the one of a problem without columns, or an answer that is no failure, read
back as an optimum. What is true of these is true of all that is stored. Nothing else can be touched:
every algorithm answers with the problem it was given but for the solutions stored beside the
data. -/

namespace MixedInteger

variable {α σ : Type} [Scalar α]

/-- What there is to store when answers that are no failures have a property. -/
inductive Solution.Stored (p : Problem α) (A : Answer α → Prop) : Solution α → Prop
  | blank {status dual : SolutionStatus} (optimal : status ≠ .optimal)
      (feasible : status ≠ .feasible) : Stored p A { status := status, dualStatus := dual }
  | empty (columns : p.columns = []) : Stored p A p.emptySolution
  | optimum {a : Answer α} (answered : A a) : Stored p A (p.optimum p.linearProgram a)
  | basis {a : Answer α} (answered : A a) : Stored p A ((p.optimum p.linearProgram a).withBasis p)

/-- A method never stores a point without calling it an optimum. -/
theorem Solution.Stored.status_ne_feasible {p : Problem α} {A : Answer α → Prop} {s : Solution α}
    (h : s.Stored p A) : s.status ≠ .feasible := by
  cases h with
  | blank _ hfeasible => exact hfeasible
  | empty =>
    unfold Problem.emptySolution
    dsimp only
    split_ifs <;> simp
  | _ => exact fun hnone => nomatch hnone

/-- Answers to a program that are no failures have a property. -/
def Host.Offers (host : Host α σ) (lp : LinearProgram α) (A : Answer α → Prop) : Prop :=
  ∀ r w a, r.program = lp → (host.solve r w).1 = .ok a → a.status ∉ ([1, 2, 3, 4] : List Int) → A a

/-- The method stores one solution, in one place. -/
def Task.Stores (x : Task α σ (Problem α × ReturnCode)) (p : Problem α) (A : Answer α → Prop)
    (write : Problem α → Solution α → Problem α) : Prop :=
  Task.Keeps (fun _ => True) x fun r => ∃ s : Solution α, r.1 = write p s ∧ s.Stored p A

namespace Task.Stores

variable {β : Type} {p : Problem α} {A : Answer α → Prop}
  {write : Problem α → Solution α → Problem α}

theorem after {x : Task α σ β} {f : β → Task α σ (Problem α × ReturnCode)}
    (h : ∀ b, (f b).Stores p A write) : (x >>= f).Stores p A write :=
  (Task.Keeps.any x).bind fun b _ => h b

theorem pure {s : Solution α} {code : ReturnCode} (h : s.Stored p A) :
    (Pure.pure (write p s, code) : Task α σ (Problem α × ReturnCode)).Stores p A write :=
  Task.Keeps.pure ⟨s, rfl, h⟩

theorem blank {code : ReturnCode} :
    (Pure.pure (write p {}, code) : Task α σ (Problem α × ReturnCode)).Stores p A write :=
  pure (.blank (by simp) (by simp))

end Task.Stores

section
variable {host : Host α σ} {p : Problem α} {A : Answer α → Prop}

theorem noOptimum_stores (params : Parameter.Simplex α) (name : String) (unbounded : Bool) :
    (noOptimum (σ := σ) params name p unbounded).Stores p A .withBasic := by
  unfold noOptimum
  split_ifs
  · exact .after fun _ => .blank
  · exact .after fun _ => .blank
  · exact .pure (.blank (by simp) (by simp))
  · exact .after fun _ => .pure (.blank (by simp) (by simp))
  · exact .after fun _ => .pure (.blank (by simp) (by simp))

theorem refuse_stores (params : Parameter.Simplex α) (name : String) (why : Obstacle α) :
    (refuse (σ := σ) params name p why).Stores p A .withBasic := .after fun _ => .blank

variable (hhost : host.Offers p.linearProgram A)
include hhost

theorem solveBasic_stores (params : Parameter.Simplex α) (options : SolverOptions α)
    (name : String) : (solveBasic host params options name p).Stores p A .withBasic := by
  unfold solveBasic
  refine .after fun _ => .after fun _ => ?_
  split_ifs with hempty
  · exact .pure (.empty (List.isEmpty_iff.1 hempty))
  refine .after fun _ => ?_
  refine (Task.Keeps.ask host.keeps_true fun w a ha => hhost _ w a rfl ha).bind fun a ha => ?_
  split_ifs with hlimit _ hfailure hinfeasible hunbounded
  · exact Task.Stores.after fun _ => .blank
  · exact Task.Stores.after fun _ => .blank
  · exact Task.Stores.after fun _ => .blank
  · exact Task.Stores.after fun b => noOptimum_stores params name b
  · exact noOptimum_stores params name true
  · have hstatus := ha (by simp [hlimit, hfailure, hinfeasible, hunbounded])
    exact Task.Stores.after fun _ => .after fun _ => .pure (.basis hstatus)

theorem simplex_stores (params : Parameter.Simplex α) :
    (simplex host params p).Stores p A .withBasic := by
  unfold simplex
  split
  · exact refuse_stores params _ _
  · exact solveBasic_stores hhost params _ _

theorem exact_stores (params : Parameter.Simplex α) :
    (exact host params p).Stores p A .withBasic := by
  rw [exact_eq]
  split_ifs
  · exact .after fun _ => .blank
  split
  · exact refuse_stores params _ _
  · exact solveBasic_stores hhost _ _ _

theorem interior_stores (params : Parameter.Interior) :
    (interior host params p).Stores p A .withInterior := by
  unfold interior
  dsimp only
  split_ifs
  · exact .after fun _ => .blank
  refine .after fun _ => ?_
  refine (Task.Keeps.ask host.keeps_true fun w a ha => hhost _ w a rfl ha).bind fun a ha => ?_
  split_ifs with hlimit hfailure _ hnone
  · exact Task.Stores.blank
  · exact Task.Stores.after fun _ => .blank
  · exact Task.Stores.after fun _ => .blank
  · exact Task.Stores.after fun _ => .pure (.blank (by simp) (by simp))
  · obtain ⟨hinfeasible, hunbounded⟩ := not_or.1 hnone
    have hstatus := ha (by simp [hlimit, hfailure, hinfeasible, hunbounded])
    exact Task.Stores.after fun _ => .pure (.optimum hstatus)

end

/-! ### Rows -/

section
open Extended Finset

variable {p : Problem Extended}

/-- Rows have their activities at the point. -/
theorem Problem.rowPrimal_optimum (hr : ∀ r ∈ p.rows, ∀ e ∈ r.coefs, e.2.IsRat)
    {a : Answer Extended} {x : ℕ → ℚ} (hpoint : a.point = firstValues p.columnCount x) :
    (p.optimum p.linearProgram a).rowPrimal =
      p.rows.map fun r => rat (r.activity p.columnCount x) := by
  change (p.rows.map fun r => r.dense p.columnCount).map (fun row => dot row a.point) = _
  rw [hpoint, List.map_map]
  exact List.map_congr_left fun r hmem => Row.dot_dense _ _ (hr r hmem)

/-- Without columns every row has activity zero. -/
theorem Problem.rowPrimal_emptySolution (hempty : p.columns = []) (x : ℕ → ℚ) :
    p.emptySolution.rowPrimal = p.rows.map fun r => rat (r.activity p.columnCount x) := by
  have hcount : p.columnCount = 0 := by rw [columnCount, hempty]; rfl
  have hactivity : ∀ r : Row Extended, rat (r.activity p.columnCount x) = 0 := by
    intro r
    rw [hcount, Row.activity, range_zero, sum_empty]
    rfl
  simp only [hactivity, List.map_const']
  rfl

end

/-! ### What solving can touch -/

section
variable {β : Type}

/-- The problem without its solutions. -/
def Problem.unsolved (p : Problem α) : Problem α :=
  { p with basic := {}, interior := {}, integer := {} }

namespace Problem

variable (p : Problem α) (s : Solution α)

@[simp] theorem unsolved_withBasic : (p.withBasic s).unsolved = p.unsolved := rfl

@[simp] theorem unsolved_withInterior : (p.withInterior s).unsolved = p.unsolved := rfl

@[simp] theorem unsolved_withInteger : (p.withInteger s).unsolved = p.unsolved := rfl

end Problem

/-- An algorithm that answers with the problem it was given, solutions apart. -/
def Task.Spares (x : Task α σ (Problem α × ReturnCode)) (p : Problem α) : Prop :=
  Task.Keeps (fun _ => True) x fun r => r.1.unsolved = p.unsolved

/-- An algorithm that answers with the problem it was given and a solution written to it. -/
def Task.Writes (x : Task α σ (Problem α × ReturnCode)) (p : Problem α)
    (write : Problem α → Solution α → Problem α) : Prop :=
  Task.Keeps (fun _ => True) x fun r => ∃ s, r.1 = write p s

namespace Task.Writes

variable {p : Problem α} {write : Problem α → Solution α → Problem α}

theorem after {x : Task α σ β} {f : β → Task α σ (Problem α × ReturnCode)}
    (h : ∀ b, (f b).Writes p write) : (x >>= f).Writes p write :=
  (Task.Keeps.any x).bind fun b _ => h b

theorem pure (s : Solution α) (code : ReturnCode) :
    (Pure.pure (write p s, code) : Task α σ (Problem α × ReturnCode)).Writes p write :=
  Task.Keeps.pure ⟨s, rfl⟩

theorem spares {x : Task α σ (Problem α × ReturnCode)} (h : x.Writes p write)
    (hwrite : ∀ s, (write p s).unsolved = p.unsolved) : x.Spares p :=
  Task.Keeps.imp h fun _ ⟨s, hr⟩ => hr ▸ hwrite s

end Task.Writes

theorem Task.Stores.writes {x : Task α σ (Problem α × ReturnCode)} {p : Problem α}
    {A : Answer α → Prop} {write : Problem α → Solution α → Problem α} (h : x.Stores p A write) :
    x.Writes p write := Task.Keeps.imp h fun _ ⟨s, hr, _⟩ => ⟨s, hr⟩

variable (host : Host α σ) (p : Problem α)

/-- Whatever is answered, a method writes one solution. -/
theorem offers_anything : host.Offers p.linearProgram fun _ => True := fun _ _ _ _ _ _ => trivial

theorem simplex_writes (params : Parameter.Simplex α) :
    (simplex host params p).Writes p .withBasic :=
  (simplex_stores (offers_anything host p) params).writes

theorem simplex_spares (params : Parameter.Simplex α) : (simplex host params p).Spares p :=
  (simplex_writes host p params).spares p.unsolved_withBasic

theorem exact_writes (params : Parameter.Simplex α) :
    (exact host params p).Writes p .withBasic :=
  (exact_stores (offers_anything host p) params).writes

theorem exact_spares (params : Parameter.Simplex α) : (exact host params p).Spares p :=
  (exact_writes host p params).spares p.unsolved_withBasic

theorem interior_writes (params : Parameter.Interior) :
    (interior host params p).Writes p .withInterior :=
  (interior_stores (offers_anything host p) params).writes

theorem interior_spares (params : Parameter.Interior) : (interior host params p).Spares p :=
  (interior_writes host p params).spares p.unsolved_withInterior

/-- A search works on a copy of the problem. -/
theorem intopt_writes (c : Search.Company α σ) (params : Parameter.Search α) (fuel : Nat) :
    (intopt c params fuel p).Writes p .withInteger := by
  unfold intopt
  refine .after fun why => ?_
  split
  · exact .after fun _ => .pure _ _
  split
  · exact .after fun _ => .pure _ _
  exact .after fun now => .after fun r => .pure _ _

theorem intopt_spares (c : Search.Company α σ) (params : Parameter.Search α) (fuel : Nat) :
    (intopt c params fuel p).Spares p :=
  (intopt_writes p c params fuel).spares p.unsolved_withInteger

end

end MixedInteger
