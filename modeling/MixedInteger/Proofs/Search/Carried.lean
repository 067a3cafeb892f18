import MixedInteger.Continuous.Simplex
import MixedInteger.Proofs.Number.Valued
import MixedInteger.Proofs.Search.Lattice
import MixedInteger.Proofs.Search.Whole
import MixedInteger.Proofs.Solver.Session

/-! The bounds that the working problem carries. A problem carries the bounds of a node when its
integer columns have bounds of the same values. Taking a node in hand gives the working problem
the bounds of that node, whatever node was in hand before. Of the solver it is known that every
question is answered, and that a point that is answered keeps to the bounds that were passed for
the columns; whether it satisfies any row, and what it is worth, is left open. The simplex method
then returns, and the point of an optimum that it stores keeps to the bounds of the columns.
Rounding the integer columns of such a point never fails, and the columns that are listed as
fractional have values strictly between two integers within the bounds. -/

namespace MixedInteger

/-! ### A solver that keeps to bounds -/

section

open Scalar

variable {α σ : Type} [Scalar α]

/-- The point of an answer keeps to the bounds of a program. -/
def Answer.Within (a : Answer α) (lp : LinearProgram α) : Prop :=
  ∀ (j : ℕ) (b : Option α × Option α), lp.bounds[j]? = some b →
    ∃ x, a.point[j]? = some x ∧ (∀ l ∈ b.1, l ≤ x) ∧ ∀ u ∈ b.2, x ≤ u

/-- Every question is answered. The statuses one to four come without a point; the point of any
other answer keeps to the bounds. -/
def Host.KeepsBounds (host : Host α σ) : Prop :=
  ∀ r w, ∃ a, (host.solve r w).1 = .ok a ∧ (a.status ∉ [1, 2, 3, 4] → a.Within r.program)

/-- The values of the columns with two finite bounds keep to them. -/
def Problem.Within (p : Problem α) (xs : List α) : Prop :=
  ∀ (j : ℕ) (c : Column α), p.columns[j]? = some c →
    isFinite c.lower = true → isFinite c.upper = true →
      ∃ x, xs[j]? = some x ∧ c.lower ≤ x ∧ x ≤ c.upper

theorem Answer.Within.problem {a : Answer α} {p : Problem α} (h : a.Within p.linearProgram) :
    p.Within a.point := by
  intro j c hc hl hu
  have hbounds : p.linearProgram.bounds[j]? = some (finite? c.lower, finite? c.upper) := by
    change (p.columns.map _)[j]? = _
    rw [List.getElem?_map, hc]
    rfl
  obtain ⟨x, hx, hlower, hupper⟩ := h j _ hbounds
  have hfinite : ∀ {y : α}, isFinite y = true → y ∈ finite? y := by
    intro y hy
    rw [finite?, (isFinite_iff.1 hy).2]
    rfl
  exact ⟨x, hx, hlower _ (hfinite hl), hupper _ (hfinite hu)⟩

/-- The relaxation is stored, and if it is an optimum its point keeps to the bounds. -/
def Problem.Relaxes (p q : Problem α) : Prop :=
  ∃ b, q = p.withBasic b ∧ (b.status = .optimal → p.Within b.colPrimal)

section
variable {host : Host α σ} {p : Problem α} (params : Parameter.Simplex α)

theorem relaxes_withBasic {b : Solution α} (h : b.status ≠ .optimal) : p.Relaxes (p.withBasic b) :=
  ⟨b, rfl, fun hoptimal => absurd hoptimal h⟩

theorem noOptimum_relaxes (name : String) (unbounded : Bool) :
    Task.Returns (noOptimum (σ := σ) params name p unbounded) fun r => p.Relaxes r.1 := by
  have htold : ∀ (m : Notice α) (b : Solution α) (code : ReturnCode), b.status ≠ .optimal →
      Task.Returns (σ := σ) (do Task.tellAt Parameter.levelNormal params.messageLevel m
                                return (p.withBasic b, code)) fun r => p.Relaxes r.1 :=
    fun m b code hb => (Task.Returns.tellAt _ _ _).bind fun _ _ => .pure (relaxes_withBasic hb)
  unfold noOptimum
  split
  · exact htold _ _ _ (by simp)
  split
  · exact .pure (relaxes_withBasic (by simp))
  · exact htold _ _ _ (by cases unbounded <;> simp)

/-- A limit on the time of a run is a number. -/
def Parameter.Simplex.Timed (params : Parameter.Simplex α) : Prop :=
  params.timeLimit < Parameter.unlimited → (ofInt? params.timeLimit : Option α).isSome

theorem limited_timed (htimed : params.Timed) (options : SolverOptions α) :
    Task.Returns (params.limited (σ := σ) options) fun _ => True := by
  unfold Parameter.Simplex.limited
  dsimp only
  split
  · next hlimit =>
    obtain ⟨limit, hnumber⟩ := Option.isSome_iff_exists.1 (htimed hlimit)
    have hreturns : Task.Returns (Task.number params.timeLimit : Task α σ α) fun _ => True := by
      rw [Task.number, hnumber]
      exact .pure trivial
    exact hreturns.bind fun _ _ => .pure trivial
  · exact .pure trivial

variable (hhost : host.KeepsBounds) (htimed : params.Timed)
include hhost htimed

theorem solveBasic_relaxes (options : SolverOptions α) (name : String) :
    Task.Returns (solveBasic host params options name p) fun r => p.Relaxes r.1 := by
  have htold : ∀ (least level : Int) (m : Notice α) (code : ReturnCode),
      Task.Returns (σ := σ) (do Task.tellAt least level m; return (p.withBasic {}, code))
        fun r => p.Relaxes r.1 :=
    fun _ _ _ _ => (Task.Returns.tellAt _ _ _).bind fun _ _ => .pure (relaxes_withBasic (by simp))
  unfold solveBasic
  refine (Task.Returns.now host).bind fun start _ => ?_
  refine (Task.Returns.tellAt _ _ _).bind fun _ _ => ?_
  split
  · next hempty =>
    refine .pure ⟨_, rfl, fun _ j c hc => ?_⟩
    rw [List.isEmpty_iff.1 hempty] at hc
    cases hc
  refine (limited_timed params htimed options).bind fun options _ => ?_
  refine (Task.Returns.ask fun w => hhost _ w).bind fun a ha => ?_
  split
  · split
    · exact htold _ _ _ _
    · exact htold _ _ _ _
  split
  · exact htold _ _ _ _
  split
  · refine Task.Returns.bind (P := fun _ => True) ?_ fun _ _ => noOptimum_relaxes params name _
    exact (Task.Returns.ask fun w => hhost _ w).bind fun _ _ => .pure trivial
  split
  · exact noOptimum_relaxes params name true
  · refine (Task.Returns.now host).bind fun now _ => ?_
    refine (Task.Returns.tellAt _ _ _).bind fun _ _ => .pure ⟨_, rfl, fun _ => ?_⟩
    exact (ha (by simp [*])).problem

theorem simplex_relaxes : Task.Returns (simplex host params p) fun r => p.Relaxes r.1 := by
  unfold simplex
  cases p.badBounds with
  | some why =>
    exact (Task.Returns.tellAt _ _ _).bind fun _ _ => .pure (relaxes_withBasic (by simp))
  | none => exact solveBasic_relaxes params hhost htimed _ _

end

/-- The relaxation of the problem is solved, and if it is an optimum its point keeps to the
bounds. -/
def Host.Relaxes (host : Host α σ) (p : Problem α) : Prop :=
  ∀ params : Parameter.Simplex α, params.Timed →
    Task.Returns (simplex host params p) fun r => p.Relaxes r.1

/-! ### A host that looks at nothing but bounds -/

/-- Halfway between two sides, or at the side that there is. -/
def halfway : Option α × Option α → α
  | (some l, some u) => (l + u) / Scalar.ofNat 2
  | (some l, none) => l
  | (none, some u) => u
  | (none, none) => 0

/-- How far two sides are apart. -/
def apart : Option α × Option α → α
  | (some l, some u) => u - l
  | _ => 0

/-- The point halfway between the bounds, which is worth the more the farther they are apart. -/
def Host.halfway : Host α σ where
  solve r w :=
    let bounds := r.program.bounds
    let between := bounds.all fun b =>
      b.1.all (fun l => decide (l ≤ MixedInteger.halfway b)) &&
        b.2.all fun u => decide (MixedInteger.halfway b ≤ u)
    let answer : Answer α :=
      { status := if between then 0 else 2
        point := bounds.map MixedInteger.halfway
        value := -Scalar.sum (bounds.map apart)
        ubMarginals := []
        eqMarginals := []
        lowerMarginals := []
        upperMarginals := [] }
    (.ok answer, w)
  now _ := 0

theorem Host.halfway_keepsBounds : (Host.halfway : Host α σ).KeepsBounds := by
  refine fun r w => ⟨_, rfl, fun hstatus j b hb => ⟨MixedInteger.halfway b, by simp [hb], ?_⟩⟩
  dsimp only at hstatus
  split_ifs at hstatus with hbetween
  · have hall := List.all_eq_true.1 hbetween b (List.mem_of_getElem? hb)
    rw [Bool.and_eq_true, Option.all_eq_true, Option.all_eq_true] at hall
    exact ⟨fun l hl => of_decide_eq_true (hall.1 l hl), fun u hu => of_decide_eq_true (hall.2 u hu)⟩
  · exact absurd (by simp) hstatus

end

/-! ### The bounds of a node -/

section

open Scalar ValuedScalar

variable {α : Type} [Scalar α] [ValuedScalar α]

/-- The column has finite bounds of these values. -/
structure Column.Spans (c : Column α) (b : α × α) : Prop where
  isFinite_lower : isFinite c.lower = true
  isFinite_upper : isFinite c.upper = true
  lower : value c.lower = value b.1
  upper : value c.upper = value b.2

/-- A pair of finite bounds. -/
def FiniteBounds (b : α × α) : Prop := isFinite b.1 = true ∧ isFinite b.2 = true

namespace Problem

/-- The integer columns of another problem have these bounds, and there are no other ones. -/
structure Carries (p q : Problem α) (sides : p.Place → α × α) : Prop where
  kinds : q.columns.map (·.kind) = p.columns.map (·.kind)
  column : ∀ j : p.Place, ∃ c, q.columns[j.1.1]? = some c ∧ c.Spans (sides j)

variable {p q : Problem α} {sides target : p.Place → α × α}

/-- The bounds of the integer columns themselves. -/
def rootSides (p : Problem α) (j : p.Place) : α × α := (j.column.lower, j.column.upper)

theorem Bounded.finite (hp : p.Bounded) (j : p.Place) : FiniteBounds (p.rootSides j) :=
  ⟨(hp.lower _ j.mem j.2).1, (hp.upper _ j.mem j.2).1⟩

theorem Bounded.carries (hp : p.Bounded) : p.Carries p.copy p.rootSides where
  kinds := rfl
  column j := by
    have hfinite := hp.finite j
    exact ⟨j.column, List.getElem?_eq_getElem j.1.2, hfinite.1, hfinite.2, rfl, rfl⟩

/-- Only the columns matter. -/
theorem Carries.congr {q' : Problem α} (h : p.Carries q sides) (hq : q'.columns = q.columns) :
    p.Carries q' sides := ⟨by rw [hq]; exact h.kinds, by rw [hq]; exact h.column⟩

/-- Finite bounds are set to what they are, up to `==`. -/
theorem setBox_finite {i : ℕ} {c : Column α} (hc : q.columns[i]? = some c) {b : α × α}
    (hb : FiniteBounds b) : ∃ bound u, isFinite u = true ∧ value u = value b.2 ∧
      Tree.setBox q (i + 1) b = .ok { q with columns := q.columns.modify i fun c =>
        { c with bound := bound, lower := b.1, upper := u } } := by
  have hset := setColumnBounds_of_getElem (p := { q with strict := false }) hc
    (boxKind b.1 b.2) b.1 b.2
  have hlenient : ∀ kind l u, ({ q with strict := false } : Problem α).refuses kind l u = false :=
    fun _ _ _ => rfl
  rw [hlenient, if_neg Bool.false_ne_true] at hset
  have hbox : Tree.setBox q (i + 1) b = .ok { q with columns := q.columns.modify i fun c =>
      { c with
        bound := boxKind b.1 b.2
        lower := ((boxKind b.1 b.2).sides b.1 b.2).1
        upper := ((boxKind b.1 b.2).sides b.1 b.2).2 } } := by
    simp only [Tree.setBox, leniently, hset]
    rfl
  cases heq : b.1 == b.2 with
  | true =>
    have hkind : boxKind b.1 b.2 = .fixed := by rw [boxKind, if_pos heq]
    rw [hkind] at hbox
    exact ⟨_, _, hb.1, (beq_iff_value hb.1 hb.2).1 heq, hbox⟩
  | false =>
    have hkind : boxKind b.1 b.2 = .double := by
      rw [boxKind, if_neg (by simp [heq]), (isFinite_iff.1 hb.1).2, (isFinite_iff.1 hb.2).2]
    rw [hkind] at hbox
    exact ⟨_, _, hb.2, rfl, hbox⟩

/-- Setting the bounds of one integer column changes the bounds there. -/
theorem Carries.setBox (h : p.Carries q sides) (j : p.Place) {b : α × α} (hb : FiniteBounds b) :
    ∃ q', Tree.setBox q j.number b = .ok q' ∧ p.Carries q' (Function.update sides j b) := by
  obtain ⟨c, hc, -⟩ := h.column j
  obtain ⟨bound, u, hfinite, hvalue, hset⟩ := setBox_finite hc hb
  refine ⟨_, hset, (Tree.kinds_of_setBox hset).trans h.kinds, fun i => ?_⟩
  dsimp only
  by_cases hij : i = j
  · subst hij
    rw [List.getElem?_modify_eq, hc, Function.update_self]
    exact ⟨_, rfl, hb.1, hfinite, rfl, hvalue⟩
  · obtain ⟨d, hd, hspans⟩ := h.column i
    have hne : j.1.1 ≠ i.1.1 := fun heq => hij (Subtype.ext (Fin.ext heq.symm))
    rw [List.getElem?_modify_ne _ _ hne, hd, Function.update_of_ne hij]
    exact ⟨d, rfl, hspans⟩

/-- Setting bounds one after another ends in given ones when every entry agrees with them and
they are the old ones elsewhere. -/
theorem Carries.setBoxes (htarget : ∀ j, FiniteBounds (target j)) {es : List (ℕ × (α × α))}
    (hes : ∀ e ∈ es, ∃ j : p.Place, e = (j.number, target j)) (h : p.Carries q sides)
    (hrest : ∀ j : p.Place, j.number ∉ es.map (·.1) → sides j = target j) :
    ∃ q', Tree.setBoxes q es = .ok q' ∧ p.Carries q' target := by
  induction es generalizing q sides with
  | nil =>
    obtain rfl : sides = target := funext fun j => hrest j List.not_mem_nil
    exact ⟨q, rfl, h⟩
  | cons e es ih =>
    obtain ⟨j, rfl⟩ := hes e List.mem_cons_self
    obtain ⟨q₁, hset, h₁⟩ := h.setBox j (htarget j)
    obtain ⟨q', hq', h'⟩ := ih (fun e he => hes e (List.mem_cons_of_mem _ he)) h₁ fun i hi => by
      by_cases hij : i = j
      · rw [hij, Function.update_self]
      · rw [Function.update_of_ne hij]
        refine hrest i fun hmem => ?_
        rw [List.map_cons, List.mem_cons] at hmem
        exact hmem.elim (fun heq => hij (Place.number_inj.1 heq)) hi
    refine ⟨q', ?_, h'⟩
    unfold Tree.setBoxes at hq' ⊢
    rw [List.foldlM_cons, hset]
    exact hq'

end Problem

namespace Node

variable {p : Problem α} {n : Node α}

theorem Whole.finite (h : n.Whole p) (j : p.Place) : FiniteBounds (n.sides j) :=
  ⟨(h.lower j).1, (h.upper j).1⟩

/-- An entry of a node gives its bounds there. -/
theorem Whole.sides_of_mem (h : n.Whole p) {j : p.Place} {b : α × α}
    (he : (j.number, b) ∈ n.boxes) : n.sides j = b := by
  rw [sides, (lookup_eq_some_iff_mem h.nodup).2 he]
  rfl

omit [ValuedScalar α] in
theorem sides_of_notMem {j : p.Place} (h : j.number ∉ n.boxes.map (·.1)) :
    n.sides j = p.rootSides j := by
  have hnone : n.boxes.lookup j.number = none := by
    rw [List.lookup_eq_none_iff]
    intro e he
    rw [bne_iff_ne]
    exact fun heq => h (List.mem_map.2 ⟨e, he, heq.symm⟩)
  rw [sides, hnone]
  rfl

end Node

namespace Tree

variable {p : Problem α} {t : Tree α}

/-- The working problem has other bounds only in the columns that were touched. -/
structure Carried (p : Problem α) (t : Tree α) : Prop where
  rootBounds : t.rootBounds = p.columns.map fun c => (c.lower, c.upper)
  touched : ∀ i ∈ t.touched, ∃ j : p.Place, i = j.number
  carries : ∃ sides, p.Carries t.problem sides ∧
    ∀ j : p.Place, j.number ∉ t.touched → sides j = p.rootSides j

omit [ValuedScalar α] in
theorem rootBound_eq (h : t.rootBounds = p.columns.map fun c => (c.lower, c.upper)) (j : p.Place) :
    t.rootBounds.getD (j.number - 1) (0, 0) = p.rootSides j := by
  have hj : j.number - 1 = j.1.1 := rfl
  rw [h, hj, List.getD_eq_getElem?_getD, List.getElem?_map, List.getElem?_eq_getElem j.1.2]
  rfl

/-- The bounds of a node replace those of the node before. -/
theorem Carried.activate (h : t.Carried p) (hp : p.Bounded) {n : Node α} (hn : n.Whole p) :
    ∃ q, t.activate n = .ok { t with
        problem := q
        touched := n.boxes.map (·.1)
        current := some n.number } ∧ p.Carries q n.sides := by
  obtain ⟨sides, hsides, hrest⟩ := h.carries
  have hback : ∀ e ∈ t.touched.map fun j => (j, t.rootBounds.getD (j - 1) (0, 0)),
      ∃ j : p.Place, e = (j.number, p.rootSides j) := by
    intro e he
    obtain ⟨i, hi, rfl⟩ := List.mem_map.1 he
    obtain ⟨j, rfl⟩ := h.touched i hi
    exact ⟨j, by rw [rootBound_eq h.rootBounds]⟩
  have hforth : ∀ e ∈ n.boxes, ∃ j : p.Place, e = (j.number, n.sides j) := by
    rintro ⟨i, b⟩ he
    obtain ⟨j, rfl⟩ := hn.columns _ he
    exact ⟨j, by rw [hn.sides_of_mem he]⟩
  obtain ⟨q₁, hq₁, h₁⟩ := hsides.setBoxes hp.finite hback fun j hj => hrest j (by simpa using hj)
  obtain ⟨q₂, hq₂, h₂⟩ := h₁.setBoxes hn.finite hforth fun j hj => (Node.sides_of_notMem hj).symm
  refine ⟨q₂, ?_, h₂⟩
  unfold Tree.activate
  simp only [hq₁, bind_ok, hq₂]
  rfl

end Tree

end

section

open Scalar ValuedScalar

variable {α : Type} [Scalar α] [ValuedScalar α]

theorem exists_mapM {ε β γ : Type} {f : β → Except ε γ} {P : γ → Prop} {xs : List β}
    (h : ∀ x ∈ xs, ∃ y, f x = .ok y ∧ P y) : ∃ ys, xs.mapM f = .ok ys ∧ ∀ y ∈ ys, P y := by
  induction xs with
  | nil => exact ⟨[], rfl, fun y hy => nomatch hy⟩
  | cons x xs ih =>
    obtain ⟨y, hy, hP⟩ := h x List.mem_cons_self
    obtain ⟨ys, hys, hPs⟩ := ih fun z hz => h z (List.mem_cons_of_mem _ hz)
    rw [List.mapM_cons, hy, hys]
    refine ⟨y :: ys, rfl, fun z hz => ?_⟩
    rcases List.mem_cons.1 hz with rfl | hz
    · exact hP
    · exact hPs z hz

namespace Problem

variable {p q : Problem α} {sides : p.Place → α × α}

/-- An integer column of the working problem has a place in the problem. -/
theorem Carries.place (h : p.Carries q sides) {i : ℕ} {c : Column α} (hc : q.columns[i]? = some c)
    (hkind : c.kind = .integer) : ∃ j : p.Place, j.number = i + 1 ∧ c.Spans (sides j) := by
  have hkinds := congrArg (fun kinds => kinds[i]?) h.kinds
  simp only [List.getElem?_map, hc, Option.map_some, hkind] at hkinds
  obtain ⟨d, hd, hdkind⟩ := Option.map_eq_some_iff.1 hkinds.symm
  obtain ⟨hi, rfl⟩ := List.getElem?_eq_some_iff.1 hd
  let j : p.Place := ⟨⟨i, hi⟩, hdkind⟩
  obtain ⟨c', hc', hspans⟩ := h.column j
  cases hc.symm.trans hc'
  exact ⟨j, rfl, hspans⟩

/-- A finite value between the bounds of a column. -/
structure Place.Between (j : p.Place) (sides : p.Place → α × α) (x : α) : Prop where
  isFinite : isFinite x = true
  lower : (sides j).1 ≤ x
  upper : x ≤ (sides j).2

/-- Integer columns have values between their bounds. -/
theorem Carries.between (h : p.Carries q sides) (hfinite : ∀ j, FiniteBounds (sides j))
    {xs : List α} (hx : q.Within xs) {i : ℕ} {c : Column α} (hc : q.columns[i]? = some c)
    (hkind : c.kind = .integer) : ∃ j : p.Place, j.number = i + 1 ∧
      j.Between sides (valueAt xs ((i + 1 : ℕ) : ℤ)) := by
  obtain ⟨j, hj, hspans⟩ := h.place hc hkind
  obtain ⟨x, hx, hlower, hupper⟩ := hx i c hc hspans.isFinite_lower hspans.isFinite_upper
  have hxfinite : isFinite x = true :=
    isFinite_between hspans.isFinite_lower hspans.isFinite_upper hlower hupper
  rw [valueAt_of_getElem hx]
  refine ⟨j, hj, hxfinite, ?_, ?_⟩
  · rw [le_iff (hfinite j).1 hxfinite, ← hspans.lower]
    exact (le_iff hspans.isFinite_lower hxfinite).1 hlower
  · rw [le_iff hxfinite (hfinite j).2, ← hspans.upper]
    exact (le_iff hxfinite hspans.isFinite_upper).1 hupper

end Problem

namespace Tree

variable {p : Problem α} {t : Tree α} {sides : p.Place → α × α}
  (hcarries : p.Carries t.problem sides) (hfinite : ∀ j, FiniteBounds (sides j))
  (hwithin : t.problem.Within t.problem.basic.colPrimal)
include hcarries hfinite hwithin

theorem exists_candidate : ∃ o, t.candidate = .ok o := by
  have hrounded : ∃ xs, t.roundedPoint = .ok xs ∧ ∀ x ∈ xs, True := by
    refine exists_mapM fun e he => ?_
    obtain ⟨i, c, hc, rfl⟩ := Problem.mem_numberedColumns.1 he
    dsimp only
    split_ifs with hkind
    · obtain ⟨j, -, hx⟩ := hcarries.between hfinite hwithin hc hkind
      exact ⟨_, rounded_of_isFinite _ hx.isFinite, trivial⟩
    · exact ⟨_, rfl, trivial⟩
  obtain ⟨xs, hxs, -⟩ := hrounded
  unfold candidate
  rw [hxs]
  dsimp only [bind_ok]
  split
  · exact ⟨_, rfl⟩
  · split_ifs
    · exact ⟨_, rfl⟩
    · exact ⟨_, rfl⟩

/-- The fractional columns are integer columns with values that are no integers. -/
theorem exists_fractional (hτ : 0 ≤ t.params.integerTolerance) :
    ∃ fs, t.fractional = .ok fs ∧ ∀ f ∈ fs, ∃ j : p.Place, f.column = j.number ∧
      j.Between sides f.value ∧ ¬IsIntegral f.value := by
  let found (e : ℕ × Column α) : Except RoundingError (Option (Fraction α)) := do
    let x := valueAt t.problem.basic.colPrimal e.1
    let far := decide (t.params.integerTolerance < Scalar.abs (x - (← Scalar.nearest x)))
    return if far then some ⟨e.1, x⟩ else none
  have hfound : ∀ e ∈ t.problem.numberedColumns.filter fun e => e.2.kind = .integer,
      ∃ o, found e = .ok o ∧ ∀ f, o = some f → ∃ j : p.Place, f.column = j.number ∧
        j.Between sides f.value ∧ ¬IsIntegral f.value := by
    intro e he
    obtain ⟨he, hkind⟩ := List.mem_filter.1 he
    obtain ⟨i, c, hc, rfl⟩ := Problem.mem_numberedColumns.1 he
    obtain ⟨j, hj, hx⟩ := hcarries.between hfinite hwithin hc (by simpa using hkind)
    have hnearest := rounded_of_isFinite nearestInt hx.isFinite
    refine ⟨_, except_bind_eq_ok.2 ⟨_, hnearest, rfl⟩, fun f hf => ?_⟩
    split_ifs at hf with hfar
    cases hf
    exact ⟨j, hj.symm, hx, not_isIntegral_of_far hτ (by simpa using hfar)⟩
  obtain ⟨os, hos, hall⟩ := exists_mapM hfound
  refine ⟨os.filterMap id, except_bind_eq_ok.2 ⟨os, hos, rfl⟩, fun f hf => ?_⟩
  obtain ⟨o, ho, rfl⟩ := List.mem_filterMap.1 hf
  exact hall _ ho f rfl

end Tree

end

end MixedInteger
