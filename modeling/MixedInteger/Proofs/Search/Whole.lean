import MixedInteger.Proofs.Continuous.Stored
import MixedInteger.Proofs.Problem.Edit
import MixedInteger.Proofs.Search.Upheld

/-! What holds throughout a search. A property of the problems and the incumbent that nodes in
hand, relaxations, new incumbents and the listener keep is kept by every step, and so by the
search, which makes its solution of the last tree. In this way points of incumbents are whole: an
incumbent is the point of a relaxation with its integer columns rounded, and only another one
takes its place. Of the solver it is enough that it answers or fails, and of a listener that it
lets the columns and the incumbent be; it may add rows, ask for the end and fail. -/

namespace MixedInteger

variable {α σ β γ : Type} [Scalar α]

/-! ### Whole numbers -/

namespace Scalar

/-- The number is the integer that is nearest to some finite number. -/
def IsWhole (x : α) : Prop := ∃ y : α, isFinite y = true ∧ x = ofInt (nearestInt y)

theorem isWhole_of_nearest {x y : α} (h : nearest y = .ok x) : IsWhole x := by
  unfold nearest rounded at h
  split_ifs at h with hnan hinf
  cases h
  exact ⟨y, by simp [isFinite, hnan, hinf], rfl⟩

end Scalar

/-- One value for each column, which is whole where the column is an integer one. -/
def WholeAt (kinds : List ColumnKind) (xs : List α) : Prop :=
  List.Forall₂ (fun kind x => kind = .integer → Scalar.IsWhole x) kinds xs

theorem WholeAt.getElem {kinds : List ColumnKind} {xs : List α} (h : WholeAt kinds xs) {j : Nat}
    (hj : kinds[j]? = some .integer) : ∃ x, xs[j]? = some x ∧ Scalar.IsWhole x := by
  obtain ⟨hlt, hkind⟩ := List.getElem?_eq_some_iff.1 hj
  have hlt' : j < xs.length := h.length_eq ▸ hlt
  exact ⟨xs[j], List.getElem?_eq_getElem hlt', h.get hlt hlt' hkind⟩

/-- A solution with a point has a whole one. -/
def Solution.Whole (kinds : List ColumnKind) (s : Solution α) : Prop :=
  s.status = .optimal ∨ s.status = .feasible → WholeAt kinds s.colPrimal

theorem forall₂_of_mapM {ε : Type} {f : β → Except ε γ} :
    ∀ {xs : List β} {ys : List γ}, xs.mapM f = .ok ys →
      List.Forall₂ (fun x y => f x = .ok y) xs ys
  | [], ys, h => by
    cases h
    exact .nil
  | x :: xs, ys, h => by
    rw [List.mapM_cons] at h
    obtain ⟨y, hy, h⟩ := except_bind_eq_ok.1 h
    obtain ⟨ys', hys, h⟩ := except_bind_eq_ok.1 h
    cases h
    exact .cons hy (forall₂_of_mapM hys)

/-- Each result is that of some element. -/
theorem exists_of_mem_mapM {ε : Type} {f : β → Except ε γ} {xs : List β} {ys : List γ}
    (h : xs.mapM f = .ok ys) {y : γ} (hy : y ∈ ys) : ∃ x ∈ xs, f x = .ok y := by
  have hforall := forall₂_of_mapM h
  clear h
  induction hforall with
  | nil => cases hy
  | cons hxy _ ih =>
    obtain rfl | hy := List.mem_cons.1 hy
    · exact ⟨_, List.mem_cons_self, hxy⟩
    · obtain ⟨x, hx, hxy⟩ := ih hy
      exact ⟨x, List.mem_cons_of_mem _ hx, hxy⟩

/-! ### Tasks that keep a property of the tree -/

namespace SearchTask

/-- The task keeps a property of the tree, also when it fails. -/
def Keeps (I : Tree α → Prop) (x : SearchTask α σ β) : Prop :=
  ∀ s, I s.tree → Runs x s (fun _ s' => I s'.tree) fun s' => I s'.tree

namespace Keeps

variable {I : Tree α → Prop}

theorem pure (b : β) : Keeps I (Pure.pure b : SearchTask α σ β) := fun _ h => h

theorem bind {x : SearchTask α σ β} {f : β → SearchTask α σ γ} (hx : Keeps I x)
    (hf : ∀ b, Keeps I (f b)) : Keeps I (x >>= f) :=
  fun s h => (hx s h).bind fun b s' h' => hf b s' h'

theorem runs {x : SearchTask α σ β} (hx : Keeps I x) {s : Scene α σ} (h : I s.tree) :
    Runs x s (fun _ s' => I s'.tree) fun _ => True := (hx s h).weaken fun _ _ => trivial

/-- The tree is read. -/
theorem tree {f : Tree α → SearchTask α σ γ} (hf : ∀ t, I t → Keeps I (f t)) :
    Keeps I (SearchTask.tree >>= f) := fun s h => hf s.tree h s h

theorem ofTask (x : Task α σ β) : Keeps I (SearchTask.ofTask x) := by
  intro s h
  unfold Runs SearchTask.ofTask
  cases x s.session with
  | ok b session => exact h
  | error e session => exact h

theorem say (n : Notice α) : Keeps I (SearchTask.say n : SearchTask α σ Unit) :=
  tree fun _ _ => ofTask _

end Keeps

/-- What lasts is kept. -/
theorem Keeps.of_lasts {I : Tree α → Prop} {F : Fault α → Prop} {x : SearchTask α σ β}
    (hx : Lasts (fun s : Scene α σ => I s.tree) F x) : Keeps I x :=
  fun s h => (hx s h).runs fun _ _ h => h.2

end SearchTask

/-- A task that lets the columns of the working problem and the incumbent be. It may add rows and
ask for the end, and it may fail. -/
def SearchTask.Spares (x : SearchTask α σ β) : Prop := ∀ columns incumbent,
  Keeps (fun t => t.problem.columns = columns ∧ t.incumbent = incumbent) x

/-! ### Other bounds -/

namespace Problem

/-- Other bounds of columns, but columns of the same kinds and with the same costs. -/
def Rebounds (p q : Problem α) : Prop :=
  ∃ columns, columns.map (·.kind) = p.columns.map (·.kind) ∧
    columns.map (·.cost) = p.columns.map (·.cost) ∧ q = { p with columns := columns }

variable {p q r : Problem α} {j : Int} {kind : BoundKind} {l u : α}

theorem Rebounds.trans (h : p.Rebounds q) (h' : q.Rebounds r) : p.Rebounds r := by
  obtain ⟨_, hkinds, hcosts, rfl⟩ := h
  obtain ⟨columns, hkinds', hcosts', rfl⟩ := h'
  exact ⟨columns, hkinds'.trans hkinds, hcosts'.trans hcosts, rfl⟩

theorem rebounds_of_setColumnBounds (h : p.setColumnBounds j kind l u = .ok q) :
    p.Rebounds q := by
  obtain ⟨c, -, h⟩ := except_bind_eq_ok.1 h
  dsimp only at h
  split_ifs at h
  cases h
  refine ⟨_, List.ext_getElem? fun i => ?_, List.ext_getElem? fun i => ?_, rfl⟩
  all_goals
    simp only [List.getElem?_map, List.getElem?_modify]
    cases p.columns[i]? <;> split_ifs <;> rfl

theorem rebounds_of_leniently
    (h : p.leniently (fun p => p.setColumnBounds j kind l u) = .ok q) : p.Rebounds q := by
  obtain ⟨q', hq', h⟩ := except_bind_eq_ok.1 h
  obtain ⟨columns, hkinds, hcosts, rfl⟩ := rebounds_of_setColumnBounds hq'
  cases h
  exact ⟨columns, hkinds, hcosts, rfl⟩

end Problem

/-! ### Trees -/

namespace Tree

/-- The columns have these kinds, and the point of the incumbent is whole at them. -/
structure Whole (kinds : List ColumnKind) (t : Tree α) : Prop where
  columns : t.problem.columns.map (·.kind) = kinds
  incumbent : ∀ i, t.incumbent = some i → WholeAt kinds i.point

variable {kinds : List ColumnKind} {t t' : Tree α}

theorem Whole.congr (h : t.Whole kinds) (hcolumns : t'.problem.columns = t.problem.columns)
    (hincumbent : t'.incumbent = t.incumbent) : t'.Whole kinds :=
  ⟨by rw [hcolumns]; exact h.columns, by rw [hincumbent]; exact h.incumbent⟩

/-- The point of a relaxation is rounded at the integer columns. -/
theorem wholeAt_roundedPoint {xs : List α} (h : t.roundedPoint = .ok xs) :
    WholeAt (t.problem.columns.map (·.kind)) xs := by
  have hcolumns : t.problem.numberedColumns.map (·.2) = t.problem.columns :=
    List.map_snd_zip (by simp [Problem.columnCount])
  rw [← hcolumns, List.map_map, WholeAt, List.forall₂_map_left_iff]
  refine (forall₂_of_mapM h).imp fun e x hx hkind => ?_
  dsimp only at hx
  rw [if_pos (by exact hkind)] at hx
  exact Scalar.isWhole_of_nearest hx

theorem roundedPoint_of_candidate {i : Incumbent α} (hi : t.candidate = .ok (some i)) :
    t.roundedPoint = .ok i.point := by
  obtain ⟨xs, hxs, hi⟩ := except_bind_eq_ok.1 hi
  dsimp only at hi
  split at hi
  · cases hi
    exact hxs
  · split_ifs at hi
    · cases hi
    · cases hi
      exact hxs

theorem Whole.candidate (h : t.Whole kinds) {i : Incumbent α} (hi : t.candidate = .ok (some i)) :
    WholeAt kinds i.point := by
  rw [← h.columns]
  exact wholeAt_roundedPoint (roundedPoint_of_candidate hi)

/-- A box touches nothing but the bounds of columns. -/
theorem rebounds_of_setBox {p q : Problem α} {j : Nat} {box : α × α}
    (h : setBox p j box = .ok q) : p.Rebounds q := Problem.rebounds_of_leniently h

theorem kinds_of_setBox {p q : Problem α} {j : Nat} {box : α × α} (h : setBox p j box = .ok q) :
    q.columns.map (·.kind) = p.columns.map (·.kind) := by
  obtain ⟨columns, hkinds, -, rfl⟩ := rebounds_of_setBox h
  exact hkinds

theorem rebounds_of_setBoxes : ∀ {boxes : List (Nat × (α × α))} {p q : Problem α},
    setBoxes p boxes = .ok q → p.Rebounds q
  | [], p, q, h => by
    cases h
    exact ⟨_, rfl, rfl, rfl⟩
  | b :: boxes, p, q, h => by
    unfold setBoxes at h
    rw [List.foldlM_cons] at h
    obtain ⟨p', hp', h⟩ := except_bind_eq_ok.1 h
    exact (rebounds_of_setBox hp').trans (rebounds_of_setBoxes h)

/-- A node in hand has other bounds of columns. -/
theorem activate_eq {n : Node α} (ht : t.activate n = .ok t') :
    t.problem.Rebounds t'.problem ∧ t'.original = t.original ∧ t'.incumbent = t.incumbent := by
  obtain ⟨p, hp, ht⟩ := except_bind_eq_ok.1 ht
  obtain ⟨q, hq, ht⟩ := except_bind_eq_ok.1 ht
  cases ht
  exact ⟨(rebounds_of_setBoxes hp).trans (rebounds_of_setBoxes hq), rfl, rfl⟩

theorem Whole.activate (h : t.Whole kinds) {n : Node α} (ht : t.activate n = .ok t') :
    t'.Whole kinds := by
  obtain ⟨⟨columns, hkinds, -, hproblem⟩, -, hincumbent⟩ := activate_eq ht
  refine ⟨?_, by rw [hincumbent]; exact h.incumbent⟩
  rw [hproblem]
  exact hkinds.trans h.columns

end Tree

/-! ### Steps of a search -/

namespace Search

open SearchTask

/-- What holds of the tree from one step of a search to the next. It is about the problems and the
incumbent, so that it is enough to know what a node in hand, a relaxation, a new incumbent and
the listener do to it. -/
structure Invariant (c : Company α σ) (I : Tree α → Prop) : Prop where
  alike : ∀ {t t'}, I t → t.Alike t' → I t'
  activate : ∀ {t n t'}, I t → t.activate n = .ok t' → I t'
  relaxed : ∀ {t} settings session, I t → Runs (simplex c.host settings t.problem) session
    (fun r _ => I { t with problem := r.1 }) fun _ => True
  recorded : ∀ {t i}, I t → t.candidate = .ok (some i) → I { t with incumbent := some i }
  hear : ∀ hear, c.listener = some hear → Keeps I hear

variable {c : Company α σ} {I : Tree α → Prop}

/-- Of sessions and faults nothing is asked. -/
theorem Invariant.upholds (hI : Invariant c I) :
    Upholds c (fun s => I s.tree) (fun _ => True) where
  innocent _ _ := trivial
  alike := hI.alike
  activate := hI.activate
  relaxed {s} settings h _ :=
    (hI.relaxed settings s.session h).ends.imp (fun _ _ => id) fun _ _ _ => ⟨trivial, h⟩
  recorded := hI.recorded
  told _ h _ := h
  hear hear hlistener s h :=
    (hI.hear hear hlistener s h).ends.imp (fun _ _ => id) fun _ _ h => ⟨trivial, h⟩

namespace Invariant

variable (hI : Invariant c I)
include hI

/-! ### Whole searches -/

/-- What a search is left with when nothing is known of the solution: a status that promises no
point. -/
theorem presolved_keeps {s : Scene α σ} (h : I s.tree) : Runs (presolved c) s
    (fun r s' => I s'.tree ∧ ∀ code status, r = some (code, status) →
      status ≠ .optimal ∧ status ≠ .feasible) fun _ => True := by
  have hgiven : ∀ {code : ReturnCode} {status : SolutionStatus} {s : Scene α σ},
      I s.tree → status ≠ .optimal → status ≠ .feasible →
      Runs (pure (some (code, status)) : SearchTask α σ _) s
        (fun r s' => I s'.tree ∧ ∀ code status, r = some (code, status) →
          status ≠ .optimal ∧ status ≠ .feasible) fun _ => True := by
    rintro code status s h hoptimal hfeasible
    refine ⟨h, ?_⟩
    rintro _ _ ⟨⟩
    exact ⟨hoptimal, hfeasible⟩
  unfold presolved
  have hrelaxation : Keeps I (relaxation c) := .of_lasts fun s h =>
    (relaxation_ends hI.upholds.innocent s).imp (fun _ _ hs => hs.1 ▸ h)
      fun _ _ hs => ⟨hs.1, hs.2 ▸ h⟩
  have hrelax : ∀ settings, Keeps I (relax c settings) := fun settings s h =>
    relax_ends ((hI.relaxed settings s.session h).ends.imp (fun _ _ => id) fun _ _ _ => h)
  refine (hrelaxation.runs h).bind fun settings s h => ((hrelax _).runs h).bind fun code s h => ?_
  split
  · exact ((Keeps.say _).runs h).bind fun _ s h => hgiven h (by simp) (by simp)
  · exact ((Keeps.say _).runs h).bind fun _ s h => hgiven h (by simp) (by simp)
  · exact hgiven h (by simp) (by simp)
  · refine Runs.bind (P := fun _ s' => I s'.tree) (.of_ok rfl h) fun t s h => ?_
    split_ifs
    · exact .pure ⟨h, by simp⟩
    · exact hgiven h (by simp) (by simp)
  · exact hgiven h (by simp) (by simp)

variable {S : Solution α → Prop} (hnone : ∀ status, status ≠ .optimal → status ≠ .feasible →
    S { status := status })
  (hsome : ∀ {t i}, I t → t.incumbent = some i → ∀ status,
    status = .optimal ∨ status = .feasible → S (t.solution status))
include hnone hsome

theorem conclude_stores {s : Scene α σ} (h : I s.tree) (fuel : Nat) :
    Runs (conclude c fuel) s (fun r _ => S r.2) fun _ => True := by
  have hsolution : ∀ {t : Tree α} (code : ReturnCode), I t →
      S (t.solution (verdict code t.incumbent.isSome)) := by
    intro t code ht
    cases hi : t.incumbent with
    | some i =>
      refine hsome ht hi _ ?_
      rw [Option.isSome_some]
      simp only [verdict, if_true]
      split_ifs <;> simp
    | none =>
      have hblank : ∀ status, t.solution status = { status := status } := by
        intro status
        rw [Tree.solution, hi]
      rw [hblank, Option.isSome_none]
      simp only [verdict, Bool.false_eq_true, if_false]
      split_ifs <;> exact hnone _ (by simp) (by simp)
  unfold conclude
  refine Runs.bind (P := fun _ s' => I s'.tree) (.of_ok rfl h) fun t s h => ?_
  refine Runs.detour (I := fun s => I s.tree) h (fun hrest => ?_) fun s h => ?_
  · refine Runs.bind (P := fun _ s' => I s'.tree) (.of_ok rfl h) fun t s h => ?_
    exact ((Keeps.ofTask _).runs h).bind fun _ s h => hrest s h
  refine Runs.detour (I := fun s => I s.tree) h (fun hrest => ?_) fun s h => ?_
  · refine (hI.presolved_keeps h).bind fun r s ⟨h, hr⟩ => ?_
    cases r with
    | none => exact hrest s h
    | some r => exact .pure (hnone _ (hr _ _ rfl).1 (hr _ _ rfl).2)
  refine ((Keeps.of_lasts (hI.upholds.explore fuel)).runs h).bind fun code s h => ?_
  refine Runs.bind (P := fun t _ => I t) (.of_ok rfl h) fun t s ht => ?_
  dsimp only
  split
  · exact .onward fun _ s => .pure (hsolution code ht)
  · exact .onward fun _ s => .pure (hsolution code ht)
  · exact .pure (hsolution code ht)

/-- What a search stores. -/
theorem intopt_stores {params : Parameter.Search α} {p : Problem α}
    (hstart : ∀ now, I (Tree.ofProblem params p now)) (fuel : Nat) :
    Task.Keeps (fun _ => True) (intopt c params fuel p) fun r => S r.1.integer := by
  have hrefused : ∀ code : ReturnCode, Task.Keeps (fun _ => True)
      (pure (p.withInteger {}, code) : Task α σ (Problem α × ReturnCode)) fun r => S r.1.integer :=
    fun code => .pure (hnone _ (by simp) (by simp))
  unfold intopt
  refine (Task.Keeps.any _).bind fun o _ => ?_
  split
  · exact (Task.Keeps.any _).bind fun _ _ => hrefused _
  split
  · exact (Task.Keeps.any _).bind fun _ _ => hrefused _
  refine (Task.Keeps.any _).bind fun now _ =>
    Task.Keeps.bind (P := fun r => S r.2) (fun s _ => ?_) fun r h => .pure h
  have hconclude := hI.conclude_stores hnone hsome (s := ⟨s, Tree.ofProblem params p now⟩)
    (hstart now) fuel
  unfold Runs at hconclude ⊢
  dsimp only
  cases hrun : conclude c fuel ⟨s, Tree.ofProblem params p now⟩ with
  | ok r scene =>
    rw [hrun] at hconclude
    exact ⟨hconclude, trivial⟩
  | error e scene => trivial

end Invariant

/-- A search with a listener that lets columns and incumbents be has whole points. -/
theorem invariant_whole {c : Company α σ} {kinds : List ColumnKind}
    (hc : ∀ hear, c.listener = some hear → SearchTask.Spares hear) :
    Invariant c (Tree.Whole kinds) where
  alike h h' := h.congr (congrArg Problem.columns h'.problem) h'.incumbent
  activate h ht := h.activate ht
  relaxed {t} settings session h := by
    refine ((simplex_writes c.host t.problem settings session trivial).imp ?_).weaken
      fun _ _ => trivial
    rintro ⟨_, code⟩ _ ⟨⟨b, rfl⟩, -⟩
    exact h.congr rfl rfl
  recorded h hi := ⟨h.columns, by rintro _ ⟨⟩; exact h.candidate hi⟩
  hear hear hlistener s h := by
    have hspares := hc hear hlistener s.tree.problem.columns s.tree.incumbent s ⟨rfl, rfl⟩
    exact (hspares.imp fun _ s' hs' => h.congr hs'.1 hs'.2).weaken fun s' hs' => h.congr hs'.1 hs'.2

end Search

/-- Whatever the solver answers and whatever a listener does that lets columns and incumbent be:
the point that a search stores is whole at the integer columns. -/
theorem intopt_whole {c : Search.Company α σ}
    (hc : ∀ hear, c.listener = some hear → SearchTask.Spares hear)
    (params : Parameter.Search α) (fuel : Nat) (p : Problem α) :
    Task.Keeps (fun _ => True) (intopt c params fuel p)
      fun r => r.1.integer.Whole (p.columns.map (·.kind)) := by
  have hstart : ∀ now, (Tree.ofProblem params p now).Whole (p.columns.map (·.kind)) :=
    fun now => ⟨rfl, fun i hi => nomatch hi⟩
  refine (Search.invariant_whole hc).intopt_stores (fun status hoptimal hfeasible hstatus => ?_)
    (fun {t i} h hi status _ _ => ?_) hstart fuel
  · exact absurd hstatus (not_or.2 ⟨hoptimal, hfeasible⟩)
  · rw [Tree.solution, hi]
    exact h.incumbent i hi

end MixedInteger
