import MixedInteger.Proofs.Problem.Edit
import MixedInteger.Proofs.Problem.Point
import MixedInteger.Proofs.Problem.Row
import MixedInteger.Proofs.Steps
import MixedInteger.Search.Tree

/-! Nodes and their boxes. A node narrows integer columns only, to bounds that are again whole,
and never leaves the bounds at the root. When it is taken in hand the working problem gets the
bounds of its box, whatever node was in hand before, and nothing else of the working problem
ever changes. -/

namespace MixedInteger

open Extended Finset

/-! ### Boxes -/

/-- The values of the first columns keep to bounds, which are given for every column. -/
def InBox (n : ℕ) (box : ℕ → Extended × Extended) (x : ℕ → ℚ) : Prop :=
  ∀ j < n, (box j).1 ≤ rat (x j) ∧ rat (x j) ≤ (box j).2

theorem WholeBounds.proper {lower upper : Extended} (h : Problem.WholeBounds lower upper) :
    Problem.ProperBounds lower upper := by
  refine ⟨h.1.imp_right ?_, h.2.imp_right ?_⟩
  all_goals
    rintro ⟨k, rfl⟩
    exact isRat_rat _

namespace Problem

def rootBox (p : Problem Extended) (j : ℕ) : Extended × Extended :=
  (p.columns.map fun c => (c.lower, c.upper)).getD j (0, 0)

theorem rootBox_eq {p : Problem Extended} {j : ℕ} {c : Column Extended}
    (hc : p.columns[j]? = some c) : p.rootBox j = (c.lower, c.upper) := by
  simp [rootBox, hc]

/-- A problem with other bounds of columns, and else the same data. -/
structure Boxed (q p : Problem Extended) (box : ℕ → Extended × Extended) : Prop where
  direction : q.direction = p.direction
  constant : q.constant = p.constant
  rows : q.rows = p.rows
  columns : ∀ j, (q.columns[j]?).map (fun c => (c.kind, c.cost, c.lower, c.upper)) =
    (p.columns[j]?).map fun c => (c.kind, c.cost, box j)
  /-- Bounds that are in order are crossed only if they were so before. -/
  crossed : ∀ {j c}, q.columns[j]? = some c → (box j).1 ≤ (box j).2 →
    Problem.crossed c.bound c.lower c.upper = true →
      ∃ d, p.columns[j]? = some d ∧ Problem.crossed d.bound d.lower d.upper = true

namespace Boxed

variable {q p : Problem Extended} {box : ℕ → Extended × Extended}

theorem refl (p : Problem Extended) : p.copy.Boxed p p.rootBox where
  direction := rfl
  constant := rfl
  rows := rfl
  columns j := by
    change (p.columns[j]?).map _ = _
    cases hc : p.columns[j]? with
    | none => rfl
    | some c => simp [rootBox_eq hc]
  crossed hc _ hcrossed := ⟨_, hc, hcrossed⟩

/-- Solutions are not data. -/
theorem withBasic (h : q.Boxed p box) (b : Solution Extended) :
    ({ q with basic := b } : Problem Extended).Boxed p box :=
  ⟨h.direction, h.constant, h.rows, h.columns, h.crossed⟩

variable (h : q.Boxed p box)
include h

theorem column {j : ℕ} {c : Column Extended} (hc : q.columns[j]? = some c) :
    ∃ d, p.columns[j]? = some d ∧ c.kind = d.kind ∧ c.cost = d.cost ∧
      (c.lower, c.upper) = box j := by
  have hcol := h.columns j
  rw [hc] at hcol
  cases hd : p.columns[j]? with
  | none => simp [hd] at hcol
  | some d =>
    simp only [hd, Option.map_some, Option.some.injEq, Prod.mk.injEq] at hcol
    exact ⟨d, rfl, hcol⟩

theorem columnCount : q.columnCount = p.columnCount := by
  have hnone : ∀ j, q.columns.length ≤ j ↔ p.columns.length ≤ j := by
    intro j
    have hcol := congrArg Option.isNone (h.columns j)
    rw [Option.isNone_map, Option.isNone_map, Bool.eq_iff_iff, Option.isNone_iff_eq_none,
      Option.isNone_iff_eq_none, List.getElem?_eq_none_iff, List.getElem?_eq_none_iff] at hcol
    exact hcol
  have h₁ := (hnone q.columns.length).1 le_rfl
  have h₂ := (hnone p.columns.length).2 le_rfl
  exact le_antisymm h₂ h₁

theorem integers : q.integers = p.integers := by
  unfold Problem.integers Problem.isInteger
  rw [h.columnCount]
  refine filter_congr fun j _ => ?_
  have := congrArg (fun o => o.any fun e => decide (e.1 = ColumnKind.integer)) (h.columns j)
  simp only [Option.any_map] at this
  exact iff_of_eq (congrArg (· = true) this)

theorem costAt : q.costAt = p.costAt := by
  funext j
  have := congrArg (fun o => (o.map fun e => e.2.1.value).getD 0) (h.columns j)
  simp only [Option.map_map] at this
  exact this

theorem valueOf : q.valueOf = p.valueOf := by
  funext x
  unfold Problem.valueOf
  rw [h.constant, h.columnCount, h.costAt]

theorem sign : q.sign = p.sign := by
  unfold Problem.sign
  rw [h.direction]

theorem relaxed_iff {x : ℕ → ℚ} : q.Relaxed x ↔
    InBox p.columnCount box x ∧ ∀ r ∈ p.rows, r.Holds p.columnCount x := by
  constructor
  · intro hx
    refine ⟨fun j hj => ?_, fun r hr => ?_⟩
    · rw [← h.columnCount] at hj
      have hc : q.columns[j]? = some q.columns[j] := List.getElem?_eq_getElem hj
      obtain ⟨-, -, -, -, hbox⟩ := h.column hc
      rw [← hbox]
      exact hx.within hc
    · rw [← h.columnCount]
      exact hx.holds r (h.rows ▸ hr)
  · rintro ⟨hbox, hrows⟩
    refine ⟨fun {j c} hc => ?_, fun r hr => ?_⟩
    · have hj : j < q.columnCount := (List.getElem?_eq_some_iff.1 hc).1
      rw [h.columnCount] at hj
      obtain ⟨-, -, -, -, heq⟩ := h.column hc
      have := hbox j hj
      rwa [← heq] at this
    · rw [h.columnCount]
      exact hrows r (h.rows ▸ hr)

/-- A box of proper bounds keeps the data rational. -/
theorem rational (hp : p.Rational) (hproper : ∀ j < p.columnCount, ProperBounds (box j).1 (box j).2)
    (hwhole : ∀ j ∈ p.integers, WholeBounds (box j).1 (box j).2) : q.Rational where
  constant := h.constant ▸ hp.constant
  cost c hc := by
    obtain ⟨j, hj⟩ := List.mem_iff_getElem?.1 hc
    obtain ⟨d, hd, -, hcost, -⟩ := h.column hj
    exact hcost ▸ hp.cost d (List.mem_of_getElem? hd)
  proper c hc := by
    obtain ⟨j, hj⟩ := List.mem_iff_getElem?.1 hc
    obtain ⟨d, hd, -, -, heq⟩ := h.column hj
    have := hproper j (List.getElem?_eq_some_iff.1 hd).1
    rwa [← heq] at this
  whole c hc hk := by
    obtain ⟨j, hj⟩ := List.mem_iff_getElem?.1 hc
    obtain ⟨d, hd, hkind, -, heq⟩ := h.column hj
    have := hwhole j (mem_integers.2 ⟨d, hd, hkind ▸ hk⟩)
    rwa [← heq] at this
  rows := h.rows ▸ hp.rows

/-- When the box is in order no bounds become crossed. -/
theorem badBounds (hp : p.badBounds = none)
    (hordered : ∀ j < p.columnCount, (box j).1 ≤ (box j).2) : q.badBounds = none := by
  rw [badBounds_eq_none_iff] at hp ⊢
  rw [h.rows]
  refine ⟨fun c hc => ?_, hp.2⟩
  obtain ⟨j, hj⟩ := List.mem_iff_getElem?.1 hc
  obtain ⟨d, hd, -⟩ := h.column hj
  by_contra hcrossed
  obtain ⟨d', hd', hbefore⟩ := h.crossed hj (hordered j (List.getElem?_eq_some_iff.1 hd).1)
    (Bool.not_eq_false _ ▸ hcrossed)
  rw [hp.1 d' (List.mem_of_getElem? hd')] at hbefore
  cases hbefore

end Boxed

/-- A point of the relaxation keeps to the bounds at the root and to the rows. -/
theorem relaxed_iff {p : Problem Extended} {x : ℕ → ℚ} : p.Relaxed x ↔
    InBox p.columnCount p.rootBox x ∧ ∀ r ∈ p.rows, r.Holds p.columnCount x := by
  rw [← (Boxed.refl p).relaxed_iff]
  exact ⟨fun h => ⟨h.within, h.holds⟩, fun h => ⟨h.within, h.holds⟩⟩

/-! ### Setting bounds -/

/-- The kind that a box gets leaves its two sides as they are. -/
theorem sides_boxKind {lower upper : Extended} (h : ProperBounds lower upper) :
    (boxKind lower upper).sides lower upper = (lower, upper) := by
  obtain ⟨hl, hu⟩ := h
  unfold boxKind
  rcases hl with rfl | hl <;> rcases hu with rfl | hu
  · rfl
  · rw [hu.eq]
    rfl
  · rw [hl.eq]
    rfl
  · rw [hl.eq, hu.eq, rat_beq_rat]
    split_ifs with heq
    · rw [decide_eq_true_eq] at heq
      rw [heq]
      rfl
    · rfl

/-- Bounds in order get a kind with which they are not crossed. -/
theorem crossed_boxKind {lower upper : Extended} (h : lower ≤ upper) :
    crossed (boxKind lower upper) lower upper = false := by
  unfold crossed boxKind
  cases heq : lower == upper with
  | true => rfl
  | false =>
    have hlt : lower < upper := OrderedScalar.lt_iff.2 ⟨h, fun hge => by
      rw [OrderedScalar.beq_iff.2 ⟨h, hge⟩] at heq
      cases heq⟩
    simp [hlt]

/-- Crossed bounds are not refused here. -/
theorem setBox_of_getElem {q : Problem Extended} {j : ℕ} {c : Column Extended}
    (hc : q.columns[j]? = some c) {b : Extended × Extended} (hb : ProperBounds b.1 b.2) :
    Tree.setBox q (j + 1) b = .ok { q with columns := q.columns.modify j fun c =>
      { c with bound := boxKind b.1 b.2, lower := b.1, upper := b.2 } } := by
  have hset := setColumnBounds_of_getElem (p := { q with strict := false }) hc
    (boxKind b.1 b.2) b.1 b.2
  rw [sides_boxKind hb] at hset
  simp only [Tree.setBox, leniently, hset]
  rfl

/-- Setting the bounds of one column changes the box there. -/
theorem Boxed.setBox {p q : Problem Extended} {box : ℕ → Extended × Extended} (h : q.Boxed p box)
    {j : ℕ} (hj : j < p.columnCount) {b : Extended × Extended} (hb : ProperBounds b.1 b.2) :
    ∃ q', Tree.setBox q (j + 1) b = .ok q' ∧ q'.Boxed p (Function.update box j b) := by
  rw [← h.columnCount] at hj
  have hc : q.columns[j]? = some q.columns[j] := List.getElem?_eq_getElem hj
  refine ⟨_, setBox_of_getElem hc hb, h.direction, h.constant, h.rows, fun i => ?_, ?_⟩
  · have hcol := h.columns i
    rw [List.getElem?_modify]
    by_cases hij : j = i
    · subst hij
      obtain ⟨d, hd, hkind, hcost, -⟩ := h.column hc
      simp [hc, hd, hkind, hcost]
    · rw [Function.update_of_ne (Ne.symm hij), ← hcol]
      simp [hij]
  · intro i c' hc' hordered hcrossed
    rw [List.getElem?_modify] at hc'
    by_cases hij : j = i
    · subst hij
      rw [Function.update_self] at hordered
      obtain rfl : _ = c' := by simpa [hc] using hc'
      rw [crossed_boxKind hordered] at hcrossed
      cases hcrossed
    · rw [Function.update_of_ne (Ne.symm hij)] at hordered
      simp only [if_neg hij, Option.map_eq_map, Option.map_id'] at hc'
      exact h.crossed hc' hordered hcrossed

/-- Setting bounds one after another ends in a box when every entry agrees with it and it is
the old one elsewhere. -/
theorem Boxed.setBoxes {p : Problem Extended} {target : ℕ → Extended × Extended} :
    ∀ {q : Problem Extended} {box : ℕ → Extended × Extended}
      {es : List (ℕ × (Extended × Extended))}, q.Boxed p box →
      (∀ e ∈ es, ∃ j < p.columnCount, e = (j + 1, target j) ∧
        ProperBounds (target j).1 (target j).2) →
      (∀ j, j + 1 ∉ es.map (·.1) → box j = target j) →
      ∃ q', Tree.setBoxes q es = .ok q' ∧ q'.Boxed p target := by
  intro q box es h hes hrest
  induction es generalizing q box with
  | nil =>
    obtain rfl : box = target := funext fun j => hrest j (by simp)
    exact ⟨q, rfl, h⟩
  | cons e es ih =>
    obtain ⟨j, hj, rfl, hproper⟩ := hes e List.mem_cons_self
    obtain ⟨q₁, hset, h₁⟩ := h.setBox hj hproper
    obtain ⟨q', hq', h'⟩ := ih h₁ (fun e he => hes e (List.mem_cons_of_mem _ he)) fun i hi => by
      by_cases hij : i = j
      · rw [hij, Function.update_self]
      · rw [Function.update_of_ne hij]
        refine hrest i fun hmem => ?_
        rw [List.map_cons, List.mem_cons] at hmem
        exact hmem.elim (fun heq => hij (by omega)) hi
    refine ⟨q', ?_, h'⟩
    unfold Tree.setBoxes at hq' ⊢
    rw [List.foldlM_cons, hset]
    exact hq'

end Problem

/-! ### Nodes -/

namespace Problem

variable {p : Problem Extended} (hp : p.Rational) {j : ℕ}
include hp

theorem Rational.proper_rootBox (hj : j < p.columnCount) :
    ProperBounds (p.rootBox j).1 (p.rootBox j).2 := by
  have hc : p.columns[j]? = some p.columns[j] := List.getElem?_eq_getElem hj
  rw [rootBox_eq hc]
  exact hp.proper _ (List.mem_of_getElem? hc)

theorem Rational.whole_rootBox (hj : j ∈ p.integers) :
    WholeBounds (p.rootBox j).1 (p.rootBox j).2 := by
  obtain ⟨c, hc, hk⟩ := mem_integers.1 hj
  rw [rootBox_eq hc]
  exact hp.whole c (List.mem_of_getElem? hc) hk

end Problem

namespace Node

/-- The bounds of the columns below a node. -/
def box (n : Node Extended) (p : Problem Extended) (j : ℕ) : Extended × Extended :=
  (n.boxes.lookup (j + 1)).getD (p.rootBox j)

/-- The boxes of a node are those of distinct integer columns, they are not crossed, and they
narrow the bounds at the root. -/
structure Valid (p : Problem Extended) (n : Node Extended) : Prop where
  columns : ∀ e ∈ n.boxes, ∃ j ∈ p.integers, e.1 = j + 1
  nodup : (n.boxes.map (·.1)).Nodup
  whole : ∀ e ∈ n.boxes, Problem.WholeBounds e.2.1 e.2.2
  ordered : ∀ e ∈ n.boxes, e.2.1 ≤ e.2.2
  inside : ∀ x, InBox p.columnCount (n.box p) x → InBox p.columnCount p.rootBox x

theorem box_of_notMem {n : Node Extended} {p : Problem Extended} {j : ℕ}
    (h : j + 1 ∉ n.boxes.map (·.1)) : n.box p j = p.rootBox j := by
  have hnone : n.boxes.lookup (j + 1) = none := by
    rw [List.lookup_eq_none_iff]
    intro e he
    rw [bne_iff_ne]
    intro heq
    exact h (List.mem_map.2 ⟨e, he, heq.symm⟩)
  rw [box, hnone]
  rfl

namespace Valid

variable {p : Problem Extended} {n : Node Extended} (hn : n.Valid p)
include hn

theorem box_of_mem {j : ℕ} {b : Extended × Extended} (he : (j + 1, b) ∈ n.boxes) :
    n.box p j = b := by
  rw [box, (lookup_eq_some_iff_mem hn.nodup).2 he]
  rfl

/-- The box at a column is an entry, or the one at the root. -/
theorem mem_or_root (j : ℕ) : (j + 1, n.box p j) ∈ n.boxes ∨ n.box p j = p.rootBox j := by
  by_cases h : j + 1 ∈ n.boxes.map (·.1)
  · obtain ⟨⟨i, b⟩, he, rfl⟩ := List.mem_map.1 h
    rw [hn.box_of_mem he]
    exact .inl he
  · exact .inr (box_of_notMem h)

theorem box_of_notMem_integers {j : ℕ} (hj : j ∉ p.integers) : n.box p j = p.rootBox j := by
  refine (hn.mem_or_root j).resolve_left fun he => ?_
  obtain ⟨i, hi, heq⟩ := hn.columns _ he
  rw [Nat.add_right_cancel_iff] at heq
  exact hj (heq ▸ hi)

theorem whole_box (hp : p.Rational) {j : ℕ} (hj : j ∈ p.integers) :
    Problem.WholeBounds (n.box p j).1 (n.box p j).2 := by
  rcases hn.mem_or_root j with he | heq
  · exact hn.whole _ he
  · rw [heq]
    exact hp.whole_rootBox hj

theorem proper_box (hp : p.Rational) {j : ℕ} (hj : j < p.columnCount) :
    Problem.ProperBounds (n.box p j).1 (n.box p j).2 := by
  rcases hn.mem_or_root j with he | heq
  · exact WholeBounds.proper (hn.whole _ he)
  · rw [heq]
    exact hp.proper_rootBox hj

/-- The relaxation of a node has rational data. -/
theorem rational (hp : p.Rational) {q : Problem Extended} (hq : q.Boxed p (n.box p)) :
    q.Rational :=
  hq.rational hp (fun _ hj => hn.proper_box hp hj) fun _ hj => hn.whole_box hp hj

end Valid

/-- The root narrows nothing. -/
theorem valid_root {p : Problem Extended} {n : Node Extended} (hn : n.boxes = []) : n.Valid p where
  columns e he := by simp [hn] at he
  nodup := by simp [hn]
  whole e he := by simp [hn] at he
  ordered e he := by simp [hn] at he
  inside x hx := by
    have hbox : n.box p = p.rootBox := funext fun j => box_of_notMem (by simp [hn])
    rwa [hbox] at hx

/-! ### Children -/

section Children
variable {p : Problem Extended} {n m : Node Extended} {j : ℕ} {b : Extended × Extended}
  (hm : m.boxes = (n.boxes.filter fun e => e.1 != j + 1) ++ [(j + 1, b)])
include hm

/-- One more decision changes the box at one column. -/
theorem box_child : m.box p = Function.update (n.box p) j b := by
  funext i
  unfold box
  rw [hm, lookup_replaced]
  by_cases hij : i = j
  · subst hij
    simp
  · rw [if_neg (by omega), Function.update_of_ne hij]

theorem valid_child (hn : n.Valid p) (hj : j ∈ p.integers) (hb : Problem.WholeBounds b.1 b.2)
    (hordered : b.1 ≤ b.2)
    (hinside : ∀ x : ℕ → ℚ, b.1 ≤ rat (x j) → rat (x j) ≤ b.2 →
      (n.box p j).1 ≤ rat (x j) ∧ rat (x j) ≤ (n.box p j).2) :
    m.Valid p ∧ ∀ x, InBox p.columnCount (m.box p) x → InBox p.columnCount (n.box p) x := by
  have hparent : ∀ x, InBox p.columnCount (m.box p) x → InBox p.columnCount (n.box p) x := by
    intro x hx i hi
    have hxi := hx i hi
    rw [box_child hm] at hxi
    by_cases hij : i = j
    · subst hij
      rw [Function.update_self] at hxi
      exact hinside x hxi.1 hxi.2
    · rwa [Function.update_of_ne hij] at hxi
  have hmem : ∀ e ∈ m.boxes, e ∈ n.boxes ∨ e = (j + 1, b) := by
    intro e he
    rw [hm, List.mem_append, List.mem_singleton] at he
    exact he.imp_left fun he => (List.mem_filter.1 he).1
  refine ⟨⟨fun e he => ?_, ?_, fun e he => ?_, fun e he => ?_,
    fun x hx => hn.inside x (hparent x hx)⟩, hparent⟩
  · obtain he | rfl := hmem e he
    · exact hn.columns e he
    · exact ⟨j, hj, rfl⟩
  · rw [hm]
    exact nodup_replaced hn.nodup (j + 1) b
  · obtain he | rfl := hmem e he
    · exact hn.whole e he
    · exact hb
  · obtain he | rfl := hmem e he
    · exact hn.ordered e he
    · exact hordered

end Children

end Node

/-! ### Taking a node in hand -/

namespace Tree

/-- The working problem has other bounds only in the columns that were touched. -/
structure Works (p : Problem Extended) (t : Tree Extended) : Prop where
  rootBounds : t.rootBounds = p.columns.map fun c => (c.lower, c.upper)
  touched : ∀ i ∈ t.touched, ∃ j ∈ p.integers, i = j + 1
  boxed : ∃ box, t.problem.Boxed p box ∧ ∀ j, j + 1 ∉ t.touched → box j = p.rootBox j

theorem Works.rootBound_eq {p : Problem Extended} {t : Tree Extended} (h : t.Works p) (j : ℕ) :
    t.rootBounds.getD (j + 1 - 1) (0, 0) = p.rootBox j := by
  rw [h.rootBounds, Nat.add_sub_cancel]
  rfl

/-- The boxes of a node replace those of the node before. -/
theorem Works.activate {p : Problem Extended} {t : Tree Extended} (h : t.Works p)
    (hp : p.Rational) {n : Node Extended} (hn : n.Valid p) :
    ∃ q, t.activate n = .ok { t with
        problem := q
        touched := n.boxes.map (·.1)
        current := some n.number } ∧ q.Boxed p (n.box p) := by
  obtain ⟨box, hbox, hrest⟩ := h.boxed
  have hinteger : ∀ j ∈ p.integers, j < p.columnCount := fun j hj =>
    mem_range.1 (mem_filter.1 hj).1
  have hback : ∀ e ∈ t.touched.map fun j => (j, t.rootBounds.getD (j - 1) (0, 0)),
      ∃ j < p.columnCount, e = (j + 1, p.rootBox j) ∧
        Problem.ProperBounds (p.rootBox j).1 (p.rootBox j).2 := by
    intro e he
    obtain ⟨i, hi, rfl⟩ := List.mem_map.1 he
    obtain ⟨j, hj, rfl⟩ := h.touched i hi
    refine ⟨j, hinteger j hj, ?_, hp.proper_rootBox (hinteger j hj)⟩
    rw [h.rootBound_eq]
  have hforth : ∀ e ∈ n.boxes, ∃ j < p.columnCount, e = (j + 1, n.box p j) ∧
      Problem.ProperBounds (n.box p j).1 (n.box p j).2 := by
    rintro ⟨i, b⟩ he
    obtain ⟨j, hj, rfl⟩ := hn.columns _ he
    refine ⟨j, hinteger j hj, ?_, hn.proper_box hp (hinteger j hj)⟩
    rw [hn.box_of_mem he]
  obtain ⟨q₁, hq₁, h₁⟩ := hbox.setBoxes hback fun j hj => hrest j (by simpa using hj)
  obtain ⟨q₂, hq₂, h₂⟩ := h₁.setBoxes hforth fun j hj => (Node.box_of_notMem hj).symm
  refine ⟨q₂, ?_, h₂⟩
  unfold Tree.activate
  simp only [hq₁, bind_ok, hq₂]
  rfl

end Tree

end MixedInteger
