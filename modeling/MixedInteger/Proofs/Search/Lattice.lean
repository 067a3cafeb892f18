import MixedInteger.Proofs.Number.Valued
import MixedInteger.Proofs.Problem.Row
import MixedInteger.Search.Branching
import Mathlib.Data.Int.ConditionallyCompleteOrder
import Mathlib.Data.Int.Interval
import Mathlib.Data.Pi.Interval
import Mathlib.Order.Interval.Finset.Defs

/-! The integer points that a node may still lead to. A node has whole bounds for every integer
column, its own or those at the root. Splitting it at a value that is not an integer splits the
integer points within its bounds in two, and neither part is empty. -/

namespace MixedInteger

open Scalar ValuedScalar Finset

variable {α : Type} [Scalar α]

namespace Problem

/-- The place of an integer column. -/
abbrev Place (p : Problem α) : Type := { j : Fin p.columns.length // p.columns[j].kind = .integer }

namespace Place

variable {p : Problem α} (j : p.Place)

def column : Column α := p.columns[j.1]

/-- The number of the column. -/
def number : ℕ := j.1.1 + 1

end Place

/-- The integer points between the bounds of the integer columns. -/
noncomputable def lattice (p : Problem α) : Finset (p.Place → ℤ) :=
  Icc (fun j => floorInt j.column.lower) fun j => floorInt j.column.upper

theorem card_lattice (p : Problem α) :
    p.lattice.card =
      ∏ j : p.Place, (floorInt j.column.upper + 1 - floorInt j.column.lower).toNat := by
  rw [lattice, Pi.card_Icc]
  exact Finset.prod_congr rfl fun j _ => Int.card_Icc _ _

/-- The integer columns have finite bounds, which are integers and are not crossed. -/
structure Bounded [ValuedScalar α] (p : Problem α) : Prop where
  lower : ∀ c ∈ p.columns, c.kind = .integer → IsIntegral c.lower
  upper : ∀ c ∈ p.columns, c.kind = .integer → IsIntegral c.upper
  ordered : ∀ c ∈ p.columns, c.kind = .integer → c.lower ≤ c.upper

variable {p : Problem α}

theorem Place.number_inj {i j : p.Place} : i.number = j.number ↔ i = j := by
  simp [Place.number, Subtype.ext_iff, Fin.ext_iff]

theorem Place.mem (j : p.Place) : j.column ∈ p.columns := List.getElem_mem _

end Problem

namespace Node

variable {p : Problem α} {n m : Node α}

/-- The bounds of an integer column below a node. -/
def sides (n : Node α) (j : p.Place) : α × α :=
  (n.boxes.lookup j.number).getD (j.column.lower, j.column.upper)

variable (p) in
/-- The integer points between the bounds of a node. -/
noncomputable def lattice (n : Node α) : Finset (p.Place → ℤ) :=
  Icc (fun j => floorInt (n.sides j).1) fun j => floorInt (n.sides j).2

variable (p) in
/-- A node narrows integer columns, each once, to integers that are not crossed. -/
structure Whole [ValuedScalar α] (n : Node α) : Prop where
  columns : ∀ e ∈ n.boxes, ∃ j : p.Place, e.1 = j.number
  nodup : (n.boxes.map (·.1)).Nodup
  lower : ∀ j : p.Place, IsIntegral (n.sides j).1
  upper : ∀ j : p.Place, IsIntegral (n.sides j).2
  ordered : ∀ j : p.Place, floorInt (n.sides j).1 ≤ floorInt (n.sides j).2

theorem mem_lattice {z : p.Place → ℤ} : z ∈ n.lattice p ↔
    ∀ j, floorInt (n.sides j).1 ≤ z j ∧ z j ≤ floorInt (n.sides j).2 := by
  simp [lattice, Pi.le_def, forall_and]

/-! ### The root -/

theorem sides_root (hn : n.boxes = []) (j : p.Place) :
    n.sides j = (j.column.lower, j.column.upper) := by
  rw [sides, hn]
  rfl

theorem lattice_root (hn : n.boxes = []) : n.lattice p = p.lattice := by
  simp only [lattice, sides_root hn, Problem.lattice]

variable [ValuedScalar α]

theorem whole_root (hp : p.Bounded) (hn : n.boxes = []) : n.Whole p where
  columns e he := by simp [hn] at he
  nodup := by simp [hn]
  lower j := by
    rw [sides_root hn]
    exact hp.lower _ j.mem j.2
  upper j := by
    rw [sides_root hn]
    exact hp.upper _ j.mem j.2
  ordered j := by
    have hl := hp.lower _ j.mem j.2
    have hu := hp.upper _ j.mem j.2
    have hle := (le_iff hl.1 hu.1).1 (hp.ordered _ j.mem j.2)
    rw [hl.value_eq, hu.value_eq] at hle
    rw [sides_root hn]
    exact_mod_cast hle

theorem Whole.lattice_nonempty (h : n.Whole p) : (n.lattice p).Nonempty :=
  nonempty_Icc.2 h.ordered

/-- Only the boxes of a node matter. -/
theorem Whole.congr (h : n.Whole p) (hm : m.boxes = n.boxes) : m.Whole p := by
  have hsides : ∀ j : p.Place, m.sides j = n.sides j := fun j => by rw [sides, hm, sides]
  exact
    { columns := by rw [hm]; exact h.columns
      nodup := by rw [hm]; exact h.nodup
      lower := fun j => by rw [hsides]; exact h.lower j
      upper := fun j => by rw [hsides]; exact h.upper j
      ordered := fun j => by rw [hsides]; exact h.ordered j }

omit [ValuedScalar α] in
theorem lattice_congr (hm : m.boxes = n.boxes) : m.lattice p = n.lattice p := by
  simp only [lattice, sides, hm]

/-! ### Children -/

section Children

variable {j : p.Place} {b : α × α}
  (hm : m.boxes = (n.boxes.filter fun e => e.1 != j.number) ++ [(j.number, b)])
include hm

omit [ValuedScalar α] in
/-- One more decision changes the bounds of one column. -/
theorem sides_child (i : p.Place) : m.sides i = if i = j then b else n.sides i := by
  rw [sides, hm, lookup_replaced]
  by_cases hij : i = j
  · rw [if_pos hij, if_pos (Problem.Place.number_inj.2 hij)]
    rfl
  · rw [if_neg hij, if_neg (mt Problem.Place.number_inj.1 hij)]
    rfl

theorem Whole.child (h : n.Whole p) (hl : IsIntegral b.1) (hu : IsIntegral b.2)
    (hle : floorInt b.1 ≤ floorInt b.2) : m.Whole p where
  columns e he := by
    rw [hm, List.mem_append, List.mem_singleton] at he
    rcases he with he | rfl
    · exact h.columns e (List.mem_filter.1 he).1
    · exact ⟨j, rfl⟩
  nodup := by
    rw [hm]
    exact nodup_replaced h.nodup j.number b
  lower i := by
    rw [sides_child hm]
    split_ifs
    · exact hl
    · exact h.lower i
  upper i := by
    rw [sides_child hm]
    split_ifs
    · exact hu
    · exact h.upper i
  ordered i := by
    rw [sides_child hm]
    split_ifs
    · exact hle
    · exact h.ordered i

omit [ValuedScalar α] in
/-- With a lesser upper bound the points above it are left out. -/
theorem lattice_below (hl : b.1 = (n.sides j).1) (hu : floorInt b.2 ≤ floorInt (n.sides j).2) :
    m.lattice p = (n.lattice p).filter fun z => z j ≤ floorInt b.2 := by
  ext z
  rw [mem_filter, mem_lattice, mem_lattice]
  simp only [sides_child hm]
  constructor
  · intro h
    have hj := h j
    rw [if_pos rfl] at hj
    refine ⟨fun i => ?_, hj.2⟩
    by_cases hij : i = j
    · subst hij
      exact ⟨hl ▸ hj.1, hj.2.trans hu⟩
    · simpa [hij] using h i
  · rintro ⟨h, hz⟩ i
    by_cases hij : i = j
    · subst hij
      rw [if_pos rfl]
      exact ⟨hl ▸ (h i).1, hz⟩
    · rw [if_neg hij]
      exact h i

omit [ValuedScalar α] in
/-- With a greater lower bound the points below it are left out. -/
theorem lattice_above (hl : floorInt (n.sides j).1 ≤ floorInt b.1) (hu : b.2 = (n.sides j).2) :
    m.lattice p = (n.lattice p).filter fun z => floorInt b.1 ≤ z j := by
  ext z
  rw [mem_filter, mem_lattice, mem_lattice]
  simp only [sides_child hm]
  constructor
  · intro h
    have hj := h j
    rw [if_pos rfl] at hj
    refine ⟨fun i => ?_, hj.1⟩
    by_cases hij : i = j
    · subst hij
      exact ⟨hl.trans hj.1, hu ▸ hj.2⟩
    · simpa [hij] using h i
  · rintro ⟨h, hz⟩ i
    by_cases hij : i = j
    · subst hij
      rw [if_pos rfl]
      exact ⟨hz, hu ▸ (h i).2⟩
    · rw [if_neg hij]
      exact h i

end Children

/-! ### Splitting -/

/-- Two nodes below and above a value that is no integer share out the points of their parent. -/
structure Shares (p : Problem α) (n down up : Node α) : Prop where
  whole_down : down.Whole p
  whole_up : up.Whole p
  card : (down.lattice p).card + (up.lattice p).card = (n.lattice p).card

theorem Whole.shares (h : n.Whole p) {j : p.Place} {v : α} (hv : isFinite v = true)
    (hfraction : ¬IsIntegral v) (hlower : (n.sides j).1 ≤ v) (hupper : v ≤ (n.sides j).2)
    {down up : Node α}
    (hdown : down.boxes = (n.boxes.filter fun e => e.1 != j.number) ++
      [(j.number, ((n.sides j).1, ofInt (floorInt v)))])
    (hup : up.boxes = (n.boxes.filter fun e => e.1 != j.number) ++
      [(j.number, (ofInt (ceilInt v), (n.sides j).2))]) : n.Shares p down up := by
  have hfloor : floorInt (n.sides j).1 ≤ ⌊value v⌋ := (h.lower j).le_floor hv hlower
  have hceil : ⌈value v⌉ ≤ floorInt (n.sides j).2 := (h.upper j).ceil_le hv hupper
  have hnext : ⌈value v⌉ = ⌊value v⌋ + 1 := ceil_eq_floor_add_one hv hfraction
  have hbelow := floorInt_floor hv
  have habove := floorInt_ceil hv
  refine ⟨?_, ?_, ?_⟩
  · refine h.child hdown (h.lower j) (isIntegral_floor hv) ?_
    dsimp only
    rw [hbelow]
    exact hfloor
  · refine h.child hup (isIntegral_ceil hv) (h.upper j) ?_
    dsimp only
    rw [habove]
    exact hceil
  · rw [lattice_below hdown rfl (by dsimp only; omega),
      lattice_above hup (by dsimp only; omega) rfl]
    dsimp only
    rw [hbelow, habove, hnext, ← card_filter_add_card_filter_not (s := n.lattice p)
      fun z => z j ≤ ⌊value v⌋]
    refine congrArg _ (congrArg _ (filter_congr fun z _ => ?_))
    omega

end Node

end MixedInteger
