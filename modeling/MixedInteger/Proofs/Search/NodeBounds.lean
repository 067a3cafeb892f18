import MixedInteger.Proofs.Number.Valued
import MixedInteger.Proofs.Problem.Calls
import MixedInteger.Proofs.Search.Choice
import MixedInteger.Proofs.Search.Whole

/-! The bounds of nodes. All nodes share one working problem, and taking a node in hand writes no
more than the columns that were touched for the node before and those in the boxes of the node. That
is enough: the columns that nobody has touched have the bounds that they have at the root. Branching
takes the bounds of one column from the node that is split, and lets them end below a value or begin
above it. -/

namespace MixedInteger

open Scalar ValuedScalar

variable {α : Type} [Scalar α]

/-! ### Bounds -/

/-- One number, or two that compare as equal: zero has two signs. -/
def Scalar.Same (a b : α) : Prop := a = b ∨ (a == b) = true

def Column.sides (c : Column α) : α × α := (c.lower, c.upper)

/-- The same bounds on both sides. -/
structure SameSides (b b' : α × α) : Prop where
  lower : Same b.1 b'.1
  upper : Same b.2 b'.2

theorem SameSides.refl (b : α × α) : SameSides b b := ⟨.inl rfl, .inl rfl⟩

/-- Each bound is an integer, or there is none on its side. -/
structure WholeSides [ValuedScalar α] (b : α × α) : Prop where
  lower : b.1 = -infinity ∨ IsIntegral b.1
  upper : b.2 = infinity ∨ IsIntegral b.2

/-- The bounds of a column at the root. -/
def sidesAtRoot (root : List (α × α)) (j : Nat) : α × α := root.getD (j - 1) (0, 0)

/-- The bounds of a column below a node: its box, or else the bounds at the root. -/
def Node.boundsAt (root : List (α × α)) (n : Node α) (j : Nat) : α × α :=
  (n.boxes.lookup j).getD (sidesAtRoot root j)

/-- A column that is there at the root, with whole bounds. -/
structure WholeAtRoot [ValuedScalar α] (root : List (α × α)) (j : Nat) : Prop where
  pos : 0 < j
  le : j ≤ root.length
  whole : WholeSides (sidesAtRoot root j)

theorem Node.boundsAt_of_notMem {root : List (α × α)} {n : Node α} {j : Nat}
    (h : j ∉ n.boxes.map (·.1)) : n.boundsAt root j = sidesAtRoot root j := by
  have hnone : n.boxes.lookup j = none := by
    rw [List.lookup_eq_none_iff]
    intro e he
    rw [bne_iff_ne]
    exact fun heq => h (List.mem_map.2 ⟨e, he, heq.symm⟩)
  rw [boundsAt, hnone]
  rfl

section
variable [ValuedScalar α]

/-- Whole bounds are stored as they are. -/
theorem WholeSides.stored {b : α × α} (h : WholeSides b) :
    SameSides ((boxKind b.1 b.2).sides b.1 b.2) b := by
  have hlower : isInf b.1 = true → b.1 = -infinity := fun hinf =>
    h.lower.resolve_right fun hl => by simp [(isFinite_iff.1 hl.1).2] at hinf
  have hupper : isInf b.2 = true → b.2 = infinity := fun hinf =>
    h.upper.resolve_right fun hu => by simp [(isFinite_iff.1 hu.1).2] at hinf
  unfold boxKind
  split_ifs with heq
  · exact ⟨.inl rfl, .inr heq⟩
  · cases hl : isInf b.1 <;> cases hu : isInf b.2
    · exact ⟨.inl rfl, .inl rfl⟩
    · exact ⟨.inl rfl, .inl (hupper hu).symm⟩
    · exact ⟨.inl (hlower hl).symm, .inl rfl⟩
    · exact ⟨.inl (hlower hl).symm, .inl (hupper hu).symm⟩

/-- The check before a search leaves integer columns with whole bounds. -/
theorem Column.wholeSides {c : Column α} {j : Nat} (h : c.fractionalBound j = .ok none)
    (hk : c.kind = .integer) (hsides : c.bound.Suits c.lower c.upper) : WholeSides c.sides := by
  have hchecked : ∀ {x : α} {o : Obstacle α} {rest : Except RoundingError (Option (Obstacle α))},
      (do
        let f ← Scalar.floor x
        if !(x == f) then return some o else rest) = .ok none →
      IsIntegral x ∧ rest = .ok none := by
    intro x o rest h
    obtain ⟨f, hf, h⟩ := except_bind_eq_ok.1 h
    obtain ⟨hfinite, rfl⟩ := isFinite_of_rounded hf
    split_ifs at h with heq
    · cases h
    · rw [Bool.not_eq_true', Bool.not_eq_false, floorInt_eq hfinite,
        beq_iff_value hfinite (isFinite_floor hfinite), value_floor hfinite] at heq
      exact ⟨⟨hfinite, _, heq⟩, h⟩
  unfold fractionalBound at h
  rw [if_neg (not_not.2 hk)] at h
  cases hb : c.bound <;> rw [hb] at h hsides <;>
    simp only [BoundKind.Suits, BoundKind.hasLower, BoundKind.hasUpper, Column.sides,
      Bool.false_eq_true, if_false, if_true] at h hsides ⊢
  · exact ⟨.inl hsides.1, .inl hsides.2⟩
  · exact ⟨.inr (hchecked h).1, .inl hsides⟩
  · exact ⟨.inl hsides, .inr (hchecked h).1⟩
  · exact ⟨.inr (hchecked h).1, .inr (hchecked (hchecked h).2).1⟩
  · exact ⟨.inr (hchecked h).1, .inr (hsides ▸ (hchecked h).1)⟩

end

/-! ### Setting bounds -/

namespace Problem

/-- The columns have given bounds, but for some that are listed. -/
def Bears (p : Problem α) (off : List Nat) (g : Nat → α × α) : Prop :=
  ∀ i c, p.columns[i]? = some c → i + 1 ∉ off → SameSides c.sides (g (i + 1))

variable {p q : Problem α} {off : List Nat} {g : Nat → α × α}

theorem setBox_eq_ok {j : Nat} {b : α × α} (h : Tree.setBox p j b = .ok q) :
    0 < j ∧ q = { p with columns := p.columns.modify (j - 1) fun c =>
      { c with
        bound := boxKind b.1 b.2
        lower := ((boxKind b.1 b.2).sides b.1 b.2).1
        upper := ((boxKind b.1 b.2).sides b.1 b.2).2 } } := by
  obtain ⟨r, hr, h⟩ := except_bind_eq_ok.1 h
  cases h
  obtain ⟨c, hc, hr⟩ := except_bind_eq_ok.1 hr
  have hj : 0 < j := by
    unfold column at hc
    split_ifs at hc
    omega
  dsimp only at hr
  split_ifs at hr
  cases hr
  have hindex : ((j : Int) - 1).toNat = j - 1 := by omega
  exact ⟨hj, by simp only [modifyColumn, hindex]⟩

/-- The bounds of a column that exists are never refused. -/
theorem exists_setBox {j : Nat} (hpos : 0 < j) (hle : j ≤ p.columnCount) (b : α × α) :
    ∃ q, Tree.setBox p j b = .ok q ∧ q.columnCount = p.columnCount := by
  obtain ⟨c, -, hc⟩ := column_of_range (p := { p with strict := false }) hpos hle
  refine ⟨_, except_bind_eq_ok.2 ⟨_, except_bind_eq_ok.2 ⟨c, hc, if_neg ?_⟩, rfl⟩, ?_⟩
  · simp [refuses]
  · simp [columnCount, modifyColumn]

theorem exists_setBoxes {es : List (Nat × (α × α))}
    (hes : ∀ e ∈ es, 0 < e.1 ∧ e.1 ≤ p.columnCount) :
    ∃ q, Tree.setBoxes p es = .ok q ∧ q.columnCount = p.columnCount := by
  induction es generalizing p with
  | nil => exact ⟨p, rfl, rfl⟩
  | cons e es ih =>
    rw [List.forall_mem_cons] at hes
    obtain ⟨q, hq, hcount⟩ := exists_setBox hes.1.1 hes.1.2 e.2
    obtain ⟨r, hr, hcount'⟩ := ih (p := q) fun e he => hcount ▸ hes.2 e he
    refine ⟨r, ?_, hcount'.trans hcount⟩
    unfold Tree.setBoxes
    rw [List.foldlM_cons]
    exact except_bind_eq_ok.2 ⟨q, hq, hr⟩

variable [ValuedScalar α]

theorem Bears.setBox {j : Nat} (h : p.Bears (j :: off) g) (hj : WholeSides (g j))
    (hq : Tree.setBox p j (g j) = .ok q) : q.Bears off g := by
  obtain ⟨hpos, rfl⟩ := setBox_eq_ok hq
  intro i c hc hoff
  rw [List.getElem?_modify] at hc
  obtain ⟨d, hd, rfl⟩ := Option.map_eq_some_iff.1 hc
  split_ifs with hij
  · have heq : i + 1 = j := by omega
    rw [heq]
    exact hj.stored
  · refine h i d hd fun hmem => ?_
    obtain heq | hmem := List.mem_cons.1 hmem
    · omega
    · exact hoff hmem

/-- Columns are given their bounds one after the other. -/
theorem Bears.setBoxes {es : List (Nat × (α × α))} (hes : ∀ e ∈ es, e.2 = g e.1 ∧ WholeSides e.2)
    (h : p.Bears (es.map (·.1) ++ off) g) (hq : Tree.setBoxes p es = .ok q) : q.Bears off g := by
  induction es generalizing p with
  | nil =>
    cases hq
    exact h
  | cons e es ih =>
    rw [List.forall_mem_cons] at hes
    unfold Tree.setBoxes at hq
    rw [List.foldlM_cons] at hq
    obtain ⟨r, hr, hq⟩ := except_bind_eq_ok.1 hq
    have hbox := hes.1.2
    rw [hes.1.1] at hr hbox
    exact ih hes.2 (h.setBox hbox hr) hq

end Problem

/-! ### Nodes with whole boxes -/

variable {root : List (α × α)}

/-- A node boxes columns once each; their boxes are whole, and so are their bounds at the root. -/
structure Node.Boxed [ValuedScalar α] (root : List (α × α)) (n : Node α) : Prop where
  nodup : (n.boxes.map (·.1)).Nodup
  box : ∀ e ∈ n.boxes, WholeSides e.2
  root : ∀ e ∈ n.boxes, WholeAtRoot root e.1

/-- A node has the bounds of its parent but in one column. There they end below a value or begin
above it; and if the value lies within the bounds of the parent, so does the box, which is not
empty. -/
structure Node.Tightens (root : List (α × α)) (n m : Node α) (f : Fraction α) (b : α × α) :
    Prop where
  parent : m.parent = n.number
  boxes : ∀ j, m.boxes.lookup j = if j = f.column then some b else n.boxes.lookup j
  box : b = ((n.boundsAt root f.column).1, f.below) ∨ b = (f.above, (n.boundsAt root f.column).2)
  within : (n.boundsAt root f.column).1 ≤ f.value → f.value ≤ (n.boundsAt root f.column).2 →
    (n.boundsAt root f.column).1 ≤ b.1 ∧ b.1 ≤ b.2 ∧ b.2 ≤ (n.boundsAt root f.column).2

section
variable [ValuedScalar α] {n : Node α}

theorem Node.Boxed.congr (h : n.Boxed root) {m : Node α} (hm : m.boxes = n.boxes) :
    m.Boxed root := ⟨hm ▸ h.nodup, hm ▸ h.box, hm ▸ h.root⟩

theorem Node.Boxed.boundsAt (h : n.Boxed root) {j : Nat} (hj : WholeSides (sidesAtRoot root j)) :
    WholeSides (n.boundsAt root j) := by
  rw [Node.boundsAt]
  cases hb : n.boxes.lookup j with
  | none => exact hj
  | some b => exact h.box _ ((lookup_eq_some_iff_mem h.nodup).1 hb)

theorem Node.Boxed.boundsAt_of_mem (h : n.Boxed root) {e : Nat × (α × α)} (he : e ∈ n.boxes) :
    n.boundsAt root e.1 = e.2 := by
  rw [Node.boundsAt, (lookup_eq_some_iff_mem h.nodup).2 he]
  rfl

/-- Taking a node in hand gives every column the bounds that it has below the node. -/
theorem Tree.bears_of_activate {t t' : Tree α} (hroot : t.rootBounds = root)
    (huntouched : t.problem.Bears t.touched (sidesAtRoot root))
    (htouched : ∀ j ∈ t.touched, WholeAtRoot root j) (hn : n.Boxed root)
    (h : t.activate n = .ok t') : t'.problem.Bears [] (n.boundsAt root) ∧
      t' = { t with
        problem := t'.problem
        touched := n.boxes.map (·.1)
        current := some n.number } := by
  obtain ⟨p, hp, h⟩ := except_bind_eq_ok.1 h
  obtain ⟨q, hq, h⟩ := except_bind_eq_ok.1 h
  cases h
  refine ⟨?_, rfl⟩
  have hback : p.Bears [] (sidesAtRoot root) := by
    refine Problem.Bears.setBoxes ?_ ?_ hp
    · refine List.forall_mem_map.2 fun j hj => ⟨by rw [hroot]; rfl, ?_⟩
      rw [hroot]
      exact (htouched j hj).whole
    · rw [List.map_map, List.append_nil]
      simpa [Function.comp_def] using huntouched
  have hforth : p.Bears (n.boxes.map (·.1) ++ []) (n.boundsAt root) := by
    intro i c hc hoff
    rw [List.append_nil] at hoff
    rw [Node.boundsAt_of_notMem hoff]
    exact hback i c hc List.not_mem_nil
  exact hforth.setBoxes (fun e he => ⟨(hn.boundsAt_of_mem he).symm, hn.box e he⟩) hq

end

/-! ### Branching -/

section
variable [ValuedScalar α] {b : α × α} {x : α}

/-- Bounds that end below a value, or begin above it, within whole bounds of the value. -/
theorem WholeSides.around (h : WholeSides b) (hx : isFinite x = true) (hl : b.1 ≤ x)
    (hu : x ≤ b.2) : b.1 ≤ ofInt (floorInt x) ∧ ofInt (ceilInt x) ≤ b.2 := by
  have hfloor := isIntegral_floor hx
  have hceil := isIntegral_ceil hx
  constructor
  · obtain hb | hb := h.lower
    · rw [hb]
      exact OrderedScalar.neg_infinity_le (isFinite_iff.1 hfloor.1).1
    · rw [le_iff hb.1 hfloor.1, hb.value_eq, floorInt_eq hx, value_floor hx]
      exact_mod_cast hb.le_floor hx hl
  · obtain hb | hb := h.upper
    · rw [hb]
      exact OrderedScalar.le_infinity (isFinite_iff.1 hceil.1).1
    · rw [le_iff hceil.1 hb.1, hb.value_eq, ceilInt_eq hx, value_ceil hx]
      exact_mod_cast hb.ceil_le hx hu

variable {n m : Node α} {f : Fraction α}
  (hm : m.boxes = (n.boxes.filter fun e => e.1 != f.column) ++ [(f.column, b)])
include hm

theorem Node.Boxed.child (h : n.Boxed root) (hb : WholeSides b)
    (hcolumn : WholeAtRoot root f.column) : m.Boxed root := by
  have hmem : ∀ e ∈ m.boxes, e ∈ n.boxes ∨ e = (f.column, b) := by
    intro e he
    rw [hm, List.mem_append, List.mem_singleton] at he
    exact he.imp_left fun he => (List.mem_filter.1 he).1
  refine ⟨?_, fun e he => ?_, fun e he => ?_⟩
  · rw [hm]
    exact nodup_replaced h.nodup f.column b
  · obtain he | rfl := hmem e he
    · exact h.box e he
    · exact hb
  · obtain he | rfl := hmem e he
    · exact h.root e he
    · exact hcolumn

theorem Node.Boxed.tightens (h : n.Boxed root) (hcolumn : WholeSides (sidesAtRoot root f.column))
    (hvalue : isFinite f.value = true) (hparent : m.parent = n.number)
    (hb : b = ((n.boundsAt root f.column).1, f.below) ∨
      b = (f.above, (n.boundsAt root f.column).2)) : n.Tightens root m f b where
  parent := hparent
  boxes j := by rw [hm, lookup_replaced]
  box := hb
  within hl hu := by
    obtain ⟨hbelow, habove⟩ := (h.boundsAt hcolumn).around hvalue hl hu
    have hlower := OrderedScalar.le_refl (OrderedScalar.isNaN_left hl)
    have hupper := OrderedScalar.le_refl (OrderedScalar.isNaN_right hu)
    obtain rfl | rfl := hb
    · exact ⟨hlower, hbelow, OrderedScalar.le_trans (floor_le hvalue) hu⟩
    · exact ⟨OrderedScalar.le_trans hl (le_ceil hvalue), habove, hupper⟩

end

/-! ### Trees -/

namespace Tree

variable {t t' : Tree α} {n : Node α}

/-- A node is in hand: it is active, and the columns have the bounds that they have below it. -/
structure Holds (root : List (α × α)) (t : Tree α) (n : Node α) : Prop where
  active : n ∈ t.active
  current : t.current = some n.number
  bears : t.problem.Bears [] (n.boundsAt root)

/-- What taking a node in hand relies on. -/
structure Restorable [ValuedScalar α] (root : List (α × α)) (t : Tree α) : Prop where
  rootBounds : t.rootBounds = root
  untouched : t.problem.Bears t.touched (sidesAtRoot root)
  touched : ∀ j ∈ t.touched, WholeAtRoot root j
  count : t.problem.columnCount = root.length
  integer : ∀ e ∈ t.problem.numberedColumns, e.2.kind = .integer →
    WholeSides (sidesAtRoot root e.1)
  boxed : ∀ n ∈ t.active, n.Boxed root
  nodup : (t.active.map (·.number)).Nodup
  fresh : ∀ n ∈ t.active, n.number < t.nextNumber

/-- Nobody has written bounds of columns, nor anything else on which the bounds of nodes depend. A
column has become an integer column only if its bounds at the root are whole. -/
structure SparesBounds [ValuedScalar α] (t t' : Tree α) : Prop where
  sides : t'.problem.columns.map Column.sides = t.problem.columns.map Column.sides
  integer : ∀ e ∈ t'.problem.numberedColumns, e.2.kind = .integer →
    (∃ c, (e.1, c) ∈ t.problem.numberedColumns ∧ c.kind = .integer) ∨
      WholeSides (sidesAtRoot t.rootBounds e.1)
  rootBounds : t'.rootBounds = t.rootBounds
  touched : t'.touched = t.touched
  active : t'.active = t.active
  current : t'.current = t.current
  nextNumber : t'.nextNumber = t.nextNumber

theorem bears_of_sides {p q : Problem α} {off : List Nat} {g : Nat → α × α}
    (h : q.columns.map Column.sides = p.columns.map Column.sides) (hp : p.Bears off g) :
    q.Bears off g := by
  intro i c hc hoff
  have hsides := congrArg (·[i]?) h
  simp only [List.getElem?_map, hc, Option.map_some] at hsides
  obtain ⟨d, hd, hcd⟩ := Option.map_eq_some_iff.1 hsides.symm
  rw [← hcd]
  exact hp i d hd hoff

variable [ValuedScalar α]

/-- The columns are the same. -/
theorem SparesBounds.of_columns (hcolumns : t'.problem.columns = t.problem.columns)
    (hrest : (t'.rootBounds, t'.touched, t'.active, t'.current, t'.nextNumber) =
      (t.rootBounds, t.touched, t.active, t.current, t.nextNumber)) : t.SparesBounds t' := by
  simp only [Prod.mk.injEq] at hrest
  obtain ⟨hroot, htouched, hactive, hcurrent, hnext⟩ := hrest
  refine ⟨by rw [hcolumns], fun e he hk => .inl ⟨e.2, ?_, hk⟩, hroot, htouched, hactive, hcurrent,
    hnext⟩
  rw [Problem.mem_numberedColumns, hcolumns] at he
  exact Problem.mem_numberedColumns.2 he

theorem Holds.spared (h : t.Holds root n) (hs : t.SparesBounds t') : t'.Holds root n :=
  ⟨hs.active ▸ h.active, hs.current.trans h.current, bears_of_sides hs.sides h.bears⟩

theorem Restorable.spared (h : t.Restorable root) (hs : t.SparesBounds t') :
    t'.Restorable root where
  rootBounds := hs.rootBounds.trans h.rootBounds
  untouched := by
    rw [hs.touched]
    exact bears_of_sides hs.sides h.untouched
  touched := by
    rw [hs.touched]
    exact h.touched
  count := by
    have hlength := congrArg List.length hs.sides
    rw [List.length_map, List.length_map] at hlength
    exact hlength.trans h.count
  integer e he hk := by
    obtain ⟨c, hc, hck⟩ | hwhole := hs.integer e he hk
    · exact h.integer (e.1, c) hc hck
    · exact h.rootBounds ▸ hwhole
  boxed := by
    rw [hs.active]
    exact h.boxed
  nodup := by
    rw [hs.active]
    exact h.nodup
  fresh := by
    rw [hs.active, hs.nextNumber]
    exact h.fresh

theorem Restorable.wholeAtRoot (h : t.Restorable root) {j : Nat} {c : Column α}
    (hc : (j, c) ∈ t.problem.numberedColumns) (hk : c.kind = .integer) : WholeAtRoot root j := by
  have hwhole := h.integer _ hc hk
  obtain ⟨i, d, hd, heq⟩ := Problem.mem_numberedColumns.1 hc
  cases heq
  have hlt := (List.getElem?_eq_some_iff.1 hd).1
  exact ⟨Nat.succ_pos i, hlt.trans_eq h.count, hwhole⟩

/-- A node is taken in hand. -/
theorem Restorable.activate (h : t.Restorable root) (hn : n ∈ t.active)
    (ht : t.activate n = .ok t') : t'.Restorable root ∧ t'.Holds root n := by
  have hboxed := h.boxed n hn
  obtain ⟨hbears, heq⟩ := bears_of_activate h.rootBounds h.untouched h.touched hboxed ht
  have hkinds : t'.problem.columns.map (·.kind) = t.problem.columns.map (·.kind) := by
    obtain ⟨columns, hkinds, -, hproblem⟩ := (activate_eq ht).1
    rw [hproblem]
    exact hkinds
  have hactive : t'.active = t.active := by rw [heq]
  have htouched : t'.touched = n.boxes.map (·.1) := by rw [heq]
  refine ⟨⟨?_, fun i c hc hoff => ?_, fun j hj => ?_, ?_, fun e he hk => ?_, ?_, ?_, ?_⟩,
    hactive ▸ hn, by rw [heq], hbears⟩
  · rw [heq]
    exact h.rootBounds
  · rw [htouched] at hoff
    rw [← Node.boundsAt_of_notMem hoff]
    exact hbears i c hc List.not_mem_nil
  · rw [htouched] at hj
    obtain ⟨e, he, rfl⟩ := List.mem_map.1 hj
    exact hboxed.root e he
  · have hlength := congrArg List.length hkinds
    rw [List.length_map, List.length_map] at hlength
    exact hlength.trans h.count
  · obtain ⟨i, c, hc, rfl⟩ := Problem.mem_numberedColumns.1 he
    have hkind := congrArg (·[i]?) hkinds
    simp only [List.getElem?_map, hc, Option.map_some] at hkind
    obtain ⟨d, hd, hdk⟩ := Option.map_eq_some_iff.1 hkind.symm
    exact h.integer (i + 1, d) (Problem.mem_numberedColumns.2 ⟨i, d, hd, rfl⟩) (hdk.trans hk)
  · rw [hactive]
    exact h.boxed
  · rw [hactive]
    exact h.nodup
  · rw [hactive, heq]
    exact h.fresh

theorem Restorable.exists_activate (h : t.Restorable root) (hn : n ∈ t.active) :
    ∃ t', t.activate n = .ok t' := by
  have hrange : ∀ {j : Nat}, WholeAtRoot root j → 0 < j ∧ j ≤ t.problem.columnCount :=
    fun hj => ⟨hj.pos, hj.le.trans h.count.ge⟩
  have hback : ∀ e ∈ t.touched.map fun j => (j, t.rootBounds.getD (j - 1) (0, 0)),
      0 < e.1 ∧ e.1 ≤ t.problem.columnCount :=
    List.forall_mem_map.2 fun j hj => hrange (h.touched j hj)
  obtain ⟨p, hp, hcount⟩ := Problem.exists_setBoxes hback
  have hforth : ∀ e ∈ n.boxes, 0 < e.1 ∧ e.1 ≤ p.columnCount :=
    fun e he => hcount ▸ hrange ((h.boxed n hn).root e he)
  obtain ⟨q, hq, -⟩ := Problem.exists_setBoxes hforth
  exact ⟨_, except_bind_eq_ok.2 ⟨p, hp, except_bind_eq_ok.2 ⟨q, hq, rfl⟩⟩⟩

/-- Nodes are taken in hand, one after the other and in any order. -/
theorem Restorable.activateAll (h : t.Restorable root) {ns : List (Node α)}
    (hns : ∀ m ∈ ns, m ∈ t.active) (hn : n ∈ t.active) :
    ∃ t', (ns ++ [n]).foldlM Tree.activate t = .ok t' ∧ t'.Holds root n := by
  induction ns generalizing t with
  | nil =>
    obtain ⟨t', ht⟩ := h.exists_activate hn
    exact ⟨t', except_bind_eq_ok.2 ⟨t', ht, rfl⟩, (h.activate hn ht).2⟩
  | cons m ns ih =>
    rw [List.forall_mem_cons] at hns
    obtain ⟨u, hu⟩ := h.exists_activate hns.1
    have hactive : u.active = t.active := by
      rw [(bears_of_activate h.rootBounds h.untouched h.touched (h.boxed m hns.1) hu).2]
    obtain ⟨t', ht, hholds⟩ := ih (t := u) (h.activate hns.1 hu).1
      (fun k hk => hactive ▸ hns.2 k hk) (hactive ▸ hn)
    rw [List.cons_append, List.foldlM_cons]
    exact ⟨t', except_bind_eq_ok.2 ⟨u, hu, ht⟩, hholds⟩

/-! ### Giving up nodes -/

theorem Restorable.filter (h : t.Restorable root) (keep : Node α → Bool) (current : Option Nat) :
    Restorable root { t with active := t.active.filter keep, current := current } where
  rootBounds := h.rootBounds
  untouched := h.untouched
  touched := h.touched
  count := h.count
  integer := h.integer
  boxed n hn := h.boxed n (List.mem_filter.1 hn).1
  nodup := h.nodup.sublist (List.filter_sublist.map _)
  fresh n hn := h.fresh n (List.mem_filter.1 hn).1

theorem Restorable.fathom (h : t.Restorable root) (n : Node α) : (t.fathom n).Restorable root :=
  h.filter _ _

theorem Restorable.prune (h : t.Restorable root) : t.prune.Restorable root := h.filter _ _

/-! ### Weighing a node -/

/-- A new bound on the objective of the node in hand does not change its box. -/
theorem Restorable.settle (h : t.Restorable root) (hn : t.Holds root n) (bound : α) :
    (t.settle { n with bound := bound }).Restorable root ∧
      (t.settle { n with bound := bound }).Holds root { n with bound := bound } := by
  let n' : Node α := { n with bound := bound }
  have hmap : ∀ m ∈ t.active, (if m.number = n.number then n' else m).number = m.number ∧
      (if m.number = n.number then n' else m).Boxed root := by
    intro m hm
    by_cases hnumber : m.number = n.number
    · rw [if_pos hnumber]
      exact ⟨hnumber.symm, (h.boxed n hn.active).congr rfl⟩
    · rw [if_neg hnumber]
      exact ⟨rfl, h.boxed m hm⟩
  have hactive : (t.settle n').active =
      t.active.map fun m => if m.number = n.number then n' else m := rfl
  have hnumbers : (t.settle n').active.map (·.number) = t.active.map (·.number) := by
    rw [hactive, List.map_map]
    exact List.map_congr_left fun m hm => (hmap m hm).1
  refine ⟨⟨h.rootBounds, h.untouched, h.touched, h.count, h.integer, ?_, ?_, ?_⟩, ?_, hn.current,
    hn.bears⟩
  · rw [hactive]
    exact List.forall_mem_map.2 fun m hm => (hmap m hm).2
  · rw [hnumbers]
    exact h.nodup
  · rw [hactive]
    refine List.forall_mem_map.2 fun m hm => ?_
    rw [(hmap m hm).1]
    exact h.fresh m hm
  · rw [hactive]
    exact List.mem_map.2 ⟨n, hn.active, if_pos rfl⟩

/-! ### New nodes -/

/-- One more node, with a number that no node had. -/
theorem Restorable.add (h : t.Restorable root) {m : Node α} (hm : m.Boxed root)
    (hnumber : m.number = t.nextNumber) : Restorable root
      { t with nextNumber := t.nextNumber + 1, active := t.active ++ [m] } where
  rootBounds := h.rootBounds
  untouched := h.untouched
  touched := h.touched
  count := h.count
  integer := h.integer
  boxed n hn := by
    obtain hn | hn := List.mem_append.1 hn
    · exact h.boxed n hn
    · rwa [List.mem_singleton.1 hn]
  nodup := by
    rw [List.map_append, List.nodup_append]
    refine ⟨h.nodup, List.nodup_singleton _, fun k hk l hl => ?_⟩
    obtain ⟨n, hn, rfl⟩ := List.mem_map.1 hk
    have := h.fresh n hn
    rw [List.map_singleton, List.mem_singleton] at hl
    omega
  fresh n hn := by
    obtain hn | hn := List.mem_append.1 hn
    · exact Nat.lt_succ_of_lt (h.fresh n hn)
    · rw [List.mem_singleton.1 hn, hnumber]
      exact Nat.lt_succ_self _

theorem Restorable.plant (h : t.Restorable root) : t.plant.Restorable root :=
  h.add ⟨List.nodup_nil, by simp, by simp⟩ rfl

/-- A node that splitting `n` makes, whatever its number. -/
def IsChild (t : Tree α) (n : Node α) (f : Fraction α) (m : Node α) : Prop :=
  m.parent = n.number ∧ ∃ b, m.boxes = (n.boxes.filter fun e => e.1 != f.column) ++ [(f.column, b)] ∧
    (b = ((n.boundsAt t.rootBounds f.column).1, f.below) ∨
      b = (f.above, (n.boundsAt t.rootBounds f.column).2))

omit [ValuedScalar α] in
theorem split_children (t : Tree α) (n : Node α) (f : Fraction α) (fs : List (Fraction α)) :
    ∃ a b : Node α, t.IsChild n f a ∧ t.IsChild n f b ∧ a.number = t.nextNumber ∧
      b.number = t.nextNumber + 1 ∧ t.split n f fs = { t.fathom n with
        active := (t.fathom n).active ++ [a] ++ [b]
        nextNumber := t.nextNumber + 1 + 1 } := by
  unfold Tree.split
  dsimp only
  split_ifs
  · exact ⟨_, _, ⟨rfl, _, rfl, .inl rfl⟩, ⟨rfl, _, rfl, .inr rfl⟩, rfl, rfl, rfl⟩
  · exact ⟨_, _, ⟨rfl, _, rfl, .inr rfl⟩, ⟨rfl, _, rfl, .inl rfl⟩, rfl, rfl, rfl⟩

/-- A node is split at a value of an integer column. -/
theorem Restorable.split (h : t.Restorable root) (hn : n.Boxed root) {f : Fraction α}
    (hcolumn : WholeAtRoot root f.column) (hvalue : isFinite f.value = true)
    (fs : List (Fraction α)) : (t.split n f fs).Restorable root ∧
      ∀ m ∈ (t.split n f fs).active, m ∈ t.active ∨ ∃ b, n.Tightens root m f b := by
  have hwhole := hn.boundsAt hcolumn.whole
  have hchild : ∀ m, t.IsChild n f m → m.Boxed root ∧ ∃ b, n.Tightens root m f b := by
    rintro m ⟨hparent, b, hm, hb⟩
    rw [h.rootBounds] at hb
    refine ⟨hn.child hm ?_ hcolumn, b, hn.tightens hm hcolumn.whole hvalue hparent hb⟩
    obtain rfl | rfl := hb
    · exact ⟨hwhole.lower, .inr (isIntegral_floor hvalue)⟩
    · exact ⟨.inr (isIntegral_ceil hvalue), hwhole.upper⟩
  obtain ⟨a, b, ha, hb, hanumber, hbnumber, hsplit⟩ := split_children t n f fs
  rw [hsplit]
  refine ⟨((h.fathom n).add (hchild a ha).1 hanumber).add (hchild b hb).1 hbnumber, ?_⟩
  intro m hm
  simp only [List.mem_append, List.mem_singleton] at hm
  obtain (hm | rfl) | rfl := hm
  · exact .inl (List.mem_filter.1 hm).1
  · exact .inr (hchild m ha).2
  · exact .inr (hchild m hb).2

omit [ValuedScalar α] in
/-- A fractional column is an integer column, and its value is finite. -/
theorem mem_fractional {fs : List (Fraction α)} (h : t.fractional = .ok fs) {f : Fraction α}
    (hf : f ∈ fs) : (∃ c, (f.column, c) ∈ t.problem.numberedColumns ∧ c.kind = .integer) ∧
      f.value = valueAt t.problem.basic.colPrimal f.column ∧ isFinite f.value = true := by
  obtain ⟨found, hfound, h⟩ := except_bind_eq_ok.1 h
  cases h
  obtain ⟨o, ho, rfl : o = some f⟩ := List.mem_filterMap.1 hf
  obtain ⟨e, he, heq⟩ := exists_of_mem_mapM hfound ho
  obtain ⟨hmem, hkind⟩ := List.mem_filter.1 he
  obtain ⟨y, hy, heq⟩ := except_bind_eq_ok.1 heq
  dsimp only at heq
  split_ifs at heq
  · cases heq
    exact ⟨⟨e.2, hmem, by simpa using hkind⟩, rfl, (isFinite_of_rounded hy).1⟩
  · cases heq

end Tree

end MixedInteger
