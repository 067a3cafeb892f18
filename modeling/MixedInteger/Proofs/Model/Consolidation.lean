import MixedInteger.Proofs.Model.Ledger

/-! The sets of a variable, as one of six states, as a record and as the two numbers of a column.
State and record have the same shape when they name the same kinds of sets; then they refuse the
same sets, and adding or removing a set keeps the shapes equal. The sets are not stored, only the
bounds of the column are, and the kind of a pair of bounds drops what it does not use. A bound that
is infinite on its own side, or smaller in size than the largest number, outlasts every such write
up to `==`: the column holds what the record of the variable says. -/

namespace MixedInteger

/-! ### States and records -/

section

variable {α : Type}

/-- The kinds of the sets that a variable lies in. -/
def VariableInfo.shape (info : VariableInfo) : Option Kind × Option Kind × TypeState :=
  (info.bound.lowerSet, info.bound.upperSet, info.type)

def VariableRecord.shape (r : VariableRecord α) : Option Kind × Option Kind × TypeState :=
  (r.below.map (·.kind), r.above.map (·.kind), r.type)

/-- What a variable carries can be read off its kinds. -/
theorem VariableInfo.carries_eq (info : VariableInfo) (k : Kind) :
    info.carries k = (info.bound.lowerSet = some k || info.bound.upperSet = some k ||
      info.type.kind? = some k) := by
  cases k <;> cases hb : info.bound <;> cases ht : info.type <;>
    simp [VariableInfo.carries, hb, ht, BoundState.lowerSet, BoundState.upperSet, TypeState.kind?]

theorem carries_of_shape {r : VariableRecord α} {info : VariableInfo}
    (h : r.shape = info.shape) (k : Kind) : r.carries k = info.carries k := by
  simp only [VariableRecord.shape, VariableInfo.shape, Prod.mk.injEq] at h
  simp only [VariableInfo.carries_eq, VariableRecord.carries, h.1, h.2.1, h.2.2]

/-- A set that is carried stands on each side that it bounds. -/
theorem VariableInfo.sides_of_carries (info : VariableInfo) {s : ScalarSet α}
    (h : info.carries s.kind = true) :
    (s.boundsBelow = true → info.bound.lowerSet = some s.kind) ∧
      (s.boundsAbove = true → info.bound.upperSet = some s.kind) := by
  cases s <;> cases hb : info.bound <;>
    simp_all [VariableInfo.carries, ScalarSet.kind, ScalarSet.boundsBelow, ScalarSet.boundsAbove,
      BoundState.lowerSet, BoundState.upperSet]

/-! ### Adding a bound -/

/-- The state with one more bound set. -/
def BoundState.joined (b : BoundState) : Kind → BoundState
  | .lessThan => if b = greaterThan then lessAndGreaterThan else lessThan
  | .greaterThan => if b = lessThan then lessAndGreaterThan else greaterThan
  | .equalTo => equalTo
  | _ => interval

/-- A set collides with one that stands on a side it bounds. -/
theorem VariableInfo.addBound_eq (info : VariableInfo) {s : ScalarSet α} (hs : s.type? = none) :
    info.addBound s.kind = (do
      if s.boundsBelow then info.checkLower s.kind
      if s.boundsAbove then info.checkUpper s.kind
      return info.bound.joined s.kind) := by
  cases s with
  | zeroOne => cases hs
  | integer => cases hs
  | _ => rfl

theorem conflict?_eq_none {r : VariableRecord α} {v : VariableIndex} {s : ScalarSet α}
    (hc : r.conflict? v s = none) :
    (s.boundsBelow = true → r.below = none) ∧ (s.boundsAbove = true → r.above = none) := by
  simp only [VariableRecord.conflict?] at hc
  split at hc
  · cases hc
  · next hl =>
    refine ⟨fun hb => by simpa [hb] using hl, fun hb => ?_⟩
    simpa [hb] using hc

section
variable {r : VariableRecord α} {info : VariableInfo} (h : r.shape = info.shape)
include h

theorem lowerSet_of_shape : info.bound.lowerSet = r.below.map (·.kind) :=
  (congrArg (·.1) h).symm

theorem upperSet_of_shape : info.bound.upperSet = r.above.map (·.kind) :=
  (congrArg (·.2.1) h).symm

theorem checkLower_of_shape {v : VariableIndex} (hv : info.index = v) (k : Kind) :
    info.checkLower k = match r.below with
      | some t => .error (.lowerTaken v t.kind k)
      | none => .ok () := by
  rw [VariableInfo.checkLower, lowerSet_of_shape h, hv]
  cases r.below <;> rfl

theorem checkUpper_of_shape {v : VariableIndex} (hv : info.index = v) (k : Kind) :
    info.checkUpper k = match r.above with
      | some t => .error (.upperTaken v t.kind k)
      | none => .ok () := by
  rw [VariableInfo.checkUpper, upperSet_of_shape h, hv]
  cases r.above <;> rfl

/-- A bound set is refused for the same reason, or taken by both. -/
theorem addBound_of_shape {v : VariableIndex} (hv : info.index = v) {s : ScalarSet α}
    (hs : s.type? = none) : info.addBound s.kind = match r.conflict? v s with
      | some e => .error e
      | none => .ok (info.bound.joined s.kind) := by
  rw [info.addBound_eq hs, checkLower_of_shape h hv, checkUpper_of_shape h hv,
    VariableRecord.conflict?]
  cases s.boundsBelow <;> cases s.boundsAbove <;> cases r.below <;> cases r.above <;> rfl

theorem shape_joined {v : VariableIndex} {s : ScalarSet α} (hs : s.type? = none)
    (hc : r.conflict? v s = none) :
    { info with bound := info.bound.joined s.kind }.shape = (r.write s).shape := by
  obtain ⟨hbelow, habove⟩ := conflict?_eq_none hc
  have hl := lowerSet_of_shape h
  have hu := upperSet_of_shape h
  have ht : r.type = info.type := congrArg (·.2.2) h
  cases s with
  | zeroOne => cases hs
  | integer => cases hs
  | lessThan u =>
    rw [habove rfl] at hu
    cases hb : info.bound <;> rw [hb] at hl hu <;> try cases hu
    all_goals exact Prod.ext hl (Prod.ext rfl ht.symm)
  | greaterThan l =>
    rw [hbelow rfl] at hl
    cases hb : info.bound <;> rw [hb] at hl hu <;> try cases hl
    all_goals exact Prod.ext rfl (Prod.ext hu ht.symm)
  | equalTo x => exact Prod.ext rfl (Prod.ext rfl ht.symm)
  | interval l u => exact Prod.ext rfl (Prod.ext rfl ht.symm)

/-! ### Writing and removing -/

/-- Writing a set again keeps the shape. -/
theorem shape_write {s : ScalarSet α} (hk : info.carries s.kind = true) :
    (r.write s).shape = info.shape := by
  obtain ⟨hbelow, habove⟩ := info.sides_of_carries hk
  rw [← h]
  refine Prod.ext ?_ (Prod.ext ?_ rfl)
  · simp only [VariableRecord.shape, VariableRecord.write]
    split_ifs with hb
    · rw [← lowerSet_of_shape h, hbelow hb]
      rfl
    · rfl
  · simp only [VariableRecord.shape, VariableRecord.write]
    split_ifs with hb
    · rw [← upperSet_of_shape h, habove hb]
      rfl
    · rfl

theorem shape_release (k : Kind) : (r.release k).shape =
    (info.bound.lowerSet.filter (· ≠ k), info.bound.upperSet.filter (· ≠ k),
      if info.type.kind? = some k then .continuous else info.type) := by
  have ht : r.type = info.type := congrArg (·.2.2) h
  simp only [lowerSet_of_shape h, upperSet_of_shape h, ← ht, VariableRecord.shape,
    VariableRecord.release, Option.filter_map, Function.comp_def]

/-- Removing a bound set that is there. -/
theorem remove_of_shape [Scalar α] {k : Kind} (hk : info.carries k = true)
    (hb : k.isBound = true) : ∃ (b : BoundState) (change : BoundChange α),
      info.bound.remove k = .ok (b, change) ∧
        { info with bound := b }.shape = (r.release k).shape := by
  have ht : info.type.kind? ≠ some k := by
    cases k <;> cases hb <;> cases info.type <;> simp [TypeState.kind?]
  rw [shape_release h, if_neg ht]
  cases k <;> cases hb <;> refine ⟨_, _, rfl, ?_⟩
  all_goals
    cases hs : info.bound <;>
      simp_all [VariableInfo.carries, VariableInfo.shape, BoundState.lowerSet, BoundState.upperSet,
        Option.filter]

omit h in
theorem filter_ne_eq_self {o : Option Kind} {k : Kind} (h : o ≠ some k) :
    o.filter (· ≠ k) = o := by
  cases o with
  | none => rfl
  | some a => simpa [Option.filter] using h

omit h in
/-- A set that is no bound is carried as a type, and stands on no side. -/
theorem VariableInfo.type_of_carries {k : Kind} (hk : info.carries k = true)
    (hb : k.isBound = false) : info.type.kind? = some k ∧ info.bound.lowerSet ≠ some k ∧
      info.bound.upperSet ≠ some k := by
  refine ⟨?_, ?_, ?_⟩
  · cases k <;> cases hb <;> cases ht : info.type <;>
      simp_all [VariableInfo.carries, TypeState.kind?]
  · cases k <;> cases hb <;> cases info.bound <;> simp [BoundState.lowerSet]
  · cases k <;> cases hb <;> cases info.bound <;> simp [BoundState.upperSet]

/-- Removing a type that is there. -/
theorem shape_release_type {k : Kind} (hk : info.carries k = true) (hb : k.isBound = false) :
    { info with type := .continuous }.shape = (r.release k).shape := by
  obtain ⟨ht, hl, hu⟩ := VariableInfo.type_of_carries hk hb
  have hlower : info.bound.lowerSet.filter (· ≠ k) = info.bound.lowerSet :=
    filter_ne_eq_self hl
  have hupper : info.bound.upperSet.filter (· ≠ k) = info.bound.upperSet :=
    filter_ne_eq_self hu
  rw [shape_release h, hlower, hupper, if_pos ht]
  rfl

end

end

section

variable {α : Type} [Scalar α]

/-! ### Sides -/

/-- The bound from below in a set. -/
def ScalarSet.lower? : ScalarSet α → Option α
  | .greaterThan l => some l
  | .equalTo v => some v
  | .interval l _ => some l
  | _ => none

def ScalarSet.upper? : ScalarSet α → Option α
  | .lessThan u => some u
  | .equalTo v => some v
  | .interval _ u => some u
  | _ => none

omit [Scalar α] in
theorem ScalarSet.change_eq (s : ScalarSet α) : s.change = ⟨s.lower?, s.upper?⟩ := by
  cases s <;> rfl

namespace VariableRecord

/-- The bound from below that was written last, if its set is still there. -/
def lower (r : VariableRecord α) : α := (r.below.bind ScalarSet.lower?).getD (-Scalar.infinity)

def upper (r : VariableRecord α) : α := (r.above.bind ScalarSet.upper?).getD Scalar.infinity

@[simp] theorem lower_write (r : VariableRecord α) (s : ScalarSet α) :
    (r.write s).lower = s.lower?.getD r.lower := by
  cases s <;> rfl

@[simp] theorem upper_write (r : VariableRecord α) (s : ScalarSet α) :
    (r.write s).upper = s.upper?.getD r.upper := by
  cases s <;> rfl

theorem lower_release (r : VariableRecord α) (k : Kind) : (r.release k).lower =
    if r.below.map (·.kind) = some k then -Scalar.infinity else r.lower := by
  unfold lower release
  cases r.below with
  | none => rfl
  | some s => by_cases hk : s.kind = k <;> simp [Option.filter, hk]

theorem upper_release (r : VariableRecord α) (k : Kind) : (r.release k).upper =
    if r.above.map (·.kind) = some k then Scalar.infinity else r.upper := by
  unfold upper release
  cases r.above with
  | none => rfl
  | some s => by_cases hk : s.kind = k <;> simp [Option.filter, hk]

end VariableRecord

/-- Removing a set gives up the sides it stood on. -/
theorem remove_change {info : VariableInfo} {k : Kind} {b : BoundState} {change : BoundChange α}
    (hk : info.carries k = true) (hb : info.bound.remove k = .ok (b, change)) :
    change = {
      lower := if info.bound.lowerSet = some k then some (-Scalar.infinity) else none
      upper := if info.bound.upperSet = some k then some Scalar.infinity else none } := by
  cases k <;> cases hb <;> cases hs : info.bound <;>
    simp_all [VariableInfo.carries, BoundState.lowerSet, BoundState.upperSet]

/-! ### Bounds in range -/

/-- A bound from below that is infinite on its own side or inside the range of numbers. -/
def LowerBound (l : α) : Prop :=
  (l == -Scalar.infinity) = true ∨ (-Scalar.largest < l ∧ l < Scalar.largest)

def UpperBound (u : α) : Prop :=
  (u == Scalar.infinity) = true ∨ (-Scalar.largest < u ∧ u < Scalar.largest)

instance (l : α) : Decidable (LowerBound l) := inferInstanceAs (Decidable (_ ∨ _))

instance (u : α) : Decidable (UpperBound u) := inferInstanceAs (Decidable (_ ∨ _))

section
variable [OrderedScalar α] {l u x y : α}

open OrderedScalar

theorem lt_of_beq_of_lt (h : (x == y) = true) (hl : l < x) : l < y := by
  obtain ⟨hxy, hyx⟩ := beq_iff.1 h
  obtain ⟨hle, hnot⟩ := lt_iff.1 hl
  exact lt_iff.2 ⟨le_trans hle hxy, fun hyl => hnot (le_trans hxy hyl)⟩

theorem lt_of_lt_of_beq (h : (x == y) = true) (hu : x < u) : y < u := by
  obtain ⟨hxy, hyx⟩ := beq_iff.1 h
  obtain ⟨hle, hnot⟩ := lt_iff.1 hu
  exact lt_iff.2 ⟨le_trans hyx hle, fun huy => hnot (le_trans huy hyx)⟩

theorem LowerBound.congr (h : (x == y) = true) (hx : LowerBound x) : LowerBound y := by
  rcases hx with hx | ⟨hl, hu⟩
  · exact .inl (beq_trans (beq_symm h) hx)
  · exact .inr ⟨lt_of_beq_of_lt h hl, lt_of_lt_of_beq h hu⟩

theorem UpperBound.congr (h : (x == y) = true) (hx : UpperBound x) : UpperBound y := by
  rcases hx with hx | ⟨hl, hu⟩
  · exact .inl (beq_trans (beq_symm h) hx)
  · exact .inr ⟨lt_of_beq_of_lt h hl, lt_of_lt_of_beq h hu⟩

/-- A bound from below that is dropped was none. -/
theorem LowerBound.eq_of_le (hl : LowerBound l) (h : l ≤ -Scalar.largest) :
    (l == -Scalar.infinity) = true :=
  hl.resolve_right fun ⟨hlt, _⟩ => not_le_of_lt hlt h

theorem UpperBound.eq_of_le (hu : UpperBound u) (h : Scalar.largest ≤ u) :
    (u == Scalar.infinity) = true :=
  hu.resolve_right fun ⟨_, hlt⟩ => not_le_of_lt hlt h

theorem lowerBound_neg_infinity : LowerBound (-Scalar.infinity : α) :=
  .inl (beq_refl isNaN_neg_infinity)

theorem upperBound_infinity : UpperBound (Scalar.infinity : α) := .inl (beq_refl isNaN_infinity)

/-! ### What is stored -/

/-- A bound that is stored is the one that was given, if only infinite ones are dropped. -/
theorem storedBounds_lower_of (hl : Scalar.isNaN l = false)
    (h : l ≤ -Scalar.largest → (l == -Scalar.infinity) = true) :
    ((storedBounds l u).2.1 == l) = true := by
  simp only [storedBounds, boundKind]
  split_ifs with h₁ h₂ h₃ h₃
  · exact beq_refl hl
  · exact beq_symm (h h₂)
  · exact beq_symm (h h₂)
  · exact beq_refl hl
  · exact beq_refl hl

theorem storedBounds_upper_of (hu : Scalar.isNaN u = false)
    (h : Scalar.largest ≤ u → (u == Scalar.infinity) = true) :
    ((storedBounds l u).2.2 == u) = true := by
  simp only [storedBounds, boundKind]
  split_ifs with h₁ h₂ h₃ h₃
  · exact h₁
  · exact beq_symm (h h₃)
  · exact beq_refl hu
  · exact beq_symm (h h₃)
  · exact beq_refl hu

theorem storedBounds_lower (hl : Scalar.isNaN l = false) (h : LowerBound l) :
    ((storedBounds l u).2.1 == l) = true := storedBounds_lower_of hl h.eq_of_le

theorem storedBounds_upper (hu : Scalar.isNaN u = false) (h : UpperBound u) :
    ((storedBounds l u).2.2 == u) = true := storedBounds_upper_of hu h.eq_of_le

theorem infinity_beq_neg : ((-Scalar.infinity : α) == Scalar.infinity) = false := by
  rw [Bool.eq_false_iff]
  intro h
  have hle : (-Scalar.largest : α) ≤ Scalar.infinity := le_infinity (isNaN_right le_neg_largest)
  exact not_le_of_lt lt_neg_largest (le_trans hle (beq_iff.1 h).2)

/-- The stored pair has the kind that it is stored with. -/
theorem boundKind_storedBounds (hl : Scalar.isNaN l = false) (hlb : LowerBound l)
    (hub : UpperBound u) :
    boundKind (storedBounds l u).2.1 (storedBounds l u).2.2 = boundKind l u := by
  have hkind : boundKind l u = if l == u then .fixed
      else if l ≤ -Scalar.largest then if Scalar.largest ≤ u then .free else .upper
      else if Scalar.largest ≤ u then .lower else .double := rfl
  by_cases heq : (l == u) = true
  · rw [storedBounds, hkind, if_pos heq]
    simp only [BoundKind.sides, boundKind, beq_refl hl, if_true]
  rw [if_neg heq] at hkind
  by_cases hlo : l ≤ -Scalar.largest
  · have hl' := beq_symm (hlb.eq_of_le hlo)
    rw [if_pos hlo] at hkind
    by_cases hup : Scalar.largest ≤ u
    · rw [storedBounds, hkind, if_pos hup]
      simp [BoundKind.sides, boundKind, infinity_beq_neg, le_neg_largest, largest_le]
    · rw [storedBounds, hkind, if_neg hup]
      have hne : ((-Scalar.infinity : α) == u) = false :=
        Bool.eq_false_iff.2 fun h => heq (beq_trans (beq_symm hl') h)
      simp [BoundKind.sides, boundKind, hne, le_neg_largest, hup]
  · rw [if_neg hlo] at hkind
    by_cases hup : Scalar.largest ≤ u
    · rw [storedBounds, hkind, if_pos hup]
      have hne : (l == (Scalar.infinity : α)) = false :=
        Bool.eq_false_iff.2 fun h => heq (beq_trans h (beq_symm (hub.eq_of_le hup)))
      simp [BoundKind.sides, boundKind, hne, hlo, largest_le]
    · rw [storedBounds, hkind, if_neg hup]
      simp only [BoundKind.sides, hkind, if_neg hup]

end

/-! ### Columns -/

/-- A column that holds the bounds and the type of a record. -/
structure VariableRecord.Holds (r : VariableRecord α) (c : Column α) : Prop where
  numbers : Scalar.isNaN c.lower = false ∧ Scalar.isNaN c.upper = false
  lower : LowerBound r.lower → (c.lower == r.lower) = true
  upper : UpperBound r.upper → (c.upper == r.upper) = true
  bound : LowerBound r.lower → UpperBound r.upper → c.bound = boundKind c.lower c.upper
  sides : c.bound.sides c.lower c.upper = (c.lower, c.upper)
  kind : c.kind = if r.type = .continuous then .continuous else .integer

/-- The sides that a kind leaves are left alone by it. -/
theorem BoundKind.sides_sides (b : BoundKind) (l u : α) :
    b.sides (b.sides l u).1 (b.sides l u).2 = b.sides l u := by
  cases b <;> rfl

/-- A column keeps numbers for bounds when numbers are written. -/
theorem isNaN_rebound [OrderedScalar α] {c : Column α} {b : BoundChange α}
    (hl : Scalar.isNaN (b.lower.getD c.lower) = false)
    (hu : Scalar.isNaN (b.upper.getD c.upper) = false) :
    Scalar.isNaN (c.rebound b).lower = false ∧ Scalar.isNaN (c.rebound b).upper = false := by
  simp only [Column.rebound, storedBounds]
  cases boundKind (b.lower.getD c.lower) (b.upper.getD c.upper) <;>
    simp [BoundKind.sides, hl, hu]

namespace VariableRecord.Holds

variable [OrderedScalar α] {r r' : VariableRecord α} {c : Column α}

open OrderedScalar

/-- A new variable has a free column. -/
theorem new : Holds ({} : VariableRecord α) {} where
  numbers := by simp
  lower _ := beq_refl isNaN_neg_infinity
  upper _ := beq_refl isNaN_infinity
  bound _ _ := by
    simp [boundKind, infinity_beq_neg, le_neg_largest, largest_le]
  sides := rfl
  kind := rfl

/-- A column holds a record with the sides that were written into it; the other ones
stay. -/
theorem rebound (h : r.Holds c) {b : BoundChange α}
    (hl : Scalar.isNaN (b.lower.getD c.lower) = false)
    (hu : Scalar.isNaN (b.upper.getD c.upper) = false) (hlower : r'.lower = b.lower.getD r.lower)
    (hupper : r'.upper = b.upper.getD r.upper) (ht : r'.type = r.type) :
    r'.Holds (c.rebound b) := by
  have hlow : LowerBound r'.lower → (b.lower.getD c.lower == r'.lower) = true := by
    intro hb
    rw [hlower] at hb ⊢
    cases hbl : b.lower with
    | none =>
      rw [hbl] at hb
      exact h.lower hb
    | some l =>
      rw [hbl] at hl
      exact beq_refl hl
  have hupp : UpperBound r'.upper → (b.upper.getD c.upper == r'.upper) = true := by
    intro hb
    rw [hupper] at hb ⊢
    cases hbu : b.upper with
    | none =>
      rw [hbu] at hb
      exact h.upper hb
    | some u =>
      rw [hbu] at hu
      exact beq_refl hu
  refine ⟨isNaN_rebound hl hu, fun hb => ?_, fun hb => ?_, fun hb hb' => ?_,
    BoundKind.sides_sides _ _ _, ht ▸ h.kind⟩
  · exact beq_trans (storedBounds_lower hl (hb.congr (beq_symm (hlow hb)))) (hlow hb)
  · exact beq_trans (storedBounds_upper hu (hb.congr (beq_symm (hupp hb)))) (hupp hb)
  · exact (boundKind_storedBounds hl (hb.congr (beq_symm (hlow hb)))
      (hb'.congr (beq_symm (hupp hb')))).symm

theorem write (h : r.Holds c) {s : ScalarSet α}
    (hl : Scalar.isNaN (s.change.lower.getD c.lower) = false)
    (hu : Scalar.isNaN (s.change.upper.getD c.upper) = false) :
    (r.write s).Holds (c.rebound s.change) :=
  h.rebound hl hu (by rw [s.change_eq, lower_write]) (by rw [s.change_eq, upper_write]) rfl

/-- Without a set the column is free on the sides where it stood. -/
theorem release (h : r.Holds c) {info : VariableInfo} (hshape : r.shape = info.shape) {k : Kind}
    (hk : info.carries k = true) {b : BoundState} {change : BoundChange α}
    (hb : info.bound.remove k = .ok (b, change)) : (r.release k).Holds (c.rebound change) := by
  have hchange := remove_change hk hb
  have hnone : ¬r.type.kind? = some k := by
    intro heq
    cases k <;> cases hb <;> cases ht : r.type <;> simp [ht, TypeState.kind?] at heq
  rw [lowerSet_of_shape hshape, upperSet_of_shape hshape] at hchange
  subst hchange
  refine h.rebound ?_ ?_ ?_ ?_ (if_neg hnone)
  · simp only
    split_ifs
    · exact isNaN_neg_infinity
    · exact h.numbers.1
  · simp only
    split_ifs
    · exact isNaN_infinity
    · exact h.numbers.2
  · rw [lower_release]
    split_ifs <;> rfl
  · rw [upper_release]
    split_ifs <;> rfl

omit [OrderedScalar α] in
/-- A column is an integer one while its variable has a type. -/
theorem retype (h : r.Holds c) (hl : r'.lower = r.lower) (hu : r'.upper = r.upper) :
    r'.Holds { c with kind := if r'.type = .continuous then .continuous else .integer } where
  numbers := h.numbers
  lower hb := hl ▸ h.lower (hl ▸ hb)
  upper hb := hu ▸ h.upper (hu ▸ hb)
  bound hb hb' := h.bound (hl ▸ hb) (hu ▸ hb')
  sides := h.sides
  kind := rfl

omit [OrderedScalar α] in
/-- Without a type the column is a continuous one. -/
theorem releaseType (h : r.Holds c) {info : VariableInfo} (hshape : r.shape = info.shape)
    {k : Kind} (hk : info.carries k = true) (hb : k.isBound = false) :
    (r.release k).Holds { c with kind := .continuous } := by
  obtain ⟨ht, hl, hu⟩ := VariableInfo.type_of_carries hk hb
  rw [lowerSet_of_shape hshape] at hl
  rw [upperSet_of_shape hshape] at hu
  have htype : r.type = info.type := congrArg (·.2.2) hshape
  have hcontinuous : (r.release k).type = .continuous := if_pos (htype ▸ ht)
  have hlower : (r.release k).lower = r.lower := by rw [lower_release, if_neg hl]
  have hupper : (r.release k).upper = r.upper := by rw [upper_release, if_neg hu]
  have hretyped := h.retype hlower hupper
  rwa [if_pos hcontinuous] at hretyped

omit [OrderedScalar α] in
/-- A cost does not matter. -/
theorem congr {c' : Column α} (h : r.Holds c) (hb : c'.bound = c.bound)
    (hl : c'.lower = c.lower) (hu : c'.upper = c.upper) (hk : c'.kind = c.kind) :
    r.Holds c' where
  numbers := by
    rw [hl, hu]
    exact h.numbers
  lower hr := hl ▸ h.lower hr
  upper hr := hu ▸ h.upper hr
  bound hr hr' := by
    rw [hb, hl, hu]
    exact h.bound hr hr'
  sides := by
    rw [hb, hl, hu]
    exact h.sides
  kind := hk ▸ h.kind

end VariableRecord.Holds

end

end MixedInteger
