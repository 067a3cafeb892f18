import MixedInteger.Model.Copy
import MixedInteger.Proofs.Model.Bounds

/-! What a copy is to say. Identities are counted from one in the order in which things are
copied, and the sets of a variable come one by one, as they are read off its old column. -/

namespace MixedInteger

variable {α : Type}

/-! ### Identities counted from one -/

section
variable {β : Type}

/-- The entry under an identity. -/
def nth? (xs : List β) (k : Int) : Option β := if 0 < k then xs[k.toNat - 1]? else none

theorem nth?_eq_some {xs : List β} {k : Int} {x : β} :
    nth? xs k = some x ↔ ∃ i : Nat, k = (i + 1 : Nat) ∧ xs[i]? = some x := by
  rw [nth?]
  constructor
  · intro h
    split_ifs at h with hk
    exact ⟨k.toNat - 1, by omega, h⟩
  · rintro ⟨i, rfl, h⟩
    rw [if_pos (by omega), Int.toNat_natCast, Nat.add_sub_cancel, h]

theorem nth?_concat (xs : List β) (x : β) (k : Int) :
    nth? (xs ++ [x]) k = if k = (xs.length + 1 : Nat) then some x else nth? xs k := by
  split_ifs with hk
  · rw [nth?_eq_some]
    exact ⟨xs.length, hk, List.getElem?_concat_length⟩
  · rw [nth?, nth?]
    split_ifs with hpos
    · rw [List.getElem?_append]
      split_ifs with hlt
      · rfl
      · rw [List.getElem?_singleton, if_neg (by omega), List.getElem?_eq_none (by omega)]
    · rfl

end

/-- The identity that the copy of a variable gets. -/
def recount (vs : List VariableIndex) (v : VariableIndex) : VariableIndex :=
  ⟨(vs.idxOf v + 1 : Nat)⟩

section
variable {vs : List VariableIndex} {v w : VariableIndex}

theorem nth?_recount (hv : v ∈ vs) : nth? vs (recount vs v).value = some v :=
  nth?_eq_some.2 ⟨_, rfl, List.getElem?_idxOf hv⟩

theorem nth?_eq_some_iff (hn : vs.Nodup) :
    nth? vs w.value = some v ↔ v ∈ vs ∧ w = recount vs v := by
  constructor
  · intro h
    obtain ⟨i, hw, hi⟩ := nth?_eq_some.1 h
    obtain ⟨hlt, rfl⟩ := List.getElem?_eq_some_iff.1 hi
    refine ⟨List.getElem_mem hlt, ?_⟩
    rw [recount, hn.idxOf_getElem]
    exact congrArg VariableIndex.mk hw
  · rintro ⟨hv, rfl⟩
    exact nth?_recount hv

theorem recount_concat (hv : v ∈ vs) : recount (vs ++ [w]) v = recount vs v := by
  rw [recount, recount, List.idxOf_append_of_mem hv]

theorem recount_last (hv : v ∉ vs) : recount (vs ++ [v]) v = ⟨(vs.length + 1 : Nat)⟩ := by
  rw [recount, List.idxOf_append_of_notMem hv, List.idxOf_cons_self, Nat.add_zero]

theorem recount_inj (hv : v ∈ vs) (hw : w ∈ vs) (h : recount vs v = recount vs w) : v = w := by
  have hnth := nth?_recount hv
  rw [h, nth?_recount hw] at hnth
  exact (Option.some.inj hnth).symm

/-- All new identities in their order. -/
theorem map_recount (hn : vs.Nodup) :
    vs.map (recount vs) = (List.range vs.length).map fun i => ⟨(i + 1 : Nat)⟩ := by
  refine List.ext_getElem (by simp) fun i hi _ => ?_
  rw [List.getElem_map, List.getElem_map, List.getElem_range, recount, hn.idxOf_getElem]

end

/-! ### Records -/

/-- One more kind. -/
def orKind (p : Kind → Bool) (k : Kind) : Kind → Bool := fun k' => p k' || k' = k

theorem TypeState.kind?_ne {k : Kind} (hk : k.isBound = true) (t : TypeState) :
    t.kind? ≠ some k := by
  cases t <;> cases k <;> cases hk <;> simp [kind?]

namespace ScalarSet

theorem filter_kind (o : Option (ScalarSet α)) (p : Kind → Bool) :
    (o.filter fun s => p s.kind).map kind = (o.map kind).filter p := by
  rw [Option.filter_map]
  rfl

theorem filter_orKind_of_ne {o : Option (ScalarSet α)} {k : Kind} (h : o.map kind ≠ some k)
    (p : Kind → Bool) : (o.filter fun s => orKind p k s.kind) = o.filter fun s => p s.kind := by
  cases o with
  | none => rfl
  | some s =>
    have hk : s.kind ≠ k := fun hk => h (congrArg some hk)
    simp [Option.filter, orKind, hk]

end ScalarSet

namespace VariableRecord

/-- The record with the sets of some kinds only. -/
def only (r : VariableRecord α) (p : Kind → Bool) : VariableRecord α where
  below := r.below.filter fun s => p s.kind
  above := r.above.filter fun s => p s.kind
  type := if r.type.kind?.any p then r.type else .continuous

theorem only_none (r : VariableRecord α) : (r.only fun _ => false) = {} := by
  obtain ⟨below, above, type⟩ := r
  cases below <;> cases above <;> cases type <;> rfl

theorem carries_only (r : VariableRecord α) (p : Kind → Bool) (k : Kind) :
    (r.only p).carries k = (p k && r.carries k) := by
  have htype : (if r.type.kind?.any p then r.type else .continuous).kind? =
      r.type.kind?.filter p := by
    cases r.type <;> simp [TypeState.kind?, Option.filter] <;> split_ifs <;> simp_all
  simp only [carries, only, ScalarSet.filter_kind, htype, Option.filter_eq_some_iff]
  cases p k <;> simp

variable [Scalar α]

/-- The record with its sets as they are read off a column. -/
def read (r : VariableRecord α) (c : Column α) : VariableRecord α :=
  { r with
    below := r.below.map fun s => c.set s.kind
    above := r.above.map fun s => c.set s.kind }

end VariableRecord

theorem Column.kind_set [Scalar α] (c : Column α) (s : ScalarSet α) :
    (c.set s.kind).kind = s.kind := by
  cases s <;> rfl

namespace VariableRecord

variable [Scalar α]

@[simp] theorem carries_read (r : VariableRecord α) (c : Column α) (k : Kind) :
    (r.read c).carries k = r.carries k := by
  have hside : ∀ o : Option (ScalarSet α),
      (o.map fun s => c.set s.kind).map (·.kind) = o.map (·.kind) := by
    intro o
    cases o with
    | none => rfl
    | some s => exact congrArg some (c.kind_set s)
  rw [carries, carries, read, hside, hside]

section
variable {r : VariableRecord α} (h : r.Coherent) {k : Kind}
include h

/-- A bound that is carried stands on each of its sides. -/
theorem Coherent.below_of_carries {s : ScalarSet α} (hs : s.boundsBelow = true)
    (hk : r.carries s.kind = true) : r.below.map (·.kind) = some s.kind := by
  obtain ⟨t, ht | ht, hkind⟩ := side_of_carries (by rw [hs, Bool.true_or]) hk
  · rw [ht, Option.map_some, hkind]
  · rw [(h.above t ht).2 ((ScalarSet.sides_of_kind hkind).1.trans hs), Option.map_some, hkind]

theorem Coherent.above_of_carries {s : ScalarSet α} (hs : s.boundsAbove = true)
    (hk : r.carries s.kind = true) : r.above.map (·.kind) = some s.kind := by
  obtain ⟨t, ht | ht, hkind⟩ := side_of_carries (by rw [hs, Bool.or_true]) hk
  · rw [(h.below t ht).2 ((ScalarSet.sides_of_kind hkind).2.trans hs), Option.map_some, hkind]
  · rw [ht, Option.map_some, hkind]

theorem Coherent.below_ne {s : ScalarSet α} (hs : s.boundsBelow = false) :
    r.below.map (·.kind) ≠ some s.kind := by
  intro heq
  obtain ⟨t, ht, hkind⟩ := Option.map_eq_some_iff.1 heq
  have := (h.below t ht).1
  rw [(ScalarSet.sides_of_kind hkind).1, hs] at this
  cases this

theorem Coherent.above_ne {s : ScalarSet α} (hs : s.boundsAbove = false) :
    r.above.map (·.kind) ≠ some s.kind := by
  intro heq
  obtain ⟨t, ht, hkind⟩ := Option.map_eq_some_iff.1 heq
  have := (h.above t ht).1
  rw [(ScalarSet.sides_of_kind hkind).2, hs] at this
  cases this

/-- A set whose kind is missing finds room. -/
theorem Coherent.conflict?_only {s : ScalarSet α} (hk : r.carries s.kind = true)
    {p : Kind → Bool} (hp : p s.kind = false) (c : Column α) (v : VariableIndex) :
    ((r.only p).read c).conflict? v s = none := by
  have hnone : ∀ o : Option (ScalarSet α), o.map (·.kind) = some s.kind →
      (o.filter fun s => p s.kind) = none := by
    intro o ho
    obtain ⟨t, rfl, ht⟩ := Option.map_eq_some_iff.1 ho
    simp [Option.filter, ht, hp]
  rw [conflict?]
  cases hb : s.boundsBelow <;> cases ha : s.boundsAbove
  · rfl
  · simp [read, only, hnone _ (h.above_of_carries ha hk)]
  · simp [read, only, hnone _ (h.below_of_carries hb hk)]
  · simp [read, only, hnone _ (h.above_of_carries ha hk), hnone _ (h.below_of_carries hb hk)]

/-- Writing it is having one kind more. -/
theorem Coherent.write_only {s : ScalarSet α} (hk : r.carries s.kind = true)
    (hb : s.kind.isBound = true) (p : Kind → Bool) {c : Column α} (hs : s = c.set s.kind) :
    ((r.only p).read c).write s = (r.only (orKind p s.kind)).read c := by
  have hside : ∀ o : Option (ScalarSet α), o.map (·.kind) = some s.kind →
      some s = (o.filter fun t => orKind p s.kind t.kind).map fun t => c.set t.kind := by
    intro o ho
    obtain ⟨t, rfl, ht⟩ := Option.map_eq_some_iff.1 ho
    rw [Option.filter_some_pos (by simp [orKind, ht]), Option.map_some, ht, ← hs]
  have htype : r.type.kind?.any (orKind p s.kind) = r.type.kind?.any p := by
    have hne := r.type.kind?_ne hb
    cases ht : r.type.kind? with
    | none => rfl
    | some k =>
      have hk : k ≠ s.kind := fun hk => hne (by rw [ht, hk])
      simp [orKind, hk]
  simp only [VariableRecord.write, read, only, htype]
  congr 1
  · split_ifs with hbelow
    · exact hside _ (h.below_of_carries hbelow hk)
    · rw [ScalarSet.filter_orKind_of_ne (h.below_ne (by simpa using hbelow))]
  · split_ifs with habove
    · exact hside _ (h.above_of_carries habove hk)
    · rw [ScalarSet.filter_orKind_of_ne (h.above_ne (by simpa using habove))]

/-- A type that is carried is the type of the variable, and no bound. -/
theorem Coherent.type_of_carries {s : ScalarSet α} {t : TypeState} (hk : r.carries s.kind = true)
    (ht : s.type? = some t) : s.boundsBelow = false ∧ s.boundsAbove = false ∧
      t.kind? = some s.kind ∧ r.type = t := by
  have hb : s.boundsBelow = false := by cases s <;> first | rfl | cases ht
  have ha : s.boundsAbove = false := by cases s <;> first | rfl | cases ht
  have hkind : t.kind? = some s.kind := by cases s <;> cases ht <;> rfl
  refine ⟨hb, ha, hkind, ?_⟩
  simp only [carries, Bool.or_eq_true, decide_eq_true_eq, h.below_ne hb, h.above_ne ha,
    false_or] at hk
  rw [← hkind] at hk
  cases t <;> cases hr : r.type <;> rw [hr] at hk <;> first | rfl | cases hk

/-- While its type is missing a variable is continuous. -/
theorem Coherent.free_only {s : ScalarSet α} {t : TypeState} (hk : r.carries s.kind = true)
    (ht : s.type? = some t) {p : Kind → Bool} (hp : p s.kind = false) (c : Column α) :
    ((r.only p).read c).type = .continuous := by
  obtain ⟨-, -, hkind, htype⟩ := h.type_of_carries hk ht
  simp [read, only, htype, hkind, hp]

/-- Taking the type on is having one kind more. -/
theorem Coherent.retype_only {s : ScalarSet α} {t : TypeState} (hk : r.carries s.kind = true)
    (ht : s.type? = some t) (p : Kind → Bool) (c : Column α) :
    { (r.only p).read c with type := t } = (r.only (orKind p s.kind)).read c := by
  obtain ⟨hb, ha, hkind, htype⟩ := h.type_of_carries hk ht
  simp only [read, only, ScalarSet.filter_orKind_of_ne (h.below_ne hb),
    ScalarSet.filter_orKind_of_ne (h.above_ne ha), htype, hkind]
  simp [orKind]

/-- What is read off a column in range is in range. -/
theorem Coherent.read [OrderedScalar α] {c : Column α} (hc : r.Holds c) (p : Kind → Bool) :
    ((r.only p).read c).Coherent := by
  have hlower : (c.lower == r.lower) = true := hc.lower h.lower
  have hupper : (c.upper == r.upper) = true := hc.upper h.upper
  have hbelow : ∀ s, ((r.only p).read c).below = some s →
      ∃ t, r.below = some t ∧ p t.kind = true ∧ s = c.set t.kind := by
    intro s hs
    obtain ⟨t, ht, rfl⟩ := Option.map_eq_some_iff.1 hs
    obtain ⟨ht, hp⟩ := Option.filter_eq_some_iff.1 ht
    exact ⟨t, ht, hp, rfl⟩
  have habove : ∀ s, ((r.only p).read c).above = some s →
      ∃ t, r.above = some t ∧ p t.kind = true ∧ s = c.set t.kind := by
    intro s hs
    obtain ⟨t, ht, rfl⟩ := Option.map_eq_some_iff.1 hs
    obtain ⟨ht, hp⟩ := Option.filter_eq_some_iff.1 ht
    exact ⟨t, ht, hp, rfl⟩
  refine ⟨fun s hs => ?_, fun s hs => ?_, ?_, ?_⟩
  · obtain ⟨t, ht, hp, rfl⟩ := hbelow s hs
    obtain ⟨hb, ha⟩ := ScalarSet.sides_of_kind (c.kind_set t)
    refine ⟨hb.trans (h.below t ht).1, fun hside => ?_⟩
    have htop := (h.below t ht).2 (ha.symm.trans hside)
    simp [VariableRecord.read, only, htop, Option.filter, hp]
  · obtain ⟨t, ht, hp, rfl⟩ := habove s hs
    obtain ⟨hb, ha⟩ := ScalarSet.sides_of_kind (c.kind_set t)
    refine ⟨ha.trans (h.above t ht).1, fun hside => ?_⟩
    have hbottom := (h.above t ht).2 (hb.symm.trans hside)
    simp [VariableRecord.read, only, hbottom, Option.filter, hp]
  · cases hs : ((r.only p).read c).below with
    | none =>
      rw [VariableRecord.lower, hs]
      exact lowerBound_neg_infinity
    | some s =>
      obtain ⟨t, ht, -, rfl⟩ := hbelow s hs
      have hin : LowerBound c.lower := h.lower.congr (OrderedScalar.beq_symm hlower)
      have hside := (h.below t ht).1
      rw [VariableRecord.lower, hs]
      cases t <;> first | exact hin | cases hside
  · cases hs : ((r.only p).read c).above with
    | none =>
      rw [VariableRecord.upper, hs]
      exact upperBound_infinity
    | some s =>
      obtain ⟨t, ht, -, rfl⟩ := habove s hs
      have hin : UpperBound c.upper := h.upper.congr (OrderedScalar.beq_symm hupper)
      have hside := (h.above t ht).1
      rw [VariableRecord.upper, hs]
      cases t with
      | equalTo v =>
        -- a fixed variable is read off the lower side
        have hv : r.lower = r.upper := by
          rw [VariableRecord.lower, VariableRecord.upper, ht, (h.above _ ht).2 rfl]
          rfl
        exact h.upper.congr (OrderedScalar.beq_symm (hv ▸ hlower))
      | _ => first | exact hin | cases hside

end

/-- A kind that is carried is read off the column. -/
theorem set_read {r : VariableRecord α} {k : Kind} (hk : r.carries k = true) (c : Column α) :
    (r.read c).set k = c.set k := by
  have hside : ∀ o : Option (ScalarSet α),
      ((o.map fun s => c.set s.kind).filter fun s => s.kind = k) =
        if o.map (·.kind) = some k then some (c.set k) else none := by
    intro o
    cases o with
    | none => rfl
    | some s =>
      by_cases hs : s.kind = k
      · subst hs
        simp [Option.filter, c.kind_set]
      · simp [Option.filter, c.kind_set, hs]
  rw [set, read]
  simp only [hside]
  simp only [carries, Bool.or_eq_true, decide_eq_true_eq] at hk
  rcases hk with (hk | hk) | hk
  · rw [if_pos hk]
    rfl
  · rw [if_pos hk]
    split_ifs <;> rfl
  · have hdefault : (if k = .zeroOne then .zeroOne else .integer) = c.set k := by
      cases ht : r.type <;> rw [ht] at hk <;> cases hk <;> rfl
    rw [hdefault]
    split_ifs <;> rfl

end VariableRecord

/-! ### The ledger of a copy -/

attribute [ext] Ledger

variable [Scalar α]

/-- What a copy says when these variables, affine constraints and constraints on variables
are copied. -/
def Ledger.copied (L : Ledger α) (m : Model α) (vs : List VariableIndex)
    (as ss : List ConstraintIndex) : Ledger α where
  lastVariable := vs.length
  vars w := (nth? vs w.value).bind fun v => (L.vars v).bind fun r => (m.column? v).map fun c =>
    (r.only fun k => ⟨.singleVariable, k, v.value⟩ ∈ ss).read c
  lastAffine := as.length
  affine k := (nth? as k).bind fun c => (L.affine c.value).map fun r =>
    ⟨r.set, fun w => (nth? vs w.value).bind r.term⟩

end MixedInteger
