import MixedInteger.Proofs.Model.History

/-! The bounds of variables after any history. While the bounds that are written are
infinite on their own side or inside the range of numbers, every column holds the bounds
that stand in the ledger, so every set on a single variable is answered as it was written
last, and a change of one side leaves the other one alone. -/

namespace MixedInteger

variable {α : Type} [Scalar α]

/-! ### Sets in range -/

def ScalarSet.InRange (s : ScalarSet α) : Prop :=
  (∀ l ∈ s.lower?, LowerBound l) ∧ ∀ u ∈ s.upper?, UpperBound u

instance (s : ScalarSet α) : Decidable s.InRange := inferInstanceAs (Decidable (_ ∧ _))

/-- An edit whose bounds for a variable are in range. -/
def Edit.InRange (e : Edit α) : Prop := ∀ s ∈ e.bound?, s.InRange

instance (e : Edit α) : Decidable e.InRange :=
  inferInstanceAs (Decidable (∀ s ∈ e.bound?, s.InRange))

section
variable [OrderedScalar α]

theorem LowerBound.isNaN {l : α} (h : LowerBound l) : Scalar.isNaN l = false := by
  rcases h with h | ⟨h, -⟩
  · exact OrderedScalar.isNaN_left (OrderedScalar.beq_iff.1 h).1
  · exact OrderedScalar.isNaN_right (OrderedScalar.lt_iff.1 h).1

theorem UpperBound.isNaN {u : α} (h : UpperBound u) : Scalar.isNaN u = false := by
  rcases h with h | ⟨h, -⟩
  · exact OrderedScalar.isNaN_left (OrderedScalar.beq_iff.1 h).1
  · exact OrderedScalar.isNaN_right (OrderedScalar.lt_iff.1 h).1

theorem Edit.InRange.isNaN {e : Edit α} (h : e.InRange) :
    ∀ x ∈ e.values, Scalar.isNaN x = false := by
  intro x hx
  cases hs : e.bound? with
  | none => simp [Edit.values, hs] at hx
  | some s =>
    obtain ⟨hl, hu⟩ := h s hs
    cases s <;> simp only [Edit.values, hs, Option.map_some, Option.getD_some, ScalarSet.values,
      List.mem_cons, List.not_mem_nil, or_false] at hx
    · exact hx ▸ (hu _ rfl).isNaN
    · exact hx ▸ (hl _ rfl).isNaN
    · exact hx ▸ (hl _ rfl).isNaN
    · rcases hx with rfl | rfl
      · exact (hl _ rfl).isNaN
      · exact (hu _ rfl).isNaN

end

/-! ### Coherent records -/

/-- What bounds from both sides stands on both, and the bounds are in range. -/
structure VariableRecord.Coherent (r : VariableRecord α) : Prop where
  below : ∀ s, r.below = some s → s.boundsBelow = true ∧
    (s.boundsAbove = true → r.above = some s)
  above : ∀ s, r.above = some s → s.boundsAbove = true ∧
    (s.boundsBelow = true → r.below = some s)
  lower : LowerBound r.lower
  upper : UpperBound r.upper

omit [Scalar α] in
/-- Sets of one kind bound the same sides. -/
theorem ScalarSet.sides_of_kind {s t : ScalarSet α} (h : s.kind = t.kind) :
    s.boundsBelow = t.boundsBelow ∧ s.boundsAbove = t.boundsAbove := by
  cases s <;> cases t <;> first | exact ⟨rfl, rfl⟩ | cases h

omit [Scalar α] in
/-- A bound that is carried stands on a side. -/
theorem VariableRecord.side_of_carries {r : VariableRecord α} {s : ScalarSet α}
    (hs : (s.boundsBelow || s.boundsAbove) = true) (h : r.carries s.kind = true) :
    ∃ t, (r.below = some t ∨ r.above = some t) ∧ t.kind = s.kind := by
  simp only [carries, Bool.or_eq_true, decide_eq_true_eq] at h
  rcases h with (h | h) | h
  · obtain ⟨t, ht, hk⟩ := Option.map_eq_some_iff.1 h
    exact ⟨t, .inl ht, hk⟩
  · obtain ⟨t, ht, hk⟩ := Option.map_eq_some_iff.1 h
    exact ⟨t, .inr ht, hk⟩
  · cases s <;> cases hs <;> cases ht : r.type <;> simp [ht, TypeState.kind?, ScalarSet.kind] at h

namespace VariableRecord.Coherent

variable {r : VariableRecord α} (h : r.Coherent)

theorem free [OrderedScalar α] : Coherent ({} : VariableRecord α) where
  below s hs := by cases hs
  above s hs := by cases hs
  lower := lowerBound_neg_infinity
  upper := upperBound_infinity

include h

/-- A new set comes where there is room, or in place of one of its kind. What remains
beside a set with one side bounds the other side only. -/
theorem beside_write {s t : ScalarSet α}
    (hs : (∃ v, r.conflict? v s = none) ∨ r.carries s.kind = true) (hbelow : r.below = some t)
    (habove : r.above = some t) : s.boundsBelow = s.boundsAbove := by
  rcases hs with ⟨v, hc⟩ | hc
  · obtain ⟨hb, ha⟩ := conflict?_eq_none hc
    cases hsb : s.boundsBelow with
    | true => simp [hb hsb] at hbelow
    | false =>
      cases hsa : s.boundsAbove with
      | true => simp [ha hsa] at habove
      | false => rfl
  · cases hsides : s.boundsBelow || s.boundsAbove with
    | false =>
      rw [Bool.or_eq_false_iff] at hsides
      rw [hsides.1, hsides.2]
    | true =>
      obtain ⟨w, hw, hk⟩ := side_of_carries hsides hc
      have hwt : w = t := by
        rcases hw with hw | hw
        · exact Option.some.inj (hw.symm.trans hbelow)
        · exact Option.some.inj (hw.symm.trans habove)
      obtain ⟨hb, ha⟩ := ScalarSet.sides_of_kind hk
      rw [← hb, ← ha, hwt, (h.below t hbelow).1, (h.above t habove).1]

theorem write {s : ScalarSet α} (hr : s.InRange)
    (hs : (∃ v, r.conflict? v s = none) ∨ r.carries s.kind = true) : (r.write s).Coherent where
  below t ht := by
    simp only [VariableRecord.write] at ht ⊢
    cases hb : s.boundsBelow with
    | true =>
      simp only [hb, if_true, Option.some.injEq] at ht
      subst ht
      exact ⟨hb, fun ha => by rw [if_pos ha]⟩
    | false =>
      simp only [hb, Bool.false_eq_true, if_false] at ht
      refine ⟨(h.below t ht).1, fun ha => ?_⟩
      have habove := (h.below t ht).2 ha
      rw [if_neg, habove]
      rw [← h.beside_write hs ht habove, hb]
      simp
  above t ht := by
    simp only [VariableRecord.write] at ht ⊢
    cases ha : s.boundsAbove with
    | true =>
      simp only [ha, if_true, Option.some.injEq] at ht
      subst ht
      exact ⟨ha, fun hb => by rw [if_pos hb]⟩
    | false =>
      simp only [ha, Bool.false_eq_true, if_false] at ht
      refine ⟨(h.above t ht).1, fun hb => ?_⟩
      have hbelow := (h.above t ht).2 hb
      rw [if_neg, hbelow]
      rw [h.beside_write hs hbelow ht, ha]
      simp
  lower := by
    rw [lower_write]
    cases hl : s.lower? with
    | none => exact h.lower
    | some l => exact hr.1 l hl
  upper := by
    rw [upper_write]
    cases hu : s.upper? with
    | none => exact h.upper
    | some u => exact hr.2 u hu

theorem release [OrderedScalar α] (k : Kind) : (r.release k).Coherent where
  below t ht := by
    obtain ⟨ht, hk⟩ := Option.filter_eq_some_iff.1 ht
    refine ⟨(h.below t ht).1, fun ha => ?_⟩
    exact Option.filter_eq_some_iff.2 ⟨(h.below t ht).2 ha, hk⟩
  above t ht := by
    obtain ⟨ht, hk⟩ := Option.filter_eq_some_iff.1 ht
    refine ⟨(h.above t ht).1, fun hb => ?_⟩
    exact Option.filter_eq_some_iff.2 ⟨(h.above t ht).2 hb, hk⟩
  lower := by
    rw [lower_release]
    split_ifs
    · exact lowerBound_neg_infinity
    · exact h.lower
  upper := by
    rw [upper_release]
    split_ifs
    · exact upperBound_infinity
    · exact h.upper

theorem change [OrderedScalar α] {e : Edit α} (he : e.InRange) {v : VariableIndex}
    {r' : VariableRecord α} (hr : RecordChange e v r r') : r'.Coherent := by
  cases hr with
  | write hs hfit => exact h.write (he _ hs) hfit
  | release _ => exact h.release _
  | retype t => exact ⟨h.below, h.above, h.lower, h.upper⟩

end VariableRecord.Coherent

/-- Every record of a history in range is coherent. -/
theorem Ledger.coherent_runAll [OrderedScalar α] {es : List (Edit α)}
    (hes : ∀ e ∈ es, e.InRange) {v : VariableIndex} {r : VariableRecord α}
    (hr : (Ledger.runAll es {}).2.vars v = some r) : r.Coherent :=
  Ledger.vars_runAll .free es (fun _ _ h => by cases h)
    (fun e he _ _ _ h hchange => h.change (hes e he) hchange) v r hr

/-! ### Sets of single variables -/

/-- Sets of one kind with equal numbers. -/
def ScalarSet.same : ScalarSet α → ScalarSet α → Bool
  | .lessThan u, .lessThan u' => u == u'
  | .greaterThan l, .greaterThan l' => l == l'
  | .equalTo v, .equalTo v' => v == v'
  | .interval l u, .interval l' u' => l == l' && u == u'
  | .zeroOne, .zeroOne => true
  | .integer, .integer => true
  | _, _ => false

/-- The set of a kind as it is read off a column. -/
def Column.set (c : Column α) : Kind → ScalarSet α
  | .lessThan => .lessThan c.upper
  | .greaterThan => .greaterThan c.lower
  | .equalTo => .equalTo c.lower
  | .interval => .interval c.lower c.upper
  | .zeroOne => .zeroOne
  | _ => .integer

theorem Model.VariableAt.constraintSet {m : Model α} {i k : Nat} {info : VariableInfo}
    {c : Column α} (hat : m.VariableAt i k info c) {kind : Kind}
    (hlive : m.liveInfo ⟨.singleVariable, kind, k⟩ = .ok info) :
    m.constraintSet (.constraint ⟨.singleVariable, kind, k⟩) = .ok (c.set kind) := by
  have hcolumn : m.problem.column info.column = .ok c := by
    rw [hat.number, Problem.column_of_getElem hat.column]
  simp only [Model.constraintSet, IndexArg.constraint?, bind_ok, if_true, hlive, hcolumn,
    Except.mapError]
  cases kind <;> rfl

/-- A column that holds a coherent record has the sets of the record. -/
theorem VariableRecord.Holds.set_same {r : VariableRecord α} {c : Column α} (h : r.Holds c)
    (hr : r.Coherent) {k : Kind} (hk : r.carries k = true) : ((c.set k).same (r.set k)) = true := by
  have hl := h.lower hr.lower
  have hu := h.upper hr.upper
  -- a set from below is found first; it may stand on both sides
  have hbelow : ∀ s, r.below = some s → s.kind = k → ((c.set k).same (r.set k)) = true := by
    rintro s hs rfl
    have hset : r.set s.kind = s := by simp [VariableRecord.set, hs, Option.filter]
    obtain ⟨hsb, hsa⟩ := hr.below s hs
    rw [hset]
    cases s with
    | greaterThan l =>
      have hlower : (c.lower == l) = true := by
        simpa [VariableRecord.lower, hs, ScalarSet.lower?] using hl
      exact hlower
    | equalTo v =>
      have hlower : (c.lower == v) = true := by
        simpa [VariableRecord.lower, hs, ScalarSet.lower?] using hl
      exact hlower
    | interval l u =>
      have hlower : (c.lower == l) = true := by
        simpa [VariableRecord.lower, hs, ScalarSet.lower?] using hl
      have hupper : (c.upper == u) = true := by
        simpa [VariableRecord.upper, hsa rfl, ScalarSet.upper?] using hu
      simp only [ScalarSet.kind, Column.set, ScalarSet.same, hlower, hupper, Bool.and_self]
    | _ => cases hsb
  simp only [carries, Bool.or_eq_true, decide_eq_true_eq] at hk
  rcases hk with (hk | hk) | hk
  · obtain ⟨s, hs, hkind⟩ := Option.map_eq_some_iff.1 hk
    exact hbelow s hs hkind
  · obtain ⟨s, hs, rfl⟩ := Option.map_eq_some_iff.1 hk
    cases hsb : s.boundsBelow with
    | true => exact hbelow s ((hr.above s hs).2 hsb) rfl
    | false =>
      have hnone : (r.below.filter fun t => t.kind = s.kind) = none := by
        rw [Option.filter_eq_none_iff]
        intro t ht hkt
        have := (ScalarSet.sides_of_kind (of_decide_eq_true hkt)).1
        rw [(hr.below t ht).1, hsb] at this
        cases this
      have hset : r.set s.kind = s := by
        rw [VariableRecord.set, hnone, hs, Option.filter_some_pos (by simp)]
        rfl
      have hsa := (hr.above s hs).1
      rw [hset]
      cases s with
      | lessThan u =>
        have hupper : (c.upper == u) = true := by
          simpa [VariableRecord.upper, hs, ScalarSet.upper?] using hu
        exact hupper
      | zeroOne => cases hsa
      | integer => cases hsa
      | _ => cases hsb
  · have hnone : ∀ o : Option (ScalarSet α), (∀ s, o = some s → (s.boundsBelow || s.boundsAbove) = true) →
        (o.filter fun t => t.kind = k) = none := by
      intro o ho
      rw [Option.filter_eq_none_iff]
      intro t ht hkt
      have hkt := of_decide_eq_true hkt
      have hsides := ho t ht
      cases t <;> cases hsides <;> cases ht : r.type <;> rw [ht] at hk <;> subst hkt <;> cases hk
    have hb := hnone r.below fun s hs => by rw [(hr.below s hs).1]; rfl
    have ha := hnone r.above fun s hs => by rw [(hr.above s hs).1, Bool.or_true]
    rw [VariableRecord.set, hb, ha]
    cases ht : r.type <;> rw [ht] at hk <;> cases hk <;> rfl

/-! ### One side -/

/-- An edit that writes or deletes bounds from above only. -/
def Edit.OnlyAbove (e : Edit α) : Prop :=
  (∃ u, e.bound? = some (.lessThan u)) ∨
    ∃ v, e = .delete (.constraint ⟨.singleVariable, .lessThan, v⟩)

def Edit.OnlyBelow (e : Edit α) : Prop :=
  (∃ l, e.bound? = some (.greaterThan l)) ∨
    ∃ v, e = .delete (.constraint ⟨.singleVariable, .greaterThan, v⟩)

theorem lower_of_onlyAbove {e : Edit α} (he : e.OnlyAbove) {v : VariableIndex}
    {r r' : VariableRecord α} (hr : r.Coherent) (h : RecordChange e v r r') :
    r'.lower = r.lower := by
  cases h with
  | write hs _ =>
    rcases he with ⟨u, hu⟩ | ⟨w, rfl⟩
    · cases hs.symm.trans hu
      exact VariableRecord.lower_write r _
    · cases hs
  | release hk =>
    rcases he with ⟨u, hu⟩ | ⟨w, rfl⟩
    · cases hk ▸ hu
    · cases hk
      rw [VariableRecord.lower_release, if_neg]
      intro heq
      obtain ⟨s, hs, hkind⟩ := Option.map_eq_some_iff.1 heq
      have hside := (ScalarSet.sides_of_kind (t := .lessThan 0) hkind).1
      rw [(hr.below s hs).1] at hside
      cases hside
  | retype t => rfl

theorem upper_of_onlyBelow {e : Edit α} (he : e.OnlyBelow) {v : VariableIndex}
    {r r' : VariableRecord α} (hr : r.Coherent) (h : RecordChange e v r r') :
    r'.upper = r.upper := by
  cases h with
  | write hs _ =>
    rcases he with ⟨u, hu⟩ | ⟨w, rfl⟩
    · cases hs.symm.trans hu
      exact VariableRecord.upper_write r _
    · cases hs
  | release hk =>
    rcases he with ⟨u, hu⟩ | ⟨w, rfl⟩
    · cases hk ▸ hu
    · cases hk
      rw [VariableRecord.upper_release, if_neg]
      intro heq
      obtain ⟨s, hs, hkind⟩ := Option.map_eq_some_iff.1 heq
      have hside := (ScalarSet.sides_of_kind (t := .greaterThan 0) hkind).2
      rw [(hr.above s hs).1] at hside
      cases hside
  | retype t => rfl

/-! ### Every history -/

theorem Model.length_constraintIndices (m : Model α) (s : Kind) :
    (m.constraintIndices .singleVariable s).length =
      m.vars.entries.countP fun e => e.2.carries s := by
  simp only [Model.constraintIndices, List.length_map, List.length_mergeSort,
    List.countP_eq_length_filter]

/-- The columns and the counts of a model say what its ledger says. -/
structure HoldsBounds (m : Model α) (L : Ledger α) : Prop where
  column : ∀ v, m.isValid (.var v) = true → ∃ r c, L.vars v = some r ∧ m.column? v = some c ∧
    (∀ k, m.isValid (.constraint ⟨.singleVariable, k, v.value⟩) = r.carries k) ∧
    (c.lower == r.lower) = true ∧ (c.upper == r.upper) = true ∧
    c.bound = boundKind c.lower c.upper ∧
    (c.kind = .integer ↔ r.carries .zeroOne = true ∨ r.carries .integer = true)
  set : ∀ k v, m.isValid (.constraint ⟨.singleVariable, k, v⟩) = true →
    ∃ s t, m.constraintSet (.constraint ⟨.singleVariable, k, v⟩) = .ok s ∧
      L.constraintSet (.constraint ⟨.singleVariable, k, v⟩) = .ok t ∧ s.same t = true
  binaries : m.binaries = (m.constraintIndices .singleVariable .zeroOne).length
  integers : m.integers = (m.constraintIndices .singleVariable .integer).length

/-- An edit of one side changes no column on the other one. -/
def Edit.SparesOtherSide (e : Edit α) (m : Model α) : Prop :=
  ∀ v c c', m.column? v = some c → (Edit.runAll [e] m).2.column? v = some c' →
    (e.OnlyAbove → (c'.lower == c.lower) = true) ∧ (e.OnlyBelow → (c'.upper == c.upper) = true)

namespace Represents

variable [OrderedScalar α] {m : Model α} {L : Ledger α} (h : Represents m L)
  (hL : ∀ v r, L.vars v = some r → r.Coherent)
include h hL

omit [OrderedScalar α] in
theorem holdsBounds : HoldsBounds m L where
  column v hv := by
    obtain ⟨-, hm⟩ | ⟨i, k, r, info, c, rfl, hr, hm, hat, hshape⟩ := h.live_cases v
    · rw [Model.isValid, h.wf.vars.contains_eq, hm] at hv
      cases hv
    · have hholds := h.holds hr (hat.column? h.wf)
      have hcoherent := hL _ _ hr
      have htype : r.type = info.type := congrArg (·.2.2) hshape
      refine ⟨r, c, hr, hat.column? h.wf, fun kind => ?_, hholds.lower hcoherent.lower,
        hholds.upper hcoherent.upper, hholds.bound hcoherent.lower hcoherent.upper, ?_⟩
      · rw [h.isValid, Ledger.isValid, hr]
        rfl
      · rw [hholds.kind, carries_of_shape hshape, carries_of_shape hshape, htype]
        cases ht : info.type <;> simp [VariableInfo.carries, ht]
  set k v hv := by
    obtain ⟨-, hlive⟩ | ⟨i, n, r, info, c, rfl, hat, hshape, hcarries, hr, hsingle, hlive⟩ :=
      h.single_cases k v
    · have hcarries : m.carries ⟨.singleVariable, k, v⟩ = true := hv
      rw [Model.liveInfo, if_pos hcarries, Model.info_constraint m rfl] at hlive
      simp only [Model.carries] at hcarries
      cases hm : m.vars.get? v with
      | none => simp [hm] at hcarries
      | some info => simp [hm] at hlive
    · refine ⟨c.set k, r.set k, hat.constraintSet hlive, ?_, ?_⟩
      · simp [Ledger.constraintSet, IndexArg.constraint?, hsingle]
      · exact (h.holds hr (hat.column? h.wf)).set_same (hL _ _ hr)
          (carries_of_shape hshape k ▸ hcarries)
  binaries := by rw [Model.length_constraintIndices, h.binaries]; rfl
  integers := by rw [Model.length_constraintIndices, h.integers]; rfl

omit hL [OrderedScalar α] in
theorem vars_of_column {v : VariableIndex} {c : Column α} (hc : m.column? v = some c) :
    ∃ r, L.vars v = some r := by
  obtain ⟨-, hm⟩ | ⟨r, info, hr, -, -⟩ := h.vars_cases v
  · rw [Model.column?, hm] at hc
    cases hc
  · exact ⟨r, hr⟩

theorem sparesOtherSide {e : Edit α} (he : e.InRange) : e.SparesOtherSide m := by
  intro v c c' hc hc'
  obtain ⟨-, hend⟩ := Represents.runAll [e] h fun e' he' => by
    rw [List.mem_singleton.1 he']
    exact he.isNaN
  obtain ⟨r, hr⟩ := h.vars_of_column hc
  obtain ⟨r', hr'⟩ := hend.vars_of_column hc'
  have hcoherent := hL v r hr
  have hholds := h.holds hr hc
  have hholds' := hend.holds hr' hc'
  -- the record after the edit: the same or changed on one side
  have hrecord : r' = {} ∧ (e = .addVariable ∨ ∃ n, e = .addVariables n) ∨ r' = r ∨
      RecordChange e v r r' := by
    rw [Ledger.runAll] at hr'
    cases hrun : L.run e with
    | error f =>
      rw [hrun] at hr'
      exact .inr (.inl (Option.some.inj (hr'.symm.trans hr)))
    | ok p =>
      rw [hrun] at hr'
      rcases (Ledger.run_step hrun).vars hr' with hfree | hsame | ⟨r₀, h₀, hchange⟩
      · exact .inl hfree
      · exact .inr (.inl (Option.some.inj (hsame.symm.trans hr)))
      · exact .inr (.inr (Option.some.inj (h₀.symm.trans hr) ▸ hchange))
  constructor
  · intro hside
    have hlower : r'.lower = r.lower := by
      rcases hrecord with ⟨-, hadd⟩ | rfl | hchange
      · rcases hadd with rfl | ⟨n, rfl⟩ <;> rcases hside with ⟨u, hu⟩ | ⟨w, hw⟩ <;>
          first | cases hu | cases hw
      · rfl
      · exact lower_of_onlyAbove hside hcoherent hchange
    have hkept := hholds'.lower (hlower ▸ hcoherent.lower)
    exact OrderedScalar.beq_trans (hlower ▸ hkept)
      (OrderedScalar.beq_symm (hholds.lower hcoherent.lower))
  · intro hside
    have hupper : r'.upper = r.upper := by
      rcases hrecord with ⟨-, hadd⟩ | rfl | hchange
      · rcases hadd with rfl | ⟨n, rfl⟩ <;> rcases hside with ⟨u, hu⟩ | ⟨w, hw⟩ <;>
          first | cases hu | cases hw
      · rfl
      · exact upper_of_onlyBelow hside hcoherent hchange
    have hkept := hholds'.upper (hupper ▸ hcoherent.upper)
    exact OrderedScalar.beq_trans (hupper ▸ hkept)
      (OrderedScalar.beq_symm (hholds.upper hcoherent.upper))

end Represents

/-- After every history of edits in range, failures included, the columns hold the bounds
and the types that stand in the ledger, and one more edit of one side spares the other. -/
theorem runAll_holds_bounds [OrderedScalar α] (m : Model α) (es : List (Edit α))
    (hes : ∀ e ∈ es, e.InRange) :
    HoldsBounds (Edit.runAll es m.emptied).2 (Ledger.runAll es {}).2 ∧
      ∀ e : Edit α, e.InRange → e.SparesOtherSide (Edit.runAll es m.emptied).2 := by
  obtain ⟨-, hend⟩ := Represents.runAll es (.emptied m) fun e he => (hes e he).isNaN
  have hcoherent := fun v r => Ledger.coherent_runAll (v := v) (r := r) hes
  exact ⟨hend.holdsBounds hcoherent, fun e he => hend.sparesOtherSide hcoherent he⟩

/-- A pair of bounds that is written, closed, crossed and opened again, beside another
variable that goes. -/
def crossingHistory : List (Edit Float) :=
  [.addVariables 2,
    .addConstraint (.var ⟨2⟩) (.set (.greaterThan 3)),
    .addConstraint (.var ⟨2⟩) (.set (.lessThan 3)),
    .addConstraint (.single ⟨2⟩) (.set (.equalTo 1)),
    .delete (.var ⟨1⟩),
    .setConstraintSet (.constraint ⟨.singleVariable, .lessThan, 2⟩) (.set (.lessThan (-7.5))),
    .addConstraint (.var ⟨2⟩) (.set .zeroOne),
    .setConstraintSet (.constraint ⟨.singleVariable, .greaterThan, 2⟩)
      (.set (.greaterThan (-Scalar.infinity)))]

theorem runAll_holds_bounds_crossing : (∀ e ∈ crossingHistory, e.InRange) ∧
    HoldsBounds (Edit.runAll crossingHistory (Model.emptied {})).2
      (Ledger.runAll crossingHistory {}).2 := by
  have hrange : ∀ e ∈ crossingHistory, e.InRange := by decide +kernel
  exact ⟨hrange, (runAll_holds_bounds {} crossingHistory hrange).1⟩

end MixedInteger
