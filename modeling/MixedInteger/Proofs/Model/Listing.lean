import MixedInteger.Proofs.Model.Represents

/-! The lists of what is live. Variables come by identity. Constraints come affine ones
first, then by the name of the kind of their set, then by identity; each list has no
repetitions and exactly the live entries. -/

namespace MixedInteger

variable {α : Type} [Scalar α]

/-- The kinds of sets by name. -/
def setKinds : List Kind := [.equalTo, .greaterThan, .integer, .interval, .lessThan, .zeroOne]

/-- The order in which constraints of one kind of function are listed. -/
def ConstraintIndex.before (c d : ConstraintIndex) : Prop :=
  setKinds.idxOf c.set < setKinds.idxOf d.set ∨ c.set = d.set ∧ c.value < d.value

theorem ConstraintIndex.before_irrefl (c : ConstraintIndex) : ¬c.before c := by
  rintro (h | ⟨-, h⟩) <;> omega

theorem ConstraintIndex.before_asymm {c d : ConstraintIndex} (h : c.before d) : ¬d.before c := by
  rintro (h' | ⟨hk', h'⟩) <;> obtain h | ⟨hk, h⟩ := h
  · omega
  · rw [hk] at h'
    omega
  · rw [hk'] at h
    omega
  · omega

omit [Scalar α] in
theorem ScalarSet.kind_mem (s : ScalarSet α) : s.kind ∈ setKinds := by
  cases s <;> simp [kind, setKinds]

omit [Scalar α] in
/-- Only kinds of sets are carried. -/
theorem VariableRecord.exists_of_carries {r : VariableRecord α} {k : Kind}
    (h : r.carries k = true) : ∃ s : ScalarSet α, s.kind = k := by
  simp only [carries, Bool.or_eq_true, decide_eq_true_eq] at h
  rcases h with (h | h) | h
  · obtain ⟨s, -, hs⟩ := Option.map_eq_some_iff.1 h
    exact ⟨s, hs⟩
  · obtain ⟨s, -, hs⟩ := Option.map_eq_some_iff.1 h
    exact ⟨s, hs⟩
  · cases ht : r.type <;> rw [ht] at h <;> cases h
    · exact ⟨.zeroOne, rfl⟩
    · exact ⟨.integer, rfl⟩

namespace Ledger

theorem mem_identities {last : Nat} {live : Nat → Bool} {k : Nat} :
    k ∈ identities last live ↔ (0 < k ∧ k ≤ last) ∧ live k = true := by
  rw [identities, List.mem_filter]
  refine and_congr_left fun _ => ?_
  rw [List.mem_map]
  constructor
  · rintro ⟨i, hi, rfl⟩
    have := List.mem_range.1 hi
    omega
  · rintro ⟨hpos, hle⟩
    exact ⟨k - 1, List.mem_range.2 (by omega), by omega⟩

theorem pairwise_identities (last : Nat) (live : Nat → Bool) :
    (identities last live).Pairwise (· < ·) := by
  refine List.Pairwise.filter _ (List.pairwise_map.2 ?_)
  exact List.pairwise_lt_range.imp fun h => by omega

theorem nodup_variableIndices (L : Ledger α) : L.variableIndices.Nodup := by
  refine List.pairwise_map.2 ((pairwise_identities ..).imp fun {i j} hij heq => ?_)
  cases heq
  exact absurd hij (Nat.lt_irrefl _)

/-- The constraints of one kind of function. -/
def listed (L : Ledger α) (function : Kind) : List ConstraintIndex :=
  setKinds.flatMap (L.constraintIndices function)

variable {L : Ledger α}

theorem of_mem_constraintIndices {f s : Kind} {c : ConstraintIndex}
    (hc : c ∈ L.constraintIndices f s) : c.function = f ∧ c.set = s := by
  obtain ⟨k, -, rfl⟩ := List.mem_map.1 hc
  exact ⟨rfl, rfl⟩

theorem pairwise_constraintIndices (L : Ledger α) (f s : Kind) :
    (L.constraintIndices f s).Pairwise ConstraintIndex.before := by
  have hsorted : ∀ keys : List Nat, keys.Pairwise (· < ·) →
      (keys.map fun (k : Nat) => (⟨f, s, k⟩ : ConstraintIndex)).Pairwise
        ConstraintIndex.before := by
    intro keys h
    refine List.pairwise_map.2 (h.imp fun hlt => .inr ⟨rfl, ?_⟩)
    exact Int.ofNat_lt.2 hlt
  unfold constraintIndices
  refine hsorted _ ?_
  cases f
  case singleVariable => exact pairwise_identities ..
  case scalarAffine => exact pairwise_identities ..
  all_goals exact List.Pairwise.nil

theorem pairwise_listed (L : Ledger α) (f : Kind) :
    (L.listed f).Pairwise ConstraintIndex.before := by
  have hranks : setKinds.Pairwise fun s t => setKinds.idxOf s < setKinds.idxOf t := by decide
  refine List.pairwise_flatMap.2 ⟨fun s _ => L.pairwise_constraintIndices f s, ?_⟩
  refine hranks.imp fun {s t} hst c hc d hd => .inl ?_
  rwa [(of_mem_constraintIndices hc).2, (of_mem_constraintIndices hd).2]

theorem nodup_listed (L : Ledger α) (f : Kind) : (L.listed f).Nodup :=
  (L.pairwise_listed f).imp fun {c d} h heq => by
    subst heq
    exact c.before_irrefl h

end Ledger

/-- The constraints of a model by the kinds of functions and sets. -/
theorem Model.allConstraints_eq (m : Model α) : m.allConstraints =
    setKinds.flatMap (m.constraintIndices .scalarAffine) ++
      setKinds.flatMap (m.constraintIndices .singleVariable) := by
  have hkinds : Model.constraintKinds = (setKinds.map fun s => (Kind.scalarAffine, s)) ++
      setKinds.map fun s => (Kind.singleVariable, s) := rfl
  have hdrop : ∀ kinds : List (Kind × Kind),
      (kinds.filter fun e => !(m.constraintIndices e.1 e.2).isEmpty).flatMap
        (fun e => m.constraintIndices e.1 e.2) =
      kinds.flatMap fun e => m.constraintIndices e.1 e.2 := by
    intro kinds
    induction kinds with
    | nil => rfl
    | cons e kinds ih =>
      cases hempty : (m.constraintIndices e.1 e.2).isEmpty with
      | true => simp [ih, List.isEmpty_iff.1 hempty]
      | false => simp [hempty, ih]
  rw [Model.allConstraints, Model.constraintTypes, hdrop, hkinds, List.flatMap_append,
    List.flatMap_map, List.flatMap_map]

namespace Represents

variable {m : Model α} {L : Ledger α} (h : Represents m L)
include h

/-- A variable that is live has one of the identities that were given out. -/
theorem range_of_vars {v : VariableIndex} {r : VariableRecord α} (hr : L.vars v = some r) :
    ∃ k : Nat, v = ⟨k⟩ ∧ 0 < k ∧ k ≤ L.lastVariable := by
  obtain ⟨hnone, -⟩ | ⟨r', info, -, hm, -⟩ := h.vars_cases v
  · cases hr.symm.trans hnone
  · obtain ⟨i, k, hv, he⟩ := h.wf.vars.get?_eq_some.1 hm
    have hk : k ∈ m.vars.keys := List.mem_map_of_mem (List.mem_of_getElem? he)
    exact ⟨k, congrArg VariableIndex.mk hv, h.wf.vars.pos k hk,
      h.lastVariable ▸ h.wf.vars.le_last k hk⟩

theorem range_of_affine {n : Int} {r : AffineRecord α} (hr : L.affine n = some r) :
    ∃ k : Nat, n = k ∧ 0 < k ∧ k ≤ L.lastAffine := by
  obtain ⟨hnone, -⟩ | ⟨i, k, info, row, rfl, hat, -⟩ := h.affine_cases n
  · cases hr.symm.trans hnone
  · have hk : k ∈ m.affine.keys := List.mem_map_of_mem (List.mem_of_getElem? hat.entry)
    exact ⟨k, rfl, h.wf.affine.pos k hk, h.lastAffine ▸ h.wf.affine.le_last k hk⟩

theorem mem_variableIndices {v : VariableIndex} :
    v ∈ L.variableIndices ↔ (L.vars v).isSome = true := by
  simp only [Ledger.variableIndices, List.mem_map, Ledger.mem_identities]
  constructor
  · rintro ⟨k, ⟨-, hk⟩, rfl⟩
    exact hk
  · intro hv
    obtain ⟨r, hr⟩ := Option.isSome_iff_exists.1 hv
    obtain ⟨k, rfl, hpos, hle⟩ := h.range_of_vars hr
    exact ⟨k, ⟨⟨hpos, hle⟩, hv⟩, rfl⟩

theorem mem_listed {f : Kind} {c : ConstraintIndex} :
    c ∈ L.listed f ↔ c.function = f ∧ L.isValid (.constraint c) = true := by
  obtain ⟨function, set, value⟩ := c
  rw [Ledger.listed, List.mem_flatMap]
  constructor
  · rintro ⟨s, -, hc⟩
    obtain ⟨rfl, rfl⟩ := Ledger.of_mem_constraintIndices hc
    obtain ⟨k, hk, heq⟩ := List.mem_map.1 hc
    cases heq
    refine ⟨rfl, ?_⟩
    cases function
    case singleVariable => exact (Ledger.mem_identities.1 hk).2
    case scalarAffine => exact (Ledger.mem_identities.1 hk).2
    all_goals cases hk
  · rintro ⟨rfl, hlive⟩
    cases function
    case singleVariable =>
      obtain ⟨r, hr, hcarries⟩ := (Option.any_eq_true _ _).1 hlive
      obtain ⟨k, hk, hpos, hle⟩ := h.range_of_vars hr
      cases hk
      obtain ⟨s, rfl⟩ := VariableRecord.exists_of_carries hcarries
      exact ⟨s.kind, s.kind_mem,
        List.mem_map.2 ⟨k, Ledger.mem_identities.2 ⟨⟨hpos, hle⟩, hlive⟩, rfl⟩⟩
    case scalarAffine =>
      obtain ⟨r, hr, hkind⟩ := (Option.any_eq_true _ _).1 hlive
      obtain ⟨k, rfl, hpos, hle⟩ := h.range_of_affine hr
      have hset : r.set.kind = set := of_decide_eq_true hkind
      refine ⟨set, hset ▸ r.set.kind_mem, ?_⟩
      exact List.mem_map.2 ⟨k, Ledger.mem_identities.2 ⟨⟨hpos, hle⟩, hlive⟩, rfl⟩
    all_goals cases hlive

theorem mem_listed_append {c : ConstraintIndex} :
    c ∈ L.listed .scalarAffine ++ L.listed .singleVariable ↔
      m.isValid (.constraint c) = true := by
  rw [List.mem_append, h.mem_listed, h.mem_listed, ← or_and_right, h.isValid]
  refine and_iff_right_of_imp fun hlive => ?_
  obtain ⟨function, set, value⟩ := c
  cases function <;> first | exact .inl rfl | exact .inr rfl | cases hlive

/-- All constraints: the affine ones, then those on single variables. -/
theorem allConstraints :
    m.allConstraints = L.listed .scalarAffine ++ L.listed .singleVariable := by
  have hkind : ∀ f, m.constraintIndices f = L.constraintIndices f :=
    fun f => funext (h.constraintIndices f)
  rw [m.allConstraints_eq, hkind, hkind, Ledger.listed, Ledger.listed]

end Represents

end MixedInteger
