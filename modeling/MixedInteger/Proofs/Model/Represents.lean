import MixedInteger.Proofs.Model.Consolidation
import Mathlib.Data.List.Induction

/-! When a model stands for a ledger. What the ledger says of an identity is read off the
column or row that belongs to it now. A model that stands for a ledger answers every
question as the ledger does. -/

namespace MixedInteger

variable {α : Type} [Scalar α]

namespace Model

/-- The coefficients of a row by identity. -/
def termOf (m : Model α) (r : Row α) : Terms α := fun v =>
  (m.vars.get? v.value).bind fun info => r.coefs.lookup info.column

def affineRecord? (m : Model α) (k : Int) : Option (AffineRecord α) :=
  (m.affine.get? k).bind fun info =>
    (m.problem.rows[info.row - 1]?).map fun r => ⟨info.set, m.termOf r⟩

def column? (m : Model α) (v : VariableIndex) : Option (Column α) :=
  (m.vars.get? v.value).bind fun info => m.problem.columns[info.column - 1]?

def cost? (m : Model α) : Terms α := fun v => (m.column? v).bind fun c => nonzero? c.cost

/-- How many variables have a type. -/
def typed (m : Model α) (t : TypeState) : Nat := m.vars.entries.countP fun e => e.2.type = t

end Model

structure Represents (m : Model α) (L : Ledger α) : Prop where
  wf : m.WellFormed
  lastVariable : L.lastVariable = m.vars.last
  vars : ∀ v, (L.vars v).map (·.shape) = (m.vars.get? v.value).map (·.shape)
  lastAffine : L.lastAffine = m.affine.last
  affine : ∀ k, L.affine k = m.affineRecord? k
  cost : ∀ v, L.cost v = m.cost? v
  constant : L.constant = m.problem.constant
  objectiveKind : L.objectiveKind = m.objectiveKind
  holds : ∀ {v r c}, L.vars v = some r → m.column? v = some c → r.Holds c
  binaries : m.binaries = m.typed .binary
  integers : m.integers = m.typed .integer

namespace Model

/-! ### Columns and rows of identities -/

section At
variable {m : Model α} {i k : Nat} (hm : m.WellFormed)
include hm

theorem VariableAt.termOf {info : VariableInfo} {c : Column α} (h : m.VariableAt i k info c)
    (r : Row α) : m.termOf r ⟨k⟩ = r.coefs.lookup (i + 1) := by
  rw [Model.termOf, h.get? hm, Option.bind_some, h.number]

theorem VariableAt.column? {info : VariableInfo} {c : Column α} (h : m.VariableAt i k info c) :
    m.column? ⟨k⟩ = some c := by
  rw [Model.column?, h.get? hm, Option.bind_some, h.number, Nat.add_sub_cancel, h.column]

theorem VariableAt.cost? {info : VariableInfo} {c : Column α} (h : m.VariableAt i k info c) :
    m.cost? ⟨k⟩ = nonzero? c.cost := by
  rw [Model.cost?, h.column? hm, Option.bind_some]

theorem RowAt.affineRecord? {info : ConstraintInfo α} {r : Row α} (h : m.RowAt i k info r) :
    m.affineRecord? k = some ⟨info.set, m.termOf r⟩ := by
  rw [Model.affineRecord?, h.get? hm, Option.bind_some, h.number, Nat.add_sub_cancel, h.row]
  rfl

end At

theorem affineRecord?_eq_none {m : Model α} {k : Int} (h : m.affine.get? k = none) :
    m.affineRecord? k = none := by
  rw [Model.affineRecord?, h]
  rfl

end Model

/-! ### Lists of identities -/

namespace Registry

variable {V : Type}

/-- The identities of a registry are the live ones from one to the last. -/
theorem Valid.keys_eq {r : Registry V} (hr : r.Valid) :
    r.keys = Ledger.identities r.last fun k => (r.get? k).isSome := by
  have hsorted : (Ledger.identities r.last fun k => (r.get? k).isSome).Pairwise (· < ·) := by
    refine List.Pairwise.filter _ (List.pairwise_map.2 ?_)
    exact List.pairwise_lt_range.imp fun h => by omega
  refine List.Perm.eq_of_pairwise (fun a b _ _ hab hba => by omega) hr.sorted hsorted ?_
  refine (List.perm_ext_iff_of_nodup hr.nodup (hsorted.imp fun h => Nat.ne_of_lt h)).2 fun k => ?_
  simp only [Ledger.identities, List.mem_filter, List.mem_map, List.mem_range,
    Option.isSome_iff_exists]
  constructor
  · intro hk
    obtain ⟨⟨k, v⟩, he, rfl⟩ := List.mem_map.1 hk
    have hpos := hr.pos k hk
    have hlast := hr.le_last k hk
    exact ⟨⟨k - 1, by omega, by omega⟩, v, hr.get?_of_mem he⟩
  · rintro ⟨-, v, hv⟩
    obtain ⟨n, hn, hm⟩ := hr.get?_eq_some_iff_mem.1 hv
    have hn : k = n := by exact_mod_cast hn
    exact hn ▸ List.mem_map_of_mem hm

theorem Valid.filter_keys_eq {r : Registry V} (hr : r.Valid) (p : V → Bool) :
    (r.entries.filter fun e => p e.2).map (·.1) =
      Ledger.identities r.last fun k => (r.get? k).any p := by
  have hfilter : (r.entries.filter fun e => p e.2).map (·.1) =
      r.keys.filter fun (k : Nat) => (r.get? k).any p := by
    rw [keys, List.filter_map]
    congr 1
    refine List.filter_congr fun e he => ?_
    simp [hr.get?_of_mem he]
  rw [hfilter, hr.keys_eq, Ledger.identities, Ledger.identities, List.filter_filter]
  refine List.filter_congr fun k _ => ?_
  cases r.get? k <;> simp

theorem Valid.mergeSort_keys {r : Registry V} (hr : r.Valid) :
    r.keys.mergeSort (· ≤ ·) = r.keys :=
  List.mergeSort_of_pairwise (hr.sorted.imp fun h => by simpa using Nat.le_of_lt h)

end Registry

theorem identities_mergeSort (last : Nat) (live : Nat → Bool) :
    (Ledger.identities last live).mergeSort (· ≤ ·) = Ledger.identities last live := by
  refine List.mergeSort_of_pairwise (List.Pairwise.filter _ (List.pairwise_map.2 ?_))
  exact List.pairwise_lt_range.imp fun h => by simp; omega

/-- Numbered entries are picked place by place. -/
theorem filterMap_numbered {β γ : Type} (g : Nat × β → Option γ) (xs : List β) :
    (((List.range xs.length).map (· + 1)).zip xs).filterMap g =
      (List.range xs.length).filterMap fun i => (xs[i]?).bind fun x => g (i + 1, x) := by
  induction xs using List.reverseRecOn with
  | nil => rfl
  | append_singleton ys y ih =>
    have hrest : (List.range ys.length).filterMap
        (fun i => ((ys ++ [y])[i]?).bind fun x => g (i + 1, x)) =
        (List.range ys.length).filterMap fun i => (ys[i]?).bind fun x => g (i + 1, x) :=
      List.filterMap_congr fun i hi => by
        rw [List.getElem?_append_left (List.mem_range.1 hi)]
    rw [List.length_append, List.length_singleton, List.range_succ, List.map_append,
      List.zip_append (by simp), List.filterMap_append, List.filterMap_append, ih, hrest]
    simp [List.filterMap_cons]

/-! ### Listing by identity -/

namespace Model

/-- Terms by identity. -/
def list (m : Model α) (t : Terms α) : List (Term α) :=
  m.variableIndices.filterMap fun v => (t v).map fun x => ⟨x, v⟩

section
variable {m : Model α} (hm : m.WellFormed)
include hm

theorem WellFormed.variableIndices_eq :
    m.variableIndices = m.vars.keys.map fun (k : Nat) => ⟨k⟩ := by
  rw [Model.variableIndices, hm.vars.mergeSort_keys]

/-- What a column holds for its variable, listed by column, is listed by identity. -/
theorem WellFormed.list_eq (t : Terms α) (g : Nat → Option α)
    (hg : ∀ {i k info c}, m.VariableAt i k info c → g i = t ⟨k⟩) :
    ((List.range m.vars.entries.length).filterMap fun i =>
      (g i).map fun x => (⟨x, m.variableOf (i + 1)⟩ : Term α)) = m.list t := by
  have hrange : m.vars.keys = (List.range m.vars.entries.length).map
      fun i => m.vars.keys.getD i 0 := by
    refine List.ext_getElem? fun i => ?_
    rw [List.getElem?_map]
    by_cases hi : i < m.vars.entries.length
    · simp [hi, Registry.keys]
    · simp [hi, Registry.keys]
  rw [list, hm.variableIndices_eq, hrange, List.map_map, List.filterMap_map]
  refine List.filterMap_congr fun i hi => ?_
  have hlt := List.mem_range.1 hi
  have hentry : m.vars.entries[i]? = some (m.vars.entries[i].1, m.vars.entries[i].2) :=
    List.getElem?_eq_getElem hlt
  obtain ⟨c, hat⟩ := hm.variableAt_of_getElem hentry
  have hkey : m.vars.keys.getD i 0 = m.vars.entries[i].1 := by
    simp [Registry.keys, hlt]
  simp only [Function.comp_apply, Model.variableOf, Nat.add_sub_cancel, hkey, hg hat]

/-- The terms of a row by column are its terms by identity. -/
theorem WellFormed.terms_eq {i k : Nat} {info : ConstraintInfo α} {r : Row α}
    (hat : m.RowAt i k info r) :
    (r.entries.filter fun e => !(e.2 == 0)).map (fun e => ⟨e.2, m.variableOf e.1⟩) =
      m.list (m.termOf r) := by
  have hfits := hat.fits hm
  have hfilter : r.entries.filter (fun e => !(e.2 == 0)) = r.entries :=
    List.filter_eq_self.2 fun e he => by simp [hfits.nonzero e (List.mem_mergeSort.1 he)]
  rw [hfilter, hfits.entries_eq, hm.columnCount, List.map_filterMap,
    ← hm.list_eq (m.termOf r) (fun i => r.coefs.lookup (i + 1)) fun hv => (hv.termOf hm r).symm]
  simp only [Option.map_map, Function.comp_def]

/-- The costs of columns are the terms of the objective. -/
theorem WellFormed.affineObjective_eq :
    m.affineObjective = ⟨m.list m.cost?, m.problem.constant⟩ := by
  have hterms : (m.problem.numberedColumns.filter fun e => !(e.2.cost == 0)).map
      (fun e => (⟨e.2.cost, m.variableOf e.1⟩ : Term α)) = m.list m.cost? := by
    rw [← hm.list_eq m.cost? (fun i => (m.problem.columns[i]?).bind fun c => nonzero? c.cost)
      fun hv => by rw [hv.cost? hm, hv.column]; rfl]
    rw [← hm.columnCount, Problem.numberedColumns, Problem.columnCount,
      ← List.filterMap_eq_map, List.filterMap_filter, filterMap_numbered]
    refine List.filterMap_congr fun i _ => ?_
    cases m.problem.columns[i]? with
    | none => rfl
    | some c => cases hz : c.cost == 0 <;> simp [nonzero?, hz]
  exact congrArg (AffineFunction.mk · _) hterms

end

end Model

namespace Represents

variable {m : Model α} {L : Ledger α} (h : Represents m L)
include h

/-! ### The same answers -/

theorem isSome_vars (v : VariableIndex) : (L.vars v).isSome = (m.vars.get? v.value).isSome := by
  have := congrArg Option.isSome (h.vars v)
  simpa using this

/-- A variable is live in both or in neither. -/
theorem vars_cases (v : VariableIndex) :
    (L.vars v = none ∧ m.vars.get? v.value = none) ∨
      ∃ r info, L.vars v = some r ∧ m.vars.get? v.value = some info ∧ r.shape = info.shape := by
  have hv := h.vars v
  cases hr : L.vars v with
  | none =>
    rw [hr] at hv
    exact .inl ⟨rfl, Option.map_eq_none_iff.1 hv.symm⟩
  | some r =>
    rw [hr] at hv
    obtain ⟨info, hi, hs⟩ := Option.map_eq_some_iff.1 hv.symm
    exact .inr ⟨r, info, rfl, hi, hs.symm⟩

/-- The record of the variable at a place. -/
theorem recordAt {i k : Nat} {info : VariableInfo} {c : Column α}
    (hat : m.VariableAt i k info c) :
    ∃ r, L.vars ⟨k⟩ = some r ∧ r.type = info.type ∧ r.Holds c := by
  obtain ⟨hnone, hdead⟩ | ⟨r, info', hr, hinfo, hshape⟩ := h.vars_cases ⟨k⟩
  · cases hdead.symm.trans (hat.get? h.wf)
  · cases hinfo.symm.trans (hat.get? h.wf)
    exact ⟨r, hr, congrArg (·.2.2) hshape, h.holds hr (hat.column? h.wf)⟩

theorem affine_cases (k : Int) :
    (L.affine k = none ∧ m.affine.get? k = none) ∨
      ∃ (i n : Nat) (info : ConstraintInfo α) (row : Row α), k = n ∧ m.RowAt i n info row ∧
        L.affine k = some ⟨info.set, m.termOf row⟩ := by
  cases hi : m.affine.get? k with
  | none => exact .inl ⟨by rw [h.affine, Model.affineRecord?_eq_none hi], rfl⟩
  | some info =>
    obtain ⟨i, n, row, rfl, hat⟩ := h.wf.rowAt hi
    exact .inr ⟨i, n, info, row, rfl, hat, by rw [h.affine, hat.affineRecord? h.wf]⟩

theorem any_vars (v : VariableIndex) (k : Kind) :
    (L.vars v).any (·.carries k) = (m.vars.get? v.value).any (·.carries k) := by
  obtain ⟨hL, hm⟩ | ⟨r, info, hL, hm, hs⟩ := h.vars_cases v
  · simp [hL, hm]
  · simp [hL, hm, carries_of_shape hs]

theorem any_affine (k : Int) (s : Kind) :
    (L.affine k).any (·.set.kind = s) = (m.affine.get? k).any (·.set.kind = s) := by
  obtain ⟨hL, hm⟩ | ⟨i, n, info, row, rfl, hat, hL⟩ := h.affine_cases k
  · simp [hL, hm]
  · simp [hL, hat.get? h.wf]

theorem isValid (i : IndexArg α) : m.isValid i = L.isValid i := by
  cases i with
  | var v => rw [Model.isValid, Ledger.isValid, h.wf.vars.contains_eq, h.isSome_vars]
  | raw v => rfl
  | constraint c =>
    simp only [Model.isValid, Model.carries, Ledger.isValid]
    cases c.function
    case singleVariable =>
      rw [h.any_vars]
      cases m.vars.get? c.value <;> rfl
    case scalarAffine =>
      rw [h.any_affine]
      cases m.affine.get? c.value <;> rfl
    all_goals rfl

theorem keys_eq : m.vars.keys = Ledger.identities L.lastVariable fun k => (L.vars ⟨k⟩).isSome := by
  rw [h.wf.vars.keys_eq, h.lastVariable]
  exact congrArg _ (funext fun k => (h.isSome_vars ⟨k⟩).symm)

theorem variableIndices : m.variableIndices = L.variableIndices := by
  rw [h.wf.variableIndices_eq, h.keys_eq]
  rfl

theorem size_vars : m.vars.size = L.variableIndices.length := by
  rw [← h.variableIndices, Model.variableIndices, List.length_map, List.length_mergeSort,
    Registry.keys, List.length_map, Registry.size]

theorem constraintIndices (f s : Kind) : m.constraintIndices f s = L.constraintIndices f s := by
  unfold Model.constraintIndices Ledger.constraintIndices
  cases f
  case singleVariable =>
    have hany : (fun k : Nat => (L.vars ⟨k⟩).any (·.carries s)) =
        fun k : Nat => (m.vars.get? k).any (·.carries s) := funext fun k => h.any_vars ⟨k⟩ s
    have hkeys := h.wf.vars.filter_keys_eq (·.carries s)
    simp only [hany, h.lastVariable, hkeys, identities_mergeSort]
  case scalarAffine =>
    have hany : (fun k : Nat => (L.affine k).any (·.set.kind = s)) =
        fun k : Nat => (m.affine.get? k).any (·.set.kind = s) := funext fun k => h.any_affine k s
    have hkeys := h.wf.affine.filter_keys_eq fun info => decide (info.set.kind = s)
    simp only [hany, h.lastAffine, hkeys, identities_mergeSort]
  all_goals simp

theorem constraintTypes : m.constraintTypes = L.constraintTypes := by
  simp only [Model.constraintTypes, Ledger.constraintTypes, h.constraintIndices]

theorem list_eq (t : Terms α) : m.list t = L.list t := by
  rw [Model.list, h.variableIndices]
  rfl

theorem single_cases (kind : Kind) (value : Int) :
    (L.single ⟨.singleVariable, kind, value⟩ =
        .error (.model (.invalidIndex (.constraint ⟨.singleVariable, kind, value⟩))) ∧
      m.liveInfo ⟨.singleVariable, kind, value⟩ =
        .error (.model (.invalidIndex (.constraint ⟨.singleVariable, kind, value⟩)))) ∨
      ∃ (i k : Nat) (r : VariableRecord α) (info : VariableInfo) (c : Column α), value = k ∧
        m.VariableAt i k info c ∧ r.shape = info.shape ∧ info.carries kind = true ∧
        L.vars ⟨k⟩ = some r ∧ L.single ⟨.singleVariable, kind, value⟩ = .ok r ∧
        m.liveInfo ⟨.singleVariable, kind, value⟩ = .ok info := by
  rw [Model.liveInfo_eq m rfl, Ledger.single]
  obtain ⟨hL, hm⟩ | ⟨r, info, hL, hm, hs⟩ := h.vars_cases ⟨value⟩
  · exact .inl (by simp [hL, hm, Ledger.invalid])
  · simp only at hm
    cases hk : info.carries kind with
    | false => exact .inl (by simp [hL, hm, Option.filter, carries_of_shape hs, hk, Ledger.invalid])
    | true =>
      obtain ⟨i, k, c, rfl, hat⟩ := h.wf.variableAt hm
      exact .inr ⟨i, k, r, info, c, rfl, hat, hs, hk, hL,
        by simp [hL, Option.filter, carries_of_shape hs, hk], by simp [hm, Option.filter, hk]⟩

theorem affineOf_cases (c : ConstraintIndex) :
    (L.affineOf c = Ledger.invalid (.constraint c) ∧
        m.affineInfo c = .error (.model (.invalidIndex (.constraint c)))) ∨
      ∃ (i k : Nat) (info : ConstraintInfo α) (r : Row α), c = ⟨.scalarAffine, info.set.kind, k⟩ ∧
        m.RowAt i k info r ∧ L.affineOf c = .ok ⟨info.set, m.termOf r⟩ ∧
        m.affineInfo c = .ok info := by
  rw [Model.affineInfo_eq, Ledger.affineOf]
  by_cases hc : c.function = .scalarAffine
  · rw [if_pos hc, if_pos hc]
    obtain ⟨hL, hm⟩ | ⟨i, k, info, r, hv, hat, hL⟩ := h.affine_cases c.value
    · exact .inl (by simp [hL, hm])
    · have hget : m.affine.get? c.value = some info := hv ▸ hat.get? h.wf
      by_cases hk : info.set.kind = c.set
      · refine .inr ⟨i, k, info, r, ?_, hat, by simp [hL, Option.filter, hk],
          by simp [hget, Option.filter, hk]⟩
        rw [hk, ← hv, ← hc]
      · exact .inl (by simp [hL, hget, Option.filter, hk])
  · rw [if_neg hc, if_neg hc]
    exact .inl ⟨rfl, rfl⟩

theorem constraintFunction (i : IndexArg α) : m.constraintFunction i = L.constraintFunction i := by
  rw [Model.constraintFunction, Ledger.constraintFunction]
  cases i with
  | var v => rfl
  | raw v => rfl
  | constraint c =>
    obtain ⟨function, set, value⟩ := c
    by_cases hc : function = .singleVariable
    · subst hc
      obtain ⟨hL, hm⟩ | ⟨i, k, r, info, c, -, -, -, -, -, hL, hm⟩ := h.single_cases set value <;>
        simp [IndexArg.constraint?, hL, hm, bind, Except.bind, pure, Except.pure]
    · obtain ⟨hL, hm⟩ | ⟨i, k, info, r, -, hat, hL, hm⟩ := h.affineOf_cases ⟨function, set, value⟩
      · simp [IndexArg.constraint?, hc, hL, hm, bind, Except.bind, Ledger.invalid]
      · have hrow : m.problem.matrixRow info.row = .ok r.entries := by
          rw [Problem.matrixRow, hat.number, Problem.row_of_getElem hat.row]
          rfl
        simp [IndexArg.constraint?, hc, hL, hm, hrow, h.wf.terms_eq hat, h.list_eq, bind,
          Except.bind, pure, Except.pure, Except.mapError]

omit h in
/-- A set is read back from the bounds that it gives a row. -/
theorem set_of_rowBound {s : ScalarSet α} {r : Row α} (hs : s.rowBound? = some r.bounds) :
    (match s.kind with
      | .greaterThan => .greaterThan (if r.bound.hasLower then r.lower else r.upper)
      | .equalTo => .equalTo (if r.bound.hasLower then r.lower else r.upper)
      | _ => .lessThan (if r.bound.hasLower then r.lower else r.upper)) = s := by
  obtain ⟨name, bound, lower, upper, coefs⟩ := r
  cases s <;> cases hs <;> rfl

/-- The set of an affine constraint is the one its row has the bounds of. -/
theorem constraintSet_affine (c : ConstraintIndex) (hc : c.function = .scalarAffine) :
    m.constraintSet (.constraint c) = L.constraintSet (.constraint c) := by
  rw [Model.constraintSet, Ledger.constraintSet]
  obtain ⟨hL, hm⟩ | ⟨i, k, info, r, rfl, hat, hL, hm⟩ := h.affineOf_cases c
  · simp [IndexArg.constraint?, hc, hL, hm, bind, Except.bind, Ledger.invalid]
  · have hrow : m.problem.row info.row = .ok r := by
      rw [hat.number, Problem.row_of_getElem hat.row]
    simp only [IndexArg.constraint?, hL, hm, hrow, bind, Except.bind, pure, Except.pure,
      Except.mapError, reduceCtorEq, if_false]
    exact congrArg Except.ok (set_of_rowBound hat.bounds)

theorem affineObjective_eq : m.affineObjective = ⟨L.list L.cost, L.constant⟩ := by
  have hcost : L.cost = m.cost? := funext h.cost
  rw [h.wf.affineObjective_eq, h.constant, hcost, h.list_eq]

theorem objective : m.objective = L.objective := by
  rewrite [Model.objective, Ledger.objective, h.affineObjective_eq, h.objectiveKind]
  rfl

end Represents

end MixedInteger
