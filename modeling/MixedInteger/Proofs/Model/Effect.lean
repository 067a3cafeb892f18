import MixedInteger.Proofs.Model.Run
import MixedInteger.Proofs.Number.Order

/-! What a call does to a well-formed model. Once its lookups have succeeded, a call
answers with a model that is written down here in full; only a bound that the problem
refuses makes a later step fail. -/

namespace MixedInteger

variable {α : Type} [Scalar α]

/-! ### Pieces of the outcomes -/

/-- The registry with `n` more free variables, in columns at the end. -/
def Registry.enroll (r : Registry VariableInfo) : Nat → Registry VariableInfo
  | 0 => r
  | n + 1 => enroll (r.add { index := ⟨(r.last + 1 : Nat)⟩, column := r.size + 1 }).1 n

def VariableInfo.closeGap (j : Nat) (info : VariableInfo) : VariableInfo :=
  { info with column := MixedInteger.closeGap j info.column }

def ConstraintInfo.closeGap (j : Nat) (info : ConstraintInfo α) : ConstraintInfo α :=
  { info with row := MixedInteger.closeGap j info.row }

/-- The kind and sides that a pair of bounds gets. -/
def storedBounds (lower upper : α) : BoundKind × α × α :=
  (boundKind lower upper, (boundKind lower upper).sides lower upper)

/-- A column with new bounds. -/
def Column.rebound (c : Column α) (b : BoundChange α) : Column α :=
  { c with
    bound := boundKind (b.lower.getD c.lower) (b.upper.getD c.upper)
    lower := (storedBounds (b.lower.getD c.lower) (b.upper.getD c.upper)).2.1
    upper := (storedBounds (b.lower.getD c.lower) (b.upper.getD c.upper)).2.2 }

/-- New bounds that are not crossed and still leave no room. -/
def Problem.refusesChange (p : Problem α) (c : Column α) (b : BoundChange α) : Bool :=
  let lower := b.lower.getD c.lower
  let upper := b.upper.getD c.upper
  !decide (upper < lower) && p.refuses (boundKind lower upper) (storedBounds lower upper).2.1
    (storedBounds lower upper).2.2

/-- A row with the bounds of a set. -/
def Row.within (r : Row α) (b : BoundKind × α × α) : Row α :=
  { r with bound := b.1, lower := b.2.1, upper := b.2.2 }

namespace Model

/-- The model with `n` more free variables. -/
def grown (m : Model α) (n : Nat) : Model α :=
  { m with
    vars := m.vars.enroll n
    problem := { m.problem with
      columns := m.problem.columns ++ List.replicate n ({} : Column α) }.padSolutions }

/-- The model without the variable at place `i`. -/
def withoutVariable (m : Model α) (i k : Nat) (info : VariableInfo) : Model α :=
  { m with
    problem := { m.problem with
      columns := m.problem.columns.eraseIdx i
      rows := m.problem.rows.map (Row.dropColumns [i + 1]) }.forgetSolutions
    vars := (m.vars.eraseAt i).mapValues (VariableInfo.closeGap (i + 1))
    variableNames := m.variableNames.update info.name "" (.var ⟨k⟩)
    constraintNames :=
      if [info.upperName, info.lowerName, info.typeName].any (· != "") then
        m.constraintNames.invalidate
      else m.constraintNames
    binaries := m.binaries + if info.type = .binary then -1 else 0
    integers := m.integers + if info.type = .integer then -1 else 0 }

/-- The model without the affine constraint at place `i`. -/
def withoutRow (m : Model α) (i : Nat) (info : ConstraintInfo α) : Model α :=
  { m with
    problem := { m.problem with rows := m.problem.rows.eraseIdx i }.forgetSolutions
    affine := (m.affine.eraseAt i).mapValues (ConstraintInfo.closeGap (i + 1))
    constraintNames :=
      if info.name ≠ "" then m.constraintNames.invalidate else m.constraintNames }

/-- The model with one more affine constraint. -/
def withRow (m : Model α) (s : ScalarSet α) (r : Row α) : Model α :=
  { m with
    affine := (m.affine.add ⟨m.affine.size + 1, s, ""⟩).1
    problem := { m.problem with rows := m.problem.rows ++ [r] }.padSolutions }

/-- The model with another column at place `i`. -/
def withColumn (m : Model α) (i : Nat) (f : Column α → Column α) : Model α :=
  { m with problem := { m.problem with columns := m.problem.columns.modify i f } }

/-- The model with another row at place `i`. -/
def withRowAt (m : Model α) (i : Nat) (f : Row α → Row α) : Model α :=
  { m with problem := { m.problem with rows := m.problem.rows.modify i f } }

def withVariable (m : Model α) (k : Int) (f : VariableInfo → VariableInfo) : Model α :=
  { m with vars := m.vars.modify k f }

def withConstraint (m : Model α) (k : Int) (f : ConstraintInfo α → ConstraintInfo α) : Model α :=
  { m with affine := m.affine.modify k f }

end Model

namespace Registry

/-- A value that is changed right after it was added. -/
theorem Valid.modify_add {V : Type} {r : Registry V} (hr : r.Valid) (v : V) (f : V → V) :
    (r.add v).1.modify (r.last + 1 : Nat) f = (r.add (f v)).1 := by
  have he : (r.add v).1.entries[r.entries.length]? = some (r.last + 1, v) := by
    simp [Registry.add]
  rw [(hr.add v).modify_of_getElem he]
  simp only [Registry.add, modify_concat]

end Registry

namespace Modelling

open Model

variable {m : Model α}

/-! ### Variables -/

theorem registerVariable_run (hv : m.vars.Valid)
    (hc : m.problem.columns[m.vars.size]? = some {}) :
    registerVariable (m.vars.size + 1) m =
      .ok ⟨(m.vars.last + 1 : Nat)⟩ { m with vars := m.vars.enroll 1 } := by
  have hcols : m.problem.columns.modify m.vars.size (fun c =>
      { c with bound := .free, lower := -Scalar.infinity, upper := Scalar.infinity }) =
      m.problem.columns := modify_of_fixed fun c h => by
    rw [hc] at h
    cases h
    rfl
  have hset : m.problem.setColumnBounds ((m.vars.size + 1 : Nat) : Int) .free 0 0 =
      .ok m.problem := by
    have hfree : BoundKind.free ≠ .double := by simp
    rw [Problem.setColumnBounds_of_getElem hc]
    simp only [BoundKind.sides, hcols, Problem.refuses_of_ne hfree]
    rfl
  have hadd := hv.modify_add ⟨⟨0⟩, 0, .none, .continuous, "", "", "", ""⟩ fun info =>
    { info with index := ⟨(m.vars.last + 1 : Nat)⟩, column := m.vars.size + 1 }
  simp only [registerVariable, bind_run, get_run, set_run, Registry.enroll]
  rw [change_ok hset]
  simp only [pure_run]
  rw [← hadd]
  rfl

theorem addVariable_run (hm : m.WellFormed) :
    addVariable m = .ok ⟨(m.vars.last + 1 : Nat)⟩ (m.grown 1) := by
  have hp : ((m.problem.addColumns 1).map (·.1)) = .ok (m.grown 1).problem := rfl
  have hc : (m.grown 1).problem.columns[m.vars.size]? = some {} := by
    rw [Registry.size, ← hm.columnCount]
    simp [grown, Problem.padSolutions]
  rw [addVariable, bind_run, change_ok hp]
  exact registerVariable_run (m := { m with problem := (m.grown 1).problem }) hm.vars hc

/-- Registering the columns from the first unregistered one on. -/
theorem registerVariables_run (base first : Nat) : ∀ (n s : Nat) (m : Model α), m.vars.Valid →
    first + s = m.vars.size + 1 → base + s = m.vars.last + 1 →
    (∀ i, m.vars.size ≤ i → i < m.vars.size + n → m.problem.columns[i]? = some {}) →
    ((List.range' s n).mapM fun i => registerVariable (first + i)) m =
      .ok ((List.range' s n).map fun i => ⟨(base + i : Nat)⟩)
        { m with vars := m.vars.enroll n }
  | 0, _, _, _, _, _, _ => rfl
  | n + 1, s, m, hv, hf, hb, hc => by
    have hsize : ∀ v, (m.vars.add v).1.size = m.vars.size + 1 := by
      simp [Registry.add, Registry.size]
    have hfirst := registerVariable_run hv (hc m.vars.size (by omega) (by omega))
    have hrest := registerVariables_run base first n (s + 1)
      { m with vars := m.vars.enroll 1 } (hv.add _)
      (by rw [Registry.enroll, Registry.enroll, hsize]; omega)
      (by simp only [Registry.enroll, Registry.add]; omega)
      (fun i h₁ h₂ => by
        simp only [Registry.enroll, hsize] at h₁ h₂
        exact hc i (by omega) (by omega))
    rw [← hf] at hfirst
    rw [List.range'_succ, List.mapM_cons, bind_run, hfirst]
    simp only [bind_run, pure_run, hrest, List.map_cons, hb]
    rfl

theorem addVariables_run (hm : m.WellFormed) {n : Int} (hn : 1 ≤ n) :
    addVariables n m = .ok ((List.range n.toNat).map fun i => ⟨(m.vars.last + 1 + i : Nat)⟩)
      (m.grown n.toNat) := by
  have hp : ((m.problem.addColumns n).map (·.1)) = .ok (m.grown n.toNat).problem := by
    rw [Problem.addColumns_pos hn]
    rfl
  have hc : ∀ i, m.vars.size ≤ i → i < m.vars.size + n.toNat →
      (m.grown n.toNat).problem.columns[i]? = some {} := by
    intro i h₁ h₂
    rw [Registry.size, ← hm.columnCount] at h₁ h₂
    simp only [grown, Problem.padSolutions]
    rw [List.getElem?_append_right h₁, List.getElem?_replicate, if_pos (by omega)]
  have hchange := change_ok (f := fun p => (p.addColumns n).map (·.1)) hp
  have hrun := registerVariables_run (m.vars.last + 1) (m.vars.size + 1) n.toNat 0
    { m with problem := (m.grown n.toNat).problem } hm.vars rfl rfl hc
  rw [addVariables, if_neg (by omega), List.range_eq_range']
  simp only [bind_run, get_run, hchange]
  exact hrun

theorem deleteVariable_run (hm : m.WellFormed) {i k : Nat} {info : VariableInfo} {c : Column α}
    (h : m.VariableAt i k info c) :
    deleteVariable ⟨k⟩ m = .ok () (m.withoutVariable i k info) := by
  have hinfo : m.info (.var ⟨k⟩) = .ok info := by rw [info_var, h.get? hm]
  have hp : m.problem.forgetBasis.deleteColumns [(info.column : Int)] =
      .ok (m.withoutVariable i k info).problem := by
    rw [h.number]
    exact Problem.deleteColumns_of_getElem (p := m.problem.forgetBasis) h.column
  have hclose : (fun other : VariableInfo =>
      if info.column < other.column then { other with column := other.column - 1 } else other) =
      VariableInfo.closeGap (i + 1) := by
    funext other
    rw [h.number, VariableInfo.closeGap, closeGap]
    split_ifs <;> rfl
  simp only [deleteVariable, bind_run, query_run, hinfo, ofExcept_ok, pure_run, modify_run]
  rw [change_ok (m := { m with problem := m.problem.forgetBasis }) hp]
  cases hn : [info.upperName, info.lowerName, info.typeName].any (· != "") <;>
    simp only [hn, Bool.false_eq_true, if_true, if_false, bind_run, modify_run, count_run,
      hm.vars.delete?_of_getElem h.entry, hclose, withoutVariable]

/-! ### Bounds of variables -/

theorem setVariableBound_run {i : Nat} {c : Column α} (hc : m.problem.columns[i]? = some c)
    (b : BoundChange α) : setVariableBound (i + 1) b m =
      if m.problem.refusesChange c b then
        .error (.problem (.columnBounds ((i + 1 : Nat) : Int) (c.rebound b).lower
          (c.rebound b).upper)) m
      else .ok () (m.withColumn i (·.rebound b)) := by
  have hwrite : ∀ p : Problem α, p.columns[i]? = some c →
      p.setColumnBounds ((i + 1 : Nat) : Int)
          (boundKind (b.lower.getD c.lower) (b.upper.getD c.upper))
          (b.lower.getD c.lower) (b.upper.getD c.upper) =
        if p.refuses (c.rebound b).bound (c.rebound b).lower (c.rebound b).upper then
          .error (.columnBounds ((i + 1 : Nat) : Int) (c.rebound b).lower (c.rebound b).upper)
        else .ok { p with columns := p.columns.modify i (·.rebound b) } := by
    intro p hp
    have hmodify : p.columns.modify i (fun d => { d with
        bound := (c.rebound b).bound, lower := (c.rebound b).lower
        upper := (c.rebound b).upper }) = p.columns.modify i (·.rebound b) :=
      modify_congr_of_getElem hp rfl
    rw [Problem.setColumnBounds_of_getElem hp]
    exact hmodify ▸ rfl
  simp only [setVariableBound, bind_run, get_run, Problem.column_of_getElem hc]
  by_cases hlt : b.upper.getD c.upper < b.lower.getD c.lower
  · have hlenient := hwrite { m.problem with strict := false } hc
    rw [if_neg (by simp [Problem.refuses])] at hlenient
    rw [if_pos hlt, change_ok (Problem.leniently_eq hlenient), if_neg]
    · rfl
    · simp [Problem.refusesChange, hlt]
  · have hstrict := hwrite m.problem hc
    have hrefuse : m.problem.refusesChange c b =
        m.problem.refuses (c.rebound b).bound (c.rebound b).lower (c.rebound b).upper := by
      simp [Problem.refusesChange, hlt, Column.rebound]
    rw [if_neg hlt, hrefuse]
    split_ifs at hstrict ⊢ with hr
    · exact change_error hstrict
    · exact change_ok hstrict

/-- Numbers are never refused. -/
theorem refusesChange_eq_false [OrderedScalar α] (p : Problem α) {c : Column α}
    {b : BoundChange α} (hl : Scalar.isNaN (b.lower.getD c.lower) = false)
    (hu : Scalar.isNaN (b.upper.getD c.upper) = false) : p.refusesChange c b = false := by
  by_cases h : b.upper.getD c.upper < b.lower.getD c.lower
  · simp [Problem.refusesChange, h]
  · simp only [Problem.refusesChange, storedBounds, refuses_boundKind p hl hu h, Bool.and_false]

/-- Neither is a side that is given up, whatever the other one is. -/
theorem refusesChange_of_released [OrderedScalar α] (p : Problem α) (c : Column α)
    {b : BoundChange α}
    (h : b.lower = some (-Scalar.infinity) ∨ b.upper = some Scalar.infinity) :
    p.refusesChange c b = false := by
  have hkind : boundKind (b.lower.getD c.lower) (b.upper.getD c.upper) ≠ .double := by
    rcases h with h | h
    · simpa [h] using boundKind_neg_infinity_ne _
    · simpa [h] using boundKind_infinity_ne _
  simp only [Problem.refusesChange, Problem.refuses_of_ne hkind, Bool.and_false]

end Modelling

/-- What a set writes into the bounds of a column; a type writes nothing. -/
def ScalarSet.change : ScalarSet α → BoundChange α
  | .lessThan u => { upper := some u }
  | .greaterThan l => { lower := some l }
  | .equalTo v => { lower := some v, upper := some v }
  | .interval l u => { lower := some l, upper := some u }
  | _ => {}

omit [Scalar α] in
theorem SetArg.bounds_set (s : ScalarSet α) : (SetArg.set s).bounds =
    if s.kind.isBound then .ok s.change else .error (.notABound s.kind) := by
  cases s <;> rfl

namespace VariableInfo

theorem isBound_of_addBound {info : VariableInfo} {k : Kind} {b : BoundState}
    (h : info.addBound k = .ok b) : k.isBound := by
  cases k <;> first | rfl | cases h

/-- A set that was added is carried. -/
theorem carries_addBound {info : VariableInfo} {k : Kind} {b : BoundState}
    (h : info.addBound k = .ok b) : { info with bound := b }.carries k = true := by
  cases k <;> cases hb : info.bound <;>
    simp_all [addBound, checkLower, checkUpper, BoundState.lowerSet, BoundState.upperSet,
      carries, bind, Except.bind, pure, Except.pure]

end VariableInfo

namespace Modelling

open Model

variable {m : Model α}

theorem setConstraintSet_single_run (hm : m.WellFormed) {i k : Nat} {info : VariableInfo}
    {c : Column α} (h : m.VariableAt i k info c) {s : ScalarSet α}
    (hs : info.carries s.kind = true) :
    setConstraintSet (.constraint ⟨.singleVariable, s.kind, k⟩) (.set s) m =
      if s.kind.isBound then setVariableBound (i + 1) s.change m else .ok () m := by
  have hlive : m.liveInfo ⟨.singleVariable, s.kind, k⟩ = .ok info := by
    rw [liveInfo_eq m rfl, h.get? hm]
    simp [Option.filter, hs]
  simp only [setConstraintSet, IndexArg.constraint?, SetArg.kind, bind_run, ofExcept_ok, pure_run,
    ne_eq, not_true_eq_false, if_false, if_true, query_run, hlive, SetArg.bounds_set, h.number]
  split_ifs <;> rfl

theorem addBoundConstraint_run (hm : m.WellFormed) {i k : Nat} {info : VariableInfo}
    {c : Column α} (h : m.VariableAt i k info c) {s : ScalarSet α} {b : BoundState}
    (hb : info.addBound s.kind = .ok b) :
    addBoundConstraint ⟨k⟩ s m =
      match setVariableBound (i + 1) s.change
          (m.withVariable k fun info => { info with bound := b }) with
      | .ok _ m' => .ok ⟨.singleVariable, s.kind, k⟩ m'
      | .error e m' => .error e m' := by
  have hinfo : m.info (.var ⟨k⟩) = .ok info := by rw [info_var, h.get? hm]
  have hm' := hm.modifyVariable k (f := fun info => { info with bound := b })
    (fun _ => rfl) fun _ => rfl
  have hat : (m.withVariable k fun info => { info with bound := b }).VariableAt i k
      { info with bound := b } c := by
    refine ⟨?_, h.column, h.index, h.number⟩
    rw [withVariable, hm.vars.modify_of_getElem h.entry]
    simp [h.entry]
  have hset := setConstraintSet_single_run hm' hat (VariableInfo.carries_addBound hb)
  rw [if_pos (VariableInfo.isBound_of_addBound hb)] at hset
  simp only [addBoundConstraint, bind_run, query_run, hinfo, ofExcept_ok, pure_run, hb,
    modifyInfo_run]
  simp only [withVariable] at hset ⊢
  rw [← hset]
  split <;> next heq => rw [heq]

theorem addBoundConstraint_error {v : VariableIndex} {s : ScalarSet α} {info : VariableInfo}
    {e : BoundError} (hi : m.info (.var v) = .ok info) (he : info.addBound s.kind = .error e) :
    addBoundConstraint v s m = .error (.bound e) m := by
  simp [addBoundConstraint, hi, he]

/-- Deleting a bound never fails: an infinite side leaves room for every other one. -/
theorem deleteSingle_bound_run [OrderedScalar α] (hm : m.WellFormed) {i k : Nat}
    {info : VariableInfo} {c : Column α} (h : m.VariableAt i k info c) {kind : Kind}
    {slot : NameSlot} {b : BoundState} {change : BoundChange α}
    (hk : info.carries kind = true) (hs : NameSlot.ofKind? kind = some slot)
    (hb : info.bound.remove kind = .ok (b, change)) :
    deleteSingleConstraint ⟨.singleVariable, kind, k⟩ m = .ok ()
      { (m.withColumn i (·.rebound change)).withVariable k
          fun info => slot.set "" { info with bound := b } with
        constraintNames := m.constraintNames.update (slot.get info) ""
          ⟨.singleVariable, kind, k⟩ } := by
  have hlive : m.liveInfo ⟨.singleVariable, kind, k⟩ = .ok info := by
    rw [liveInfo_eq m rfl, h.get? hm]
    simp [Option.filter, hk]
  have hbound : kind.isBound = true := by
    cases kind <;> first | rfl | cases hb
  have hreleased : change.lower = some (-Scalar.infinity) ∨
      change.upper = some Scalar.infinity := by
    cases kind <;> cases hb <;> simp
  have hset := setVariableBound_run (m := m.withVariable k fun info => { info with bound := b })
    (c := c) h.column change
  rw [if_neg (by simp [refusesChange_of_released _ c hreleased])] at hset
  simp only [deleteSingleConstraint, bind_run, query_run, hlive, ofExcept_ok, pure_run, hbound,
    if_true, hb, modifyInfo_run, h.number, hs, renameConstraint_run]
  simp only [withVariable] at hset
  rw [hset]
  simp only [withColumn, withVariable, hm.vars.modify_modify]

/-! ### Types of variables -/

theorem addTypeConstraint_run (hm : m.WellFormed) {i k : Nat} {info : VariableInfo}
    {c : Column α} (h : m.VariableAt i k info c) (ht : info.type = .continuous) (t : TypeState)
    (kind : Kind) : addTypeConstraint ⟨k⟩ t kind m = .ok ⟨.singleVariable, kind, k⟩
      { (m.withColumn i fun c => { c with kind := .integer }).withVariable k
          fun info => { info with type := t } with
        binaries := m.binaries + if t = .binary then 1 else 0
        integers := m.integers + if t = .integer then 1 else 0 } := by
  have hinfo : m.info (.var ⟨k⟩) = .ok info := by rw [info_var, h.get? hm]
  have hkind := Problem.setColumnKind_of_getElem h.column .integer
  simp only [addTypeConstraint, bind_run, query_run, hinfo, ofExcept_ok, pure_run, ht, ne_eq,
    not_true_eq_false, if_false, h.number]
  rw [change_ok hkind]
  simp only [modifyInfo_run, count_run]
  rfl

theorem addTypeConstraint_error {v : VariableIndex} {info : VariableInfo} {t : TypeState}
    {kind : Kind} (hi : m.info (.var v) = .ok info) (ht : info.type ≠ .continuous) :
    addTypeConstraint v t kind m = .error (.model (.typeTaken v info.type)) m := by
  simp [addTypeConstraint, hi, ht]

theorem deleteSingle_type_run (hm : m.WellFormed) {i k : Nat} {info : VariableInfo}
    {c : Column α} (h : m.VariableAt i k info c) {kind : Kind} (hk : info.carries kind = true)
    (hs : NameSlot.ofKind? kind = some .type) :
    deleteSingleConstraint ⟨.singleVariable, kind, k⟩ m = .ok ()
      { (m.withColumn i fun c => { c with kind := .continuous }).withVariable k
          fun info => NameSlot.type.set "" { info with type := .continuous } with
        binaries := m.binaries + if info.type = .binary then -1 else 0
        integers := m.integers + if info.type = .integer then -1 else 0
        constraintNames := m.constraintNames.update info.typeName ""
          ⟨.singleVariable, kind, k⟩ } := by
  have hlive : m.liveInfo ⟨.singleVariable, kind, k⟩ = .ok info := by
    rw [liveInfo_eq m rfl, h.get? hm]
    simp [Option.filter, hk]
  have hbound : kind.isBound = false := by
    cases kind <;> first | rfl | cases hs
  have hkind := Problem.setColumnKind_of_getElem h.column .continuous
  simp only [deleteSingleConstraint, bind_run, query_run, hlive, ofExcept_ok, pure_run, hbound,
    Bool.false_eq_true, if_false, h.number, hs]
  rw [change_ok hkind]
  simp only [count_run, modifyInfo_run, renameConstraint_run]
  rw [hm.vars.modify_modify]
  rfl

end Modelling

end MixedInteger
