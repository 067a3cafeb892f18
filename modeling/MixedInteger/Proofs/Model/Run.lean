import MixedInteger.Model.Constraint
import MixedInteger.Model.Objective
import MixedInteger.Model.Result
import MixedInteger.Proofs.Model.Canonical
import MixedInteger.Proofs.Model.WellFormed
import MixedInteger.Proofs.Steps

/-! Calls on a model, run step by step, and what they look up before they change
anything. A lookup fails on the first index that is dead. The value of a live variable and the
dual of a live row are read at the place where the column or the row stands: from a certificate
that is held, or else from the solution of the last algorithm, where what was never written is
zero. -/

namespace MixedInteger

variable {α : Type} [Scalar α]

namespace Modelling

/-! ### Steps -/

section Steps
variable {β : Type} (m : Model α)

@[simp] theorem ofExcept_ok (b : β) : (ofExcept (.ok b) : Modelling α β) = pure b := rfl

@[simp] theorem ofExcept_error (e : Fault α) :
    (ofExcept (.error e) : Modelling α β) = throw e := rfl

@[simp] theorem query_run (f : Model α → Except (Fault α) β) :
    query f m = ofExcept (f m) m := rfl

theorem query_bind_error {β γ : Type} {m : Model α} {f : Model α → Except (Fault α) β}
    {e : Fault α} (h : f m = .error e) (g : β → Modelling α γ) :
    (query f >>= g) m = .error e m := by
  simp [h]

theorem change_ok {m : Model α} {f : Problem α → Except (ProblemError α) (Problem α)}
    {p : Problem α} (h : f m.problem = .ok p) : change f m = .ok () { m with problem := p } := by
  simp [change, h]

theorem change_error {m : Model α} {f : Problem α → Except (ProblemError α) (Problem α)}
    {e : ProblemError α} (h : f m.problem = .error e) :
    change f m = .error (.problem e) m := by
  simp [change, h]

@[simp] theorem modifyInfo_run (k : Int) (f : VariableInfo → VariableInfo) :
    modifyInfo k f m = .ok () { m with vars := m.vars.modify k f } := rfl

@[simp] theorem renameConstraint_run (old new : String) (c : ConstraintIndex) :
    renameConstraint old new c m =
      .ok () { m with constraintNames := m.constraintNames.update old new c } := rfl

@[simp] theorem count_run (t : TypeState) (n : Int) : count t n m = .ok () { m with
    binaries := m.binaries + if t = .binary then n else 0
    integers := m.integers + if t = .integer then n else 0 } := by
  cases t <;> simp [count]

end Steps

end Modelling

namespace Model

/-! ### Lookups -/

section Lookup
variable (m : Model α)

theorem info_var (v : VariableIndex) : m.info (.var v) =
    match m.vars.get? v.value with
    | some info => .ok info
    | none => .error (.model (.invalidIndex (.var v))) := rfl

theorem info_constraint {c : ConstraintIndex} (hc : c.function = .singleVariable) :
    m.info (.constraint c) = match m.vars.get? c.value with
      | some info => .ok info
      | none => .error (.model (.invalidIndex (.constraint c))) := by
  rw [info, if_pos hc]
  rfl

theorem carries_single {c : ConstraintIndex} (hc : c.function = .singleVariable) :
    m.carries c = (m.vars.get? c.value).any fun info => info.carries c.set := by
  rw [carries, hc]
  cases m.vars.get? c.value <;> rfl

/-- A live constraint on a single variable is one that its variable carries. -/
theorem liveInfo_eq {c : ConstraintIndex} (hc : c.function = .singleVariable) :
    m.liveInfo c = match (m.vars.get? c.value).filter fun info => info.carries c.set with
      | some info => .ok info
      | none => .error (.model (.invalidIndex (.constraint c))) := by
  rw [liveInfo, carries_single m hc, info_constraint m hc]
  cases h : m.vars.get? c.value with
  | none => rfl
  | some info =>
    cases hk : info.carries c.set <;> simp [Option.filter, hk, invalid]

theorem affineInfo_eq (c : ConstraintIndex) : m.affineInfo c =
    match (if c.function = .scalarAffine then m.affine.get? c.value else none).filter
      fun info => info.set.kind = c.set with
    | some info => .ok info
    | none => .error (.model (.invalidIndex (.constraint c))) := rfl

end Lookup

section Cases
variable {m : Model α} (hm : m.WellFormed)
include hm

/-- The variable of an index has a column, or the index is refused. -/
theorem WellFormed.info_cases (i : IndexArg α) : (∃ e, m.info i = .error e) ∨
    ∃ (j k : Nat) (info : VariableInfo) (c : Column α), m.info i = .ok info ∧
      m.VariableAt j k info c ∧ ∀ v, i = .var v → v = ⟨k⟩ := by
  cases hi : m.info i with
  | error e => exact .inl ⟨e, rfl⟩
  | ok info =>
    cases i with
    | raw x => cases hi
    | var v =>
      rw [info_var] at hi
      cases hv : m.vars.get? v.value with
      | none => simp [hv] at hi
      | some info' =>
        obtain ⟨j, k, c, hk, hat⟩ := hm.variableAt hv
        simp only [hv, Except.ok.injEq] at hi
        refine .inr ⟨j, k, info, c, rfl, hi ▸ hat, fun w hw => ?_⟩
        cases hw
        exact congrArg VariableIndex.mk hk
    | constraint c =>
      by_cases hc : c.function = .singleVariable
      · rw [info_constraint m hc] at hi
        cases hv : m.vars.get? c.value with
        | none => simp [hv] at hi
        | some info' =>
          obtain ⟨j, k, d, -, hat⟩ := hm.variableAt hv
          simp only [hv, Except.ok.injEq] at hi
          exact .inr ⟨j, k, info, d, rfl, hi ▸ hat, fun w hw => by cases hw⟩
      · simp [Model.info, hc, invalid] at hi

theorem WellFormed.single_cases (kind : Kind) (value : Int) :
    (∃ e, m.liveInfo ⟨.singleVariable, kind, value⟩ = .error e) ∨
      ∃ (i k : Nat) (info : VariableInfo) (c : Column α), value = k ∧ m.VariableAt i k info c ∧
        info.carries kind = true ∧ m.liveInfo ⟨.singleVariable, kind, value⟩ = .ok info := by
  rw [liveInfo_eq m rfl]
  cases hf : (m.vars.get? value).filter fun info => info.carries kind with
  | none => exact .inl ⟨_, rfl⟩
  | some info =>
    obtain ⟨hv, hk⟩ := Option.filter_eq_some_iff.1 hf
    obtain ⟨i, k, c, rfl, hat⟩ := hm.variableAt hv
    exact .inr ⟨i, k, info, c, rfl, hat, hk, rfl⟩

theorem WellFormed.affine_cases (c : ConstraintIndex) : (∃ e, m.affineInfo c = .error e) ∨
    ∃ (i k : Nat) (info : ConstraintInfo α) (r : Row α), c = ⟨.scalarAffine, info.set.kind, k⟩ ∧
      m.RowAt i k info r ∧ m.affineInfo c = .ok info := by
  obtain ⟨function, set, value⟩ := c
  rw [affineInfo_eq]
  by_cases hc : function = .scalarAffine
  · subst hc
    rw [if_pos rfl]
    cases hf : (m.affine.get? value).filter fun info => info.set.kind = set with
    | none => exact .inl ⟨_, rfl⟩
    | some info =>
      obtain ⟨hv, hk⟩ := Option.filter_eq_some_iff.1 hf
      obtain ⟨i, k, r, rfl, hat⟩ := hm.rowAt hv
      exact .inr ⟨i, k, info, r, by rw [of_decide_eq_true hk], hat, rfl⟩
  · rw [if_neg hc]
    exact .inl ⟨_, rfl⟩

end Cases

/-- The first variable of the terms that is not live. -/
def firstDead (m : Model α) (ts : List (Term α)) : Option VariableIndex :=
  (ts.find? fun t => (m.vars.get? t.var.value).isNone).map (·.var)

theorem firstDead_eq_none {m : Model α} {ts : List (Term α)}
    (hlive : ∀ t ∈ ts, (m.vars.get? t.var.value).isSome = true) : m.firstDead ts = none := by
  rw [firstDead, Option.map_eq_none_iff, List.find?_eq_none]
  intro t ht
  rw [Option.isNone_iff_eq_none]
  exact Option.isSome_iff_ne_none.1 (hlive t ht)

/-- A function over live variables has a canonical form over live variables. -/
theorem firstDead_canonical_eq_none {m : Model α} {f : AffineFunction α}
    (hlive : ∀ t ∈ f.terms, (m.vars.get? t.var.value).isSome = true) :
    m.firstDead f.canonical.terms = none := by
  refine firstDead_eq_none fun t ht => ?_
  obtain ⟨u, hu, hvar⟩ := List.mem_map.1 (AffineFunction.mem_vars_canonical ht)
  exact hvar ▸ hlive u hu

/-- The columns and coefficients of the canonical form. -/
def coefsOf (m : Model α) (f : AffineFunction α) : List (Nat × α) :=
  f.canonical.terms.filterMap fun t =>
    (m.vars.get? t.var.value).map fun info => (info.column, t.coefficient)

theorem mapM_columns (m : Model α) : ∀ ts : List (Term α),
    (ts.mapM (fun t => do return ((← m.info (.var t.var)).column : Int)) :
        Except (Fault α) (List Int)) =
      match m.firstDead ts with
      | some v => .error (.model (.invalidIndex (.var v)))
      | none => .ok ((ts.filterMap fun t => (m.vars.get? t.var.value).map fun info =>
          (info.column, t.coefficient)).map fun e => (e.1 : Int))
  | [] => rfl
  | t :: ts => by
    have ih := mapM_columns m ts
    rw [List.mapM_cons, ih, info_var]
    cases h : m.vars.get? t.var.value with
    | none => simp [firstDead, h, bind, Except.bind]
    | some info =>
      have hd : m.firstDead (t :: ts) = m.firstDead ts := by simp [firstDead, h]
      rw [hd]
      cases m.firstDead ts <;>
        simp [h, bind, Except.bind, pure, Except.pure]

theorem rowOf_eq (m : Model α) (f : AffineFunction α) : m.rowOf f =
    match m.firstDead f.canonical.terms with
    | some v => .error (.model (.invalidIndex (.var v)))
    | none => .ok ((m.coefsOf f).map fun e => (e.1 : Int), (m.coefsOf f).map (·.2)) := by
  rw [rowOf, mapM_columns]
  cases hd : m.firstDead f.canonical.terms with
  | some v => rfl
  | none =>
    have hlive : ∀ t ∈ f.canonical.terms, (m.vars.get? t.var.value).isSome := by
      intro t ht
      simp only [firstDead, Option.map_eq_none_iff, List.find?_eq_none] at hd
      simpa [Option.isSome_iff_ne_none] using hd t ht
    have hvalues : (m.coefsOf f).map (·.2) = f.canonical.terms.map (·.coefficient) := by
      rw [coefsOf]
      generalize f.canonical.terms = ts at hlive
      induction ts with
      | nil => rfl
      | cons t ts ih =>
        obtain ⟨info, hi⟩ := Option.isSome_iff_exists.1 (hlive t List.mem_cons_self)
        have := ih fun u hu => hlive u (List.mem_cons_of_mem _ hu)
        simpa [List.filterMap_cons, hi] using this
    rw [hvalues]
    rfl

theorem mem_coefsOf {m : Model α} {f : AffineFunction α} {e : Nat × α} (h : e ∈ m.coefsOf f) :
    ∃ t ∈ f.canonical.terms, ∃ info, m.vars.get? t.var.value = some info ∧
      e = (info.column, t.coefficient) := by
  simp only [coefsOf, List.mem_filterMap, Option.map_eq_some_iff] at h
  obtain ⟨t, ht, info, hi, rfl⟩ := h
  exact ⟨t, ht, info, hi, rfl⟩

section Coefs
variable {m : Model α} (hm : m.WellFormed)
include hm

/-- Live variables are told apart by their columns. -/
theorem WellFormed.column_inj {v w : Int} {info info' : VariableInfo}
    (hv : m.vars.get? v = some info) (hw : m.vars.get? w = some info')
    (h : info.column = info'.column) : v = w := by
  obtain ⟨i, k, c, rfl, hi⟩ := hm.variableAt hv
  obtain ⟨j, l, d, rfl, hj⟩ := hm.variableAt hw
  have hij : i = j := by
    have h₁ := hi.number
    have h₂ := hj.number
    omega
  subst hij
  have := hi.entry
  rw [hj.entry] at this
  cases this
  rfl

theorem WellFormed.lookup_coefsOf [OrderedScalar α] (f : AffineFunction α) {v : VariableIndex}
    {info : VariableInfo} (h : m.vars.get? v.value = some info) :
    (m.coefsOf f).lookup info.column = f.term? v := by
  rw [← f.termIn_canonical]
  have hinj : ∀ t : Term α, ∀ info', m.vars.get? t.var.value = some info' →
      (info'.column = info.column ↔ t.var = v) := by
    intro t info' ht
    constructor
    · intro heq
      exact congrArg VariableIndex.mk (hm.column_inj ht h heq)
    · rintro rfl
      rw [h] at ht
      cases ht
      rfl
  rw [coefsOf]
  generalize f.canonical.terms = ts
  induction ts with
  | nil => rfl
  | cons t ts ih =>
    rw [termIn_cons, ← ih, List.filterMap_cons]
    cases ht : m.vars.get? t.var.value with
    | none =>
      have hne : t.var ≠ v := by
        rintro rfl
        rw [h] at ht
        cases ht
      simp [hne]
    | some info' =>
      have hiff := hinj t info' ht
      simp only [Option.map_some, lookup_cons_ite]
      by_cases hv : t.var = v
      · simp [hiff.2 hv, hv]
      · rw [if_neg fun h => hv (hiff.1 h.symm), if_neg hv]

/-- A canonical form becomes a row that fits. -/
theorem WellFormed.fits_coefsOf (f : AffineFunction α) (r : Row α) :
    ({ r with coefs := m.coefsOf f } : Row α).Fits m.problem.columns.length where
  nodup := by
    have hn := List.pairwise_map.1 f.nodup_vars_canonical
    rw [coefsOf, List.map_filterMap]
    refine List.Pairwise.filterMap _ (fun t u hne a ha b hb heq => hne ?_) hn
    simp only [Option.map_map, Option.map_eq_some_iff, Function.comp_apply] at ha hb
    obtain ⟨info, hi, rfl⟩ := ha
    obtain ⟨info', hi', rfl⟩ := hb
    exact congrArg VariableIndex.mk (hm.column_inj hi hi' heq)
  range e he := by
    obtain ⟨t, -, info, hi, rfl⟩ := mem_coefsOf he
    obtain ⟨i, k, c, -, hp⟩ := hm.variableAt hi
    have := hp.place_lt
    simp only [hp.number]
    omega
  nonzero e he := by
    obtain ⟨t, ht, info, -, rfl⟩ := mem_coefsOf he
    exact AffineFunction.nonzero_of_mem_canonical ht

end Coefs

end Model

/-! ### Answers by place -/

omit [Scalar α] in
theorem component_of_getElem {xs : List α} {i : Nat} {x : α} (h : xs[i]? = some x) :
    component xs (i + 1) = .ok x := by
  rw [component, Nat.add_sub_cancel, h]

omit [Scalar α] in
theorem component_of_length_le {xs : List α} {i : Nat} (h : xs.length ≤ i) :
    component xs (i + 1) = .error .pastEnd := by
  rw [component, Nat.add_sub_cancel, List.getElem?_eq_none h]

theorem valueAt_succ (xs : List α) (i : Nat) : valueAt xs ((i + 1 : Nat) : Int) = xs.getD i 0 := by
  have hi : (((i + 1 : Nat) : Int) - 1).toNat = i := by omega
  rw [valueAt, if_neg (by omega), hi]

/-- What a bound reports of the dual `d` of its column, which has the value `x`. One for one side
asks whether the column is at it. -/
def Column.boundDual (c : Column α) (kind : Kind) (x d : α) : α :=
  match kind with
  | .greaterThan => if isClose x c.lower then d else 0
  | .lessThan => if isClose x c.upper then d else 0
  | _ => d

namespace Model

variable {m : Model α} {i k : Nat}

namespace WellFormed

variable (hm : m.WellFormed)
include hm

/-- A live variable, with its place. -/
theorem exists_variableAt {v : VariableIndex} (hv : m.isValid (.var v) = true) :
    ∃ (i k : Nat) (info : VariableInfo) (c : Column α), v = ⟨k⟩ ∧ m.info (.var v) = .ok info ∧
      m.VariableAt i k info c := by
  rw [isValid, hm.vars.contains_eq] at hv
  obtain ⟨info, hinfo⟩ := Option.isSome_iff_exists.1 hv
  obtain ⟨i, k, c, hk, hat⟩ := hm.variableAt hinfo
  refine ⟨i, k, info, c, congrArg VariableIndex.mk hk, ?_, hat⟩
  rw [info_var, hinfo]

/-- A live affine constraint, with its place. -/
theorem exists_rowAt {c : ConstraintIndex} (hc : c.function = .scalarAffine)
    (hv : m.isValid (.constraint c) = true) :
    ∃ (i k : Nat) (info : ConstraintInfo α) (r : Row α), c.value = k ∧ m.affineInfo c = .ok info ∧
      m.RowAt i k info r := by
  obtain ⟨info, hinfo, hset⟩ : ∃ info, m.affine.get? c.value = some info ∧
      (info.set.kind == c.set) = true := by
    rw [isValid, carries, hc] at hv
    cases hget : m.affine.get? c.value with
    | none =>
      rw [hget] at hv
      cases hv
    | some info =>
      rw [hget] at hv
      exact ⟨info, rfl, hv⟩
  obtain ⟨i, k, r, hk, hat⟩ := hm.rowAt hinfo
  refine ⟨i, k, info, r, hk, ?_, hat⟩
  rw [affineInfo_eq, if_pos hc, hinfo, Option.filter_some_pos]
  simpa using hset

end WellFormed

/-- The value of a variable. -/
theorem VariableAt.variablePrimal {v : VariableIndex} {info : VariableInfo} {c : Column α}
    (h : m.VariableAt i k info c) (hinfo : m.info (.var v) = .ok info) :
    m.variablePrimal (.var v) = match m.last.ray with
      | some r => component r (i + 1)
      | none => .ok (m.solution.colPrimal.getD i 0) := by
  unfold Model.variablePrimal
  rw [hinfo, bind_ok, h.number]
  cases m.last.ray with
  | some r => rfl
  | none =>
    dsimp only
    rw [columnPrimal, Problem.columnValue, Problem.column_of_getElem h.column, bind_ok,
      valueAt_succ]
    rfl

section
variable {info : VariableInfo} {c : Column α} (h : m.VariableAt i k info c)
  (hsearch : m.last.bySearch = false)
include h hsearch

/-- The dual of a column, after a solve that was no search. -/
theorem VariableAt.columnDual :
    m.columnDual (i + 1) = .ok (m.dualSign * m.solution.colDual.getD i 0) := by
  rw [Model.columnDual, requireDuals, hsearch, Problem.columnValue,
    Problem.column_of_getElem h.column, bind_ok, valueAt_succ]
  rfl

theorem VariableAt.dualAt (bound : Column α → α) : m.dualAt (i + 1) bound =
    .ok (if isClose (m.solution.colPrimal.getD i 0) (bound c) then
      m.dualSign * m.solution.colDual.getD i 0 else 0) := by
  have hprimal : m.columnPrimal (i + 1) = .ok (m.solution.colPrimal.getD i 0) := by
    rw [columnPrimal, Problem.columnValue, Problem.column_of_getElem h.column, bind_ok,
      valueAt_succ]
    rfl
  rw [Model.dualAt, hprimal, bind_ok, Problem.column_of_getElem h.column, Except.mapError, bind_ok,
    h.columnDual hsearch]
  split_ifs <;> rfl

theorem VariableAt.constraintDual {kind : Kind} (hbound : kind.isBound = true)
    (hlive : m.liveInfo ⟨.singleVariable, kind, k⟩ = .ok info) :
    m.constraintDual (.constraint ⟨.singleVariable, kind, k⟩) =
      .ok (c.boundDual kind (m.solution.colPrimal.getD i 0)
        (m.dualSign * m.solution.colDual.getD i 0)) := by
  unfold Model.constraintDual
  rw [IndexArg.constraint?, bind_ok, if_neg Kind.noConfusion, hlive, bind_ok, h.number]
  cases kind <;> cases hbound
  · exact h.dualAt hsearch _
  · exact h.dualAt hsearch _
  · exact h.columnDual hsearch
  · exact h.columnDual hsearch

end

/-- The dual of a row, after a solve that was no search or with a certificate. -/
theorem rowDual_of_getElem {r : Row α} (hr : m.problem.rows[i]? = some r)
    (hsearch : m.last.certificate = none → m.last.bySearch = false) :
    m.rowDual (i + 1) = match m.last.certificate with
      | some y => component y (i + 1)
      | none => .ok (m.dualSign * m.solution.rowDual.getD i 0) := by
  rw [rowDual]
  cases hcertificate : m.last.certificate with
  | some y => rfl
  | none =>
    dsimp only
    rw [requireDuals, hsearch hcertificate, Problem.rowValue, Problem.row_of_getElem hr, bind_ok,
      valueAt_succ]
    rfl

theorem RowAt.constraintDual {c : ConstraintIndex} (hc : c.function = .scalarAffine)
    {info : ConstraintInfo α} {r : Row α} (h : m.RowAt i k info r)
    (hinfo : m.affineInfo c = .ok info)
    (hsearch : m.last.certificate = none → m.last.bySearch = false) :
    m.constraintDual (.constraint c) = match m.last.certificate with
      | some y => component y (i + 1)
      | none => .ok (m.dualSign * m.solution.rowDual.getD i 0) := by
  unfold Model.constraintDual
  rw [IndexArg.constraint?, bind_ok, if_pos hc, hinfo, bind_ok, h.number]
  exact rowDual_of_getElem h.row hsearch

end Model

end MixedInteger
