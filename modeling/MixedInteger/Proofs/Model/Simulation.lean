import MixedInteger.Proofs.Model.Represents

/-! Edits of a model and of the ledger it stands for. Each edit fails on both sides with
the same fault and changes nothing, or succeeds on both with the same reply, and the
new model stands for the new ledger. -/

namespace MixedInteger

variable {α : Type} [Scalar α]

/-- A call and the same edit of the ledger, from a model that stands for it. -/
inductive Agrees (m : Model α) {β : Type} :
    EStateM.Result (Fault α) (Model α) β → Except (Fault α) (β × Ledger α) → Prop
  | ok {b : β} {m' : Model α} {L' : Ledger α} (h : Represents m' L') :
      Agrees m (.ok b m') (.ok (b, L'))
  | error (f : Fault α) : Agrees m (.error f m) (.error f)

namespace Model

/-! ### Frames -/

theorem termOf_congr {m m' : Model α}
    (h : ∀ v, (m'.vars.get? v).map (·.column) = (m.vars.get? v).map (·.column)) :
    m'.termOf = m.termOf := by
  funext r v
  have := congrArg (·.bind fun j => r.coefs.lookup j) (h v.value)
  simpa only [termOf, Option.bind_map, Function.comp_def] using this

theorem affineRecord?_congr {m m' : Model α} (ha : m'.affine = m.affine)
    (hr : m'.problem.rows = m.problem.rows)
    (ht : ∀ r ∈ m.problem.rows, m'.termOf r = m.termOf r) (k : Int) :
    m'.affineRecord? k = m.affineRecord? k := by
  rw [affineRecord?, affineRecord?, ha, hr]
  cases m.affine.get? k with
  | none => rfl
  | some info =>
    simp only [Option.bind_some]
    cases hrow : m.problem.rows[info.row - 1]? with
    | none => rfl
    | some r => simp only [Option.map_some, ht r (List.mem_of_getElem? hrow)]

theorem column?_congr {m m' : Model α}
    (h : ∀ v, (m'.vars.get? v).map (·.column) = (m.vars.get? v).map (·.column))
    (hc : m'.problem.columns = m.problem.columns) : m'.column? = m.column? := by
  funext v
  have := congrArg (·.bind fun j => m.problem.columns[j - 1]?) (h v.value)
  simp only [Option.bind_map, Function.comp_def] at this
  simp only [column?, hc, this]

/-- A change of one column is one of its variable only. -/
theorem VariableAt.column?_modify {m m' : Model α} (hm : m.WellFormed) {i k : Nat}
    {info : VariableInfo} {c : Column α} (hat : m.VariableAt i k info c) {g : Column α → Column α}
    (h : ∀ v, (m'.vars.get? v).map (·.column) = (m.vars.get? v).map (·.column))
    (hc : m'.problem.columns = m.problem.columns.modify i g) (v : VariableIndex) :
    m'.column? v = if v = ⟨k⟩ then some (g c) else m.column? v := by
  have hnumber : m'.column? v = (m.vars.get? v.value).bind fun info =>
      (m.problem.columns.modify i g)[info.column - 1]? := by
    have := congrArg (·.bind fun j => (m.problem.columns.modify i g)[j - 1]?) (h v.value)
    simp only [Option.bind_map, Function.comp_def] at this
    rw [Model.column?, hc, this]
  rw [hnumber]
  by_cases hv : v = ⟨k⟩
  · subst hv
    rw [if_pos rfl, hat.get? hm, Option.bind_some, hat.number, Nat.add_sub_cancel,
      List.getElem?_modify_eq, hat.column]
    rfl
  · rw [if_neg hv, Model.column?]
    cases hg : m.vars.get? v.value with
    | none => rfl
    | some info' =>
      obtain ⟨j, l, d, hvl, hj⟩ := hm.variableAt hg
      have hij : i ≠ j := by
        intro heq
        have hkl := (hat.place_eq_iff hm hj).1 heq
        exact hv (congrArg VariableIndex.mk (hvl.trans (by rw [hkl])))
      rw [Option.bind_some, Option.bind_some, hj.number, Nat.add_sub_cancel,
        List.getElem?_modify_ne g m.problem.columns hij]

theorem typed_congr {m m' : Model α} (hv : m'.vars = m.vars) (t : TypeState) :
    m'.typed t = m.typed t := by
  rw [typed, typed, hv]

/-- One variable counts differently. -/
theorem VariableAt.typed_modify {m m' : Model α} (hm : m.WellFormed) {i k : Nat}
    {info : VariableInfo} {c : Column α} (hat : m.VariableAt i k info c)
    {f : VariableInfo → VariableInfo} (hv : m'.vars = m.vars.modify k f) (t : TypeState) :
    m'.typed t + (if info.type = t then 1 else 0) =
      m.typed t + if (f info).type = t then 1 else 0 := by
  have := countP_modify (f := fun e : Nat × VariableInfo => (e.1, f e.2))
    (fun e => decide (e.2.type = t)) hat.entry
  rw [typed, typed, hv, hm.vars.modify_of_getElem hat.entry]
  simpa using this

theorem WellFormed.column?_grown {m : Model α} (hm : m.WellFormed) (n : Nat)
    (v : VariableIndex) : (m.grown n).column? v =
      if m.vars.last < v.value ∧ v.value ≤ m.vars.last + n then some {} else m.column? v := by
  simp only [Model.column?, Model.grown, Problem.padSolutions, hm.vars.get?_enroll]
  split_ifs with hv
  · rw [Option.bind_some, List.getElem?_append_right, List.getElem?_replicate, if_pos]
    · simp only [hm.columnCount, Registry.size]
      omega
    · simp only [hm.columnCount, Registry.size]
      omega
  · cases hi : m.vars.get? v.value with
    | none => rfl
    | some info =>
      obtain ⟨i, k, c, -, hat⟩ := hm.variableAt hi
      have hlt := hat.place_lt
      rw [Option.bind_some, Option.bind_some, hat.number, Nat.add_sub_cancel,
        List.getElem?_append_left hlt]

theorem typed_grown (m : Model α) (n : Nat) {t : TypeState} (ht : t ≠ .continuous) :
    (m.grown n).typed t = m.typed t := by
  rw [typed, grown, Registry.entries_enroll, List.countP_append, typed, Nat.add_eq_left,
    List.countP_eq_zero]
  intro e he
  obtain ⟨i, -, rfl⟩ := List.mem_map.1 he
  simpa using ht.symm

/-! ### Functions over live variables -/

section
variable {m : Model α} (hm : m.WellFormed) {f : AffineFunction α}
include hm

/-- A function over live variables becomes its terms. -/
theorem WellFormed.termOf_coefsOf [OrderedScalar α] (hd : m.firstDead f.canonical.terms = none)
    (r : Row α) : m.termOf { r with coefs := m.coefsOf f } = f.term? := by
  funext v
  rw [Model.termOf]
  cases hv : m.vars.get? v.value with
  | some info => exact hm.lookup_coefsOf f hv
  | none =>
    rw [Option.bind_none, eq_comm, Option.eq_none_iff_forall_ne_some]
    intro x hx
    rw [← f.termIn_canonical, termIn_eq_some f.nodup_vars_canonical] at hx
    simp only [Model.firstDead, Option.map_eq_none_iff, List.find?_eq_none] at hd
    exact hd _ hx (by simp [hv])

theorem WellFormed.withObjective (f : AffineFunction α) (kind : ObjectiveKind) :
    (m.withObjective f kind).WellFormed := hm.withCosts _ (by simp [Registry.keys]) _ _

theorem WellFormed.column?_withObjective (kind : ObjectiveKind) (v : VariableIndex) :
    (m.withObjective f kind).column? v =
      (m.column? v).map fun c => { c with cost := f.coefficient v } := by
  rw [Model.column?, Model.column?, Model.withObjective]
  cases hv : m.vars.get? v.value with
  | none => rfl
  | some info =>
    obtain ⟨i, k, c, hvk, hat⟩ := hm.variableAt hv
    have hkey : m.vars.keys[i]? = some k := by simp [Registry.keys, hat.entry]
    have hvar : v = ⟨k⟩ := congrArg VariableIndex.mk hvk
    simp only [Option.bind_some, hat.number, Nat.add_sub_cancel, List.getElem?_zipWith,
      hat.column, List.getElem?_map, hkey, Option.map_some, hvar]

theorem WellFormed.cost?_withObjective [OrderedScalar α] (hd : m.firstDead f.terms = none)
    (kind : ObjectiveKind) : (m.withObjective f kind).cost? = f.term? := by
  funext v
  rw [Model.cost?, hm.column?_withObjective, Model.column?]
  cases hv : m.vars.get? v.value with
  | none =>
    have hterms : f.terms.filter (fun t => t.var = v) = [] := by
      rw [List.filter_eq_nil_iff]
      intro t ht heq
      simp only [Model.firstDead, Option.map_eq_none_iff, List.find?_eq_none] at hd
      have heq : t.var = v := by simpa using heq
      exact hd t ht (by simp [heq, hv])
    simp [AffineFunction.term?, AffineFunction.coefficient, hterms, Scalar.sum, nonzero?]
  | some info =>
    obtain ⟨i, k, c, -, hat⟩ := hm.variableAt hv
    simp only [Option.bind_some, hat.number, Nat.add_sub_cancel, hat.column, Option.map_some]
    rfl

end

end Model

/-- What stays in a list is found at its new number. -/
theorem getElem?_eraseIdx_closeGap {β : Type} (xs : List β) {i j : Nat} (hj : 0 < j)
    (hne : j ≠ i + 1) : (xs.eraseIdx i)[closeGap (i + 1) j - 1]? = xs[j - 1]? := by
  rw [List.getElem?_eraseIdx, closeGap]
  split_ifs with h₁ h₂ h₂
  · omega
  · congr 1
    omega
  · rfl
  · omega

namespace Represents

variable {m : Model α} {L : Ledger α} (h : Represents m L)
include h

/-! ### Variables -/

theorem grown [OrderedScalar α] (n : Nat) : Represents (m.grown n) (L.addVariables n) where
  wf := h.wf.grown n
  lastVariable := by
    simp only [Ledger.addVariables, Model.grown, Registry.last_enroll, h.lastVariable]
  vars v := by
    simp only [Ledger.addVariables, Model.grown, h.wf.vars.get?_enroll, h.lastVariable]
    split_ifs
    · rfl
    · exact h.vars v
  lastAffine := h.lastAffine
  affine k := by
    have haffine : (m.grown n).affine = m.affine := rfl
    refine (h.affine k).trans (Model.affineRecord?_congr haffine rfl (fun r hr => ?_) k).symm
    funext v
    simp only [Model.termOf, Model.grown, h.wf.vars.get?_enroll]
    split_ifs with hv
    · rw [h.wf.vars.get?_eq_none_of_last_lt hv.1, Option.bind_some, Option.bind_none]
      refine (h.wf.fits r hr).lookup_eq_none ?_
      simp only [h.wf.columnCount, Registry.size]
      omega
    · rfl
  cost v := by
    refine (h.cost v).trans ?_
    rw [Model.cost?, Model.cost?, h.wf.column?_grown]
    split_ifs with hv
    · rw [Model.column?, h.wf.vars.get?_eq_none_of_last_lt hv.1]
      simp [nonzero?]
    · rfl
  constant := h.constant
  objectiveKind := h.objectiveKind
  holds {v r c} hr hc := by
    rw [h.wf.column?_grown] at hc
    simp only [Ledger.addVariables, h.lastVariable] at hr
    split_ifs at hr hc
    · cases hr
      cases hc
      exact .new
    · exact h.holds hr hc
  binaries := by
    rw [Model.typed_grown _ _ (by simp)]
    exact h.binaries
  integers := by
    rw [Model.typed_grown _ _ (by simp)]
    exact h.integers

/-- Another record for a variable, with its column and the rest of the model to match. -/
theorem setVariable {i k : Nat} {info : VariableInfo} {c : Column α}
    (hat : m.VariableAt i k info c) {m' : Model α} {f : VariableInfo → VariableInfo}
    {g : Column α → Column α} {r : VariableRecord α}
    (hv : m'.vars = m.vars.modify k f) (ha : m'.affine = m.affine)
    (hp : m'.problem = { m.problem with columns := m.problem.columns.modify i g })
    (hk : m'.objectiveKind = m.objectiveKind) (hindex : ∀ info, (f info).index = info.index)
    (hcolumn : ∀ info, (f info).column = info.column) (hcost : (g c).cost = c.cost)
    (hs : (f info).shape = r.shape) (hr : r.Holds (g c))
    (hb : m'.binaries + (if info.type = .binary then 1 else 0) =
      m.binaries + if (f info).type = .binary then 1 else 0)
    (hi : m'.integers + (if info.type = .integer then 1 else 0) =
      m.integers + if (f info).type = .integer then 1 else 0) :
    Represents m' (L.setVariable ⟨k⟩ r) := by
  have hnumber : ∀ v, (m'.vars.get? v).map (·.column) = (m.vars.get? v).map (·.column) := by
    intro v
    rw [hv, h.wf.vars.get?_modify]
    split_ifs
    · rw [Option.map_map]
      exact congrArg (Option.map · _) (funext hcolumn)
    · rfl
  have hcolumns := hat.column?_modify h.wf hnumber (g := g) (by rw [hp])
  have htyped := hat.typed_modify h.wf hv
  have hval : ∀ v : VariableIndex, v.value = k ↔ v = ⟨k⟩ := by
    intro v
    constructor
    · exact congrArg VariableIndex.mk
    · rintro rfl
      rfl
  refine ⟨?_, ?_, fun v => ?_, ?_, fun n => ?_, fun v => ?_, ?_, ?_, fun {v r' d} hr' hd => ?_,
    ?_, ?_⟩
  · have hwf := (h.wf.modifyVariable k hindex hcolumn).modifyColumn i g
    exact hwf.congr hv ha (by rw [hp]) (by rw [hp])
  · rw [hv, Registry.last_modify]
    exact h.lastVariable
  · simp only [hv, h.wf.vars.get?_modify, hval, Ledger.setVariable]
    by_cases hvk : v = ⟨k⟩
    · subst hvk
      simp only [Function.update_self, Option.map_some, if_true, hat.get? h.wf, hs]
    · simp only [Function.update_of_ne hvk, if_neg hvk, h.vars v]
  · rw [ha]
    exact h.lastAffine
  · rw [Model.affineRecord?_congr ha (by rw [hp])
      (fun r _ => congrFun (Model.termOf_congr hnumber) r)]
    exact h.affine n
  · refine (h.cost v).trans ?_
    rw [Model.cost?, Model.cost?, hcolumns]
    split_ifs with hvk
    · rw [hvk, hat.column? h.wf, Option.bind_some, Option.bind_some, hcost]
    · rfl
  · rw [hp]
    exact h.constant
  · rw [hk]
    exact h.objectiveKind
  · rw [hcolumns] at hd
    rw [Ledger.setVariable] at hr'
    by_cases hvk : v = ⟨k⟩
    · subst hvk
      simp only [Function.update_self, if_true, Option.some.injEq] at hr' hd
      exact hr' ▸ hd ▸ hr
    · simp only [Function.update_of_ne hvk, if_neg hvk] at hr' hd
      exact h.holds hr' hd
  · have ht := htyped .binary
    have hc := h.binaries
    split_ifs at ht hb <;> omega
  · have ht := htyped .integer
    have hc := h.integers
    split_ifs at ht hi <;> omega

theorem withoutVariable {i k : Nat} {info : VariableInfo} {c : Column α}
    (hat : m.VariableAt i k info c) :
    Represents (m.withoutVariable i k info) (L.eraseVariable ⟨k⟩) := by
  have hget : ∀ v : VariableIndex, (m.withoutVariable i k info).vars.get? v.value =
      if v = ⟨k⟩ then none
      else (m.vars.get? v.value).map (VariableInfo.closeGap (i + 1)) := by
    intro v
    have hiff : v.value = k ↔ v = ⟨k⟩ := by
      constructor
      · exact congrArg VariableIndex.mk
      · rintro rfl
        rfl
    rw [Model.withoutVariable, (h.wf.vars.eraseAt i).get?_mapValues,
      h.wf.vars.get?_eraseAt hat.entry]
    simp only [hiff]
    split_ifs <;> rfl
  -- the columns of the others move with their numbers
  have hother : ∀ {v : VariableIndex} {info' : VariableInfo}, v ≠ ⟨k⟩ →
      m.vars.get? v.value = some info' → info'.column ≠ i + 1 ∧ 0 < info'.column := by
    intro v info' hne hv
    obtain ⟨j, n, d, hvn, hj⟩ := h.wf.variableAt hv
    refine ⟨fun heq => hne ?_, by rw [hj.number]; omega⟩
    exact congrArg VariableIndex.mk (h.wf.column_inj hv (hat.get? h.wf) (heq.trans hat.number.symm))
  have hi := hat.place_lt
  have hcolumns : ∀ v, (m.withoutVariable i k info).column? v =
      if v = ⟨k⟩ then none else m.column? v := by
    intro v
    rw [Model.column?, hget]
    split_ifs with hv
    · rfl
    · rw [Model.column?]
      cases hg : m.vars.get? v.value with
      | none => rfl
      | some info' =>
        obtain ⟨hne, hpos⟩ := hother hv hg
        exact getElem?_eraseIdx_closeGap m.problem.columns hpos hne
  have htyped : ∀ t, (m.withoutVariable i k info).typed t + (if info.type = t then 1 else 0) =
      m.typed t := by
    intro t
    have := countP_eraseIdx (fun e => decide (e.2.type = t)) hat.entry
    simpa [Model.typed, Model.withoutVariable, Registry.mapValues, Registry.eraseAt,
      List.countP_map, Function.comp_def, VariableInfo.closeGap] using this
  refine ⟨h.wf.withoutVariable hat, h.lastVariable, fun v => ?_, h.lastAffine, fun n => ?_,
    fun v => ?_, h.constant, h.objectiveKind, fun {v r d} hr hd => ?_, ?_, ?_⟩
  · rw [hget, Ledger.eraseVariable]
    by_cases hv : v = ⟨k⟩
    · simp [hv]
    · simp only [Function.update_of_ne hv, if_neg hv, h.vars v, Option.map_map]
      rfl
  · have hterm : ∀ r ∈ m.problem.rows,
        (m.withoutVariable i k info).termOf (r.dropColumns [i + 1]) =
          Function.update (m.termOf r) ⟨k⟩ none := by
      intro r hr
      have hfits : r.Fits (m.problem.columns.length - 1 + 1) := by
        rw [Nat.sub_add_cancel (by omega)]
        exact h.wf.fits r hr
      funext v
      rw [Model.termOf, hget]
      by_cases hv : v = ⟨k⟩
      · simp [hv]
      · rw [Function.update_of_ne hv, if_neg hv, Model.termOf]
        cases hg : m.vars.get? v.value with
        | none => rfl
        | some info' =>
          exact hfits.lookup_dropColumns (by omega) (by omega) (hother hv hg).1
    simp only [Ledger.eraseVariable, h.affine n, Model.affineRecord?]
    change _ = (m.affine.get? n).bind fun info' =>
      ((m.problem.rows.map (Row.dropColumns [i + 1]))[info'.row - 1]?).map _
    cases m.affine.get? n with
    | none => rfl
    | some info' =>
      simp only [Option.bind_some, List.getElem?_map, Option.map_map]
      cases hrow : m.problem.rows[info'.row - 1]? with
      | none => rfl
      | some r => simp only [Option.map_some, Function.comp_apply,
          hterm r (List.mem_of_getElem? hrow)]
  · rw [Ledger.eraseVariable, Model.cost?, hcolumns]
    by_cases hv : v = ⟨k⟩
    · simp [hv]
    · simp only [Function.update_of_ne hv, if_neg hv]
      exact h.cost v
  · rw [hcolumns] at hd
    rw [Ledger.eraseVariable] at hr
    by_cases hv : v = ⟨k⟩
    · simp [hv] at hd
    · simp only [Function.update_of_ne hv, if_neg hv] at hr hd
      exact h.holds hr hd
  · have ht := htyped .binary
    have hb := h.binaries
    change m.binaries + (if info.type = .binary then -1 else 0) = _
    split_ifs at ht ⊢ <;> omega
  · have ht := htyped .integer
    have hb := h.integers
    change m.integers + (if info.type = .integer then -1 else 0) = _
    split_ifs at ht ⊢ <;> omega

/-! ### Rows -/

/-- A change of rows and affine constraints only. -/
theorem changeRows {m' : Model α} (hwf : m'.WellFormed) (hv : m'.vars = m.vars)
    (hc : m'.problem.columns = m.problem.columns) (hconst : m'.problem.constant = m.problem.constant)
    (hk : m'.objectiveKind = m.objectiveKind) (hb : m'.binaries = m.binaries)
    (hi : m'.integers = m.integers) {a : Int → Option (AffineRecord α)}
    (ha : ∀ n, a n = m'.affineRecord? n) :
    Represents m' { L with affine := a, lastAffine := m'.affine.last } where
  wf := hwf
  lastVariable := hv ▸ h.lastVariable
  vars v := hv ▸ h.vars v
  lastAffine := rfl
  affine := ha
  cost v := by
    rw [Model.cost?, Model.column?_congr (m := m) (fun v => by rw [hv]) hc]
    exact h.cost v
  constant := hconst ▸ h.constant
  objectiveKind := hk ▸ h.objectiveKind
  holds hr hd := by
    rw [Model.column?_congr (m := m) (fun v => by rw [hv]) hc] at hd
    exact h.holds hr hd
  binaries := by rw [hb, Model.typed_congr hv, h.binaries]
  integers := by rw [hi, Model.typed_congr hv, h.integers]

theorem withRow [OrderedScalar α] {f : AffineFunction α} {s : ScalarSet α}
    {b : BoundKind × α × α} (hb : s.rowBound? = some b)
    (hd : m.firstDead f.canonical.terms = none) :
    Represents (m.withRow s (({ coefs := m.coefsOf f } : Row α).within b))
      { L.setAffine (L.lastAffine + 1 : Nat) ⟨s, f.term?⟩ with
        lastAffine := L.lastAffine + 1 } := by
  set r : Row α := ({ coefs := m.coefsOf f } : Row α).within b with hr
  have hfits : r.Fits m.problem.columns.length :=
    ⟨(h.wf.fits_coefsOf f {}).nodup, (h.wf.fits_coefsOf f {}).range,
      (h.wf.fits_coefsOf f {}).nonzero⟩
  have hwf : (m.withRow s r).WellFormed := h.wf.withRow (by rw [hb, hr]; rfl) hfits
  have hlast : (m.withRow s r).affine.last = L.lastAffine + 1 := by rw [h.lastAffine]; rfl
  have hterm : m.termOf r = f.term? := h.wf.termOf_coefsOf hd {}
  have hrows := h.changeRows hwf rfl rfl rfl rfl rfl rfl
    (a := Function.update L.affine (L.lastAffine + 1 : Nat) (some ⟨s, f.term?⟩)) fun n => ?_
  · rw [hlast] at hrows
    exact hrows
  rw [h.lastAffine, Model.affineRecord?, Model.withRow, h.wf.affine.get?_add]
  by_cases hn : n = (m.affine.last + 1 : Nat)
  · have hrow : (m.problem.rows ++ [r])[m.affine.size + 1 - 1]? = some r := by
      rw [Nat.add_sub_cancel, Registry.size, ← h.wf.rowCount]
      simp
    simp only [hn, Function.update_self, if_true, Option.bind_some, Problem.padSolutions, hrow,
      Option.map_some, ← hterm]
    rfl
  · rw [Function.update_of_ne hn, if_neg hn, h.affine, Model.affineRecord?]
    cases hi : m.affine.get? n with
    | none => rfl
    | some info =>
      obtain ⟨j, k, row, -, hat⟩ := h.wf.rowAt hi
      have hlt := hat.place_lt
      simp only [Option.bind_some, Problem.padSolutions, hat.number, Nat.add_sub_cancel,
        List.getElem?_append_left hlt]
      rfl

theorem withoutRow {i k : Nat} {info : ConstraintInfo α} {r : Row α}
    (hat : m.RowAt i k info r) : Represents (m.withoutRow i info)
      { L with affine := Function.update L.affine k none } := by
  have hlast : L.lastAffine = (m.withoutRow i info).affine.last := h.lastAffine
  have hrows := h.changeRows (h.wf.withoutRow i info) rfl rfl rfl rfl rfl rfl
    (a := Function.update L.affine k none) fun n => ?_
  · rw [← hlast] at hrows
    exact hrows
  rw [Model.affineRecord?, Model.withoutRow, (h.wf.affine.eraseAt i).get?_mapValues,
    h.wf.affine.get?_eraseAt hat.entry]
  by_cases hn : n = k
  · simp [hn]
  · rw [Function.update_of_ne hn, if_neg hn, h.affine, Model.affineRecord?]
    cases hi : m.affine.get? n with
    | none => rfl
    | some info' =>
      obtain ⟨j, l, row, rfl, hat'⟩ := h.wf.rowAt hi
      have hne : info'.row ≠ i + 1 := by
        rw [hat'.number]
        intro heq
        exact hn (by rw [(hat'.place_eq_iff h.wf hat).1 (by omega)])
      have hpos : 0 < info'.row := by
        rw [hat'.number]
        omega
      have hrow := getElem?_eraseIdx_closeGap m.problem.rows hpos hne
      simp only [Option.map_some, Option.bind_some, Problem.forgetSolutions,
        ConstraintInfo.closeGap, hrow]
      rfl

/-- A change of one affine constraint and its row. -/
theorem changeRow {i k : Nat} {info : ConstraintInfo α} {r : Row α} (hat : m.RowAt i k info r)
    {f : ConstraintInfo α → ConstraintInfo α} {g : Row α → Row α} {rec : AffineRecord α}
    (hwf : ((m.withRowAt i g).withConstraint k f).WellFormed) (hrow : (f info).row = info.row)
    (hrec : rec = ⟨(f info).set, m.termOf (g r)⟩) :
    Represents ((m.withRowAt i g).withConstraint k f) (L.setAffine k rec) := by
  have hlast : L.lastAffine = ((m.withRowAt i g).withConstraint k f).affine.last := by
    rw [Model.withConstraint, Registry.last_modify]
    exact h.lastAffine
  have hrows := h.changeRows hwf rfl rfl rfl rfl rfl rfl
    (a := Function.update L.affine k (some rec)) fun n => ?_
  · rw [← hlast] at hrows
    exact hrows
  rw [Model.affineRecord?, Model.withConstraint, Model.withRowAt, h.wf.affine.get?_modify]
  by_cases hn : n = k
  · subst hn
    have hg : (m.problem.rows.modify i g)[(f info).row - 1]? = some (g r) := by
      rw [hrow, hat.number, Nat.add_sub_cancel, List.getElem?_modify_eq, hat.row]
      rfl
    simp only [Function.update_self, if_true, hat.get? h.wf, Option.map_some, Option.bind_some, hg,
      hrec]
    rfl
  · rw [Function.update_of_ne hn, if_neg hn, h.affine, Model.affineRecord?]
    cases hi : m.affine.get? n with
    | none => rfl
    | some info' =>
      obtain ⟨j, l, row, rfl, hat'⟩ := h.wf.rowAt hi
      have hij : i ≠ j := fun heq => hn (by rw [(hat.place_eq_iff h.wf hat').1 heq])
      have hg := List.getElem?_modify_ne g m.problem.rows hij
      simp only [Option.bind_some, hat'.number, Nat.add_sub_cancel, hg]
      rfl

/-- A change of the coefficients of one row. -/
theorem changeCoefs {i k : Nat} {info : ConstraintInfo α} {r : Row α} (hat : m.RowAt i k info r)
    {es : List (Nat × α)} (hfits : ({ r with coefs := es } : Row α).Fits m.problem.columns.length)
    {t : Terms α} (ht : t = m.termOf { r with coefs := es }) :
    Represents (m.withRowAt i fun r => { r with coefs := es })
      (L.setAffine k { set := info.set, term := t }) := by
  have hsame : (m.withRowAt i fun r => { r with coefs := es }).withConstraint k id =
      m.withRowAt i fun r => { r with coefs := es } := by
    have haffine : m.affine.modify k id = m.affine := by
      rw [h.wf.affine.modify_of_getElem hat.entry,
        modify_of_fixed (f := fun e => (e.1, id e.2)) fun _ _ => rfl]
    exact congrArg (fun affine => { (m.withRowAt i fun r => { r with coefs := es }) with affine })
      haffine
  have hrow := h.changeRow hat (f := id) (g := fun r => { r with coefs := es })
    (h.wf.modifyRow hat rfl hat.bounds hfits) rfl (congrArg (AffineRecord.mk info.set) ht)
  rwa [hsame] at hrow

/-! ### The objective -/

/-- A change of the objective only. -/
theorem changeObjective {m' : Model α} (hwf : m'.WellFormed) (hv : m'.vars = m.vars)
    (ha : m'.affine = m.affine) (hr : m'.problem.rows = m.problem.rows)
    (hb : m'.binaries = m.binaries) (hi : m'.integers = m.integers)
    (hc : ∀ v d, m'.column? v = some d → ∃ c x, m.column? v = some c ∧ d = { c with cost := x })
    {t : Terms α} (ht : ∀ v, t v = m'.cost? v) :
    Represents m' { L with
      cost := t, constant := m'.problem.constant, objectiveKind := m'.objectiveKind } where
  wf := hwf
  lastVariable := hv ▸ h.lastVariable
  vars v := hv ▸ h.vars v
  lastAffine := ha ▸ h.lastAffine
  affine k := by
    have hterm : m'.termOf = m.termOf := Model.termOf_congr fun v => by rw [hv]
    exact (h.affine k).trans
      (Model.affineRecord?_congr ha hr (fun r _ => congrFun hterm r) k).symm
  cost := ht
  constant := rfl
  objectiveKind := rfl
  holds hr hd := by
    obtain ⟨c, x, hc, rfl⟩ := hc _ _ hd
    exact (h.holds hr hc).congr rfl rfl rfl rfl
  binaries := by rw [hb, Model.typed_congr hv, h.binaries]
  integers := by rw [hi, Model.typed_congr hv, h.integers]

theorem withCosts [OrderedScalar α] {f : AffineFunction α} (hd : m.firstDead f.terms = none)
    (kind : ObjectiveKind) : Represents (m.withObjective f kind)
      { L with cost := f.term?, constant := f.constant, objectiveKind := kind } := by
  refine h.changeObjective (h.wf.withObjective f kind) rfl rfl rfl rfl rfl (fun v d hd => ?_)
    fun v => (congrFun (h.wf.cost?_withObjective hd kind) v).symm
  rw [h.wf.column?_withObjective] at hd
  obtain ⟨c, hc, rfl⟩ := Option.map_eq_some_iff.1 hd
  exact ⟨c, _, hc, rfl⟩

/-- Another cost for one variable. -/
theorem withCost {i k : Nat} {info : VariableInfo} {c : Column α} (hat : m.VariableAt i k info c)
    (x : α) : Represents (m.withColumn i fun c => { c with cost := x })
      { L with cost := Function.update L.cost ⟨k⟩ (nonzero? x) } := by
  have hcolumns : (m.withColumn i fun c => { c with cost := x }).problem.columns =
      m.problem.columns.modify i fun c => { c with cost := x } := rfl
  have hcolumn := hat.column?_modify h.wf (fun _ => by rfl) hcolumns
  have hwf : (m.withColumn i fun c => { c with cost := x }).WellFormed := h.wf.modifyColumn i _
  have hobjective := h.changeObjective hwf rfl rfl rfl rfl rfl ?_
    (t := Function.update L.cost ⟨k⟩ (nonzero? x)) ?_
  · rw [Represents.constant h, Represents.objectiveKind h]
    exact hobjective
  · intro v d hd
    rw [hcolumn] at hd
    split_ifs at hd with hv
    · cases hd
      exact ⟨c, x, hv ▸ hat.column? h.wf, rfl⟩
    · exact ⟨d, d.cost, hd, rfl⟩
  · intro v
    rw [Model.cost?, hcolumn]
    by_cases hv : v = ⟨k⟩
    · subst hv
      rw [Function.update_self, if_pos rfl, Option.bind_some]
    · rw [Function.update_of_ne hv, if_neg hv, h.cost, Model.cost?]

end Represents

end MixedInteger
