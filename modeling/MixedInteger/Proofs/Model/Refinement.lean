import MixedInteger.Proofs.Model.Simulation

/-! A model is its ledger. From a model without variables, every history of edits gives
the replies and faults of the ledger, and afterwards every question has the ledger's
answer. Columns, rows and their renumbering cannot be seen. -/

namespace MixedInteger

variable {α : Type} [Scalar α]

/-! ### Numbers in edits -/

/-- The numbers in a set. -/
def ScalarSet.values : ScalarSet α → List α
  | .lessThan u => [u]
  | .greaterThan l => [l]
  | .equalTo v => [v]
  | .interval l u => [l, u]
  | _ => []

/-- The numbers in the set that an edit writes for a variable. -/
def Edit.values (e : Edit α) : List α := (e.bound?.map ScalarSet.values).getD []

theorem isNaN_change [OrderedScalar α] {c : Column α} {s : ScalarSet α}
    (hc : Scalar.isNaN c.lower = false ∧ Scalar.isNaN c.upper = false)
    (hs : ∀ x ∈ s.values, Scalar.isNaN x = false) :
    Scalar.isNaN (s.change.lower.getD c.lower) = false ∧
      Scalar.isNaN (s.change.upper.getD c.upper) = false := by
  cases s <;> simp_all [ScalarSet.values, ScalarSet.change]

/-- A set of a variable gives it a type, or bounds it. -/
theorem Modelling.addConstraint_var (v : VariableIndex) (s : ScalarSet α) :
    addConstraint (.var v) (.set s) = match s.type? with
      | some t => addTypeConstraint v t s.kind
      | none => addBoundConstraint v s := by
  cases s <;> rfl

namespace Represents

variable {m : Model α} {L : Ledger α} (h : Represents m L)

/-! ### Lookups -/

section
include h

/-- A variable is dead in both, or it has a record and a column. -/
theorem live_cases (v : VariableIndex) : (L.vars v = none ∧ m.vars.get? v.value = none) ∨
    ∃ (i k : Nat) (r : VariableRecord α) (info : VariableInfo) (c : Column α), v = ⟨k⟩ ∧
      L.vars v = some r ∧ m.vars.get? v.value = some info ∧ m.VariableAt i k info c ∧
        r.shape = info.shape := by
  obtain hdead | ⟨r, info, hL, hm, hs⟩ := h.vars_cases v
  · exact .inl hdead
  · obtain ⟨i, k, c, hk, hat⟩ := h.wf.variableAt hm
    exact .inr ⟨i, k, r, info, c, congrArg VariableIndex.mk hk, hL, hm, hat, hs⟩

theorem var_cases (v : VariableIndex) :
    (L.owner (.var v) = .error (.model (.invalidIndex (.var v))) ∧
        m.info (.var v) = .error (.model (.invalidIndex (.var v)))) ∨
      ∃ (i k : Nat) (r : VariableRecord α) (info : VariableInfo) (c : Column α), v = ⟨k⟩ ∧
        L.owner (.var v) = .ok (v, r) ∧ m.info (.var v) = .ok info ∧ m.VariableAt i k info c ∧
          r.shape = info.shape ∧ r.Holds c := by
  rw [Model.info_var]
  obtain ⟨hL, hm⟩ | ⟨i, k, r, info, c, hv, hL, hm, hat, hs⟩ := h.live_cases v
  · exact .inl ⟨by simp [Ledger.owner, Ledger.invalid, hL], by rw [hm]⟩
  · exact .inr ⟨i, k, r, info, c, hv, by simp [Ledger.owner, hL], by rw [hm], hat, hs,
      h.holds hL (hv ▸ hat.column? h.wf)⟩

theorem owner_cases (v : IndexArg α) :
    (L.owner v = .error (.model (.invalidIndex v)) ∧
        m.info v = .error (.model (.invalidIndex v))) ∨
      ∃ (i k : Nat) (r : VariableRecord α) (info : VariableInfo) (c : Column α),
        L.owner v = .ok (⟨k⟩, r) ∧ m.info v = .ok info ∧ m.VariableAt i k info c := by
  cases v with
  | raw x => exact .inl ⟨rfl, rfl⟩
  | var v =>
    obtain hdead | ⟨i, k, r, info, c, rfl, hL, hm, hat, -, -⟩ := h.var_cases v
    · exact .inl hdead
    · exact .inr ⟨i, k, r, info, c, hL, hm, hat⟩
  | constraint c =>
    by_cases hc : c.function = .singleVariable
    · rw [Model.info_constraint m hc]
      obtain ⟨hL, hm⟩ | ⟨i, k, r, info, col, hv, hL, hm, hat, -⟩ := h.live_cases ⟨c.value⟩
      · exact .inl ⟨by simp [Ledger.owner, Ledger.invalid, hc, hL], by rw [hm]⟩
      · exact .inr ⟨i, k, r, info, col, by simp [Ledger.owner, hc, hL, ← hv], by rw [hm], hat⟩
    · exact .inl ⟨by simp [Ledger.owner, Ledger.invalid, hc],
        by simp [Model.info, Model.invalid, hc]⟩

theorem checkTerms_eq (ts : List (Term α)) : L.checkTerms ts =
    match m.firstDead ts with
    | some v => .error (.model (.invalidIndex (.var v)))
    | none => .ok () := by
  have hlive : (fun t : Term α => (L.vars t.var).isNone) =
      fun t => (m.vars.get? t.var.value).isNone := by
    funext t
    have := h.isSome_vars t.var
    cases hL : L.vars t.var <;> cases hm : m.vars.get? t.var.value <;> simp_all
  rw [Ledger.checkTerms, Model.firstDead, hlive]
  cases ts.find? fun t => (m.vars.get? t.var.value).isNone <;> rfl

end

variable [OrderedScalar α]
include h

/-! ### Edits of variables -/

theorem addVariables (n : Int) : Agrees m (Modelling.addVariables n m)
    (.ok ((List.range n.toNat).map fun i => ⟨(L.lastVariable + 1 + i : Nat)⟩,
      L.addVariables n.toNat)) := by
  by_cases hn : 1 ≤ n
  · rw [Modelling.addVariables_run h.wf hn, h.lastVariable]
    exact .ok (h.grown n.toNat)
  · have hz : n.toNat = 0 := by omega
    have hL : L.addVariables 0 = L := by
      have hnone : ∀ v : VariableIndex,
          ¬(L.lastVariable < v.value ∧ v.value ≤ L.lastVariable + (0 : Nat)) := by omega
      simp only [Ledger.addVariables, if_neg (hnone _)]
      rfl
    rw [Modelling.addVariables, if_pos (by omega), hz, hL]
    exact .ok h

/-- Writing a set of a live variable. -/
theorem rebound {i k : Nat} {info : VariableInfo} {c : Column α} (hat : m.VariableAt i k info c)
    {b : BoundState} {s : ScalarSet α} {r : VariableRecord α} (hholds : r.Holds c)
    (hs : ∀ x ∈ s.values, Scalar.isNaN x = false)
    (hshape : { info with bound := b }.shape = (r.write s).shape) :
    Modelling.setVariableBound (i + 1) s.change
        (m.withVariable k fun info => { info with bound := b }) =
      .ok () ((m.withVariable k fun info => { info with bound := b }).withColumn i
        (·.rebound s.change)) ∧
    Represents ((m.withVariable k fun info => { info with bound := b }).withColumn i
      (·.rebound s.change)) (L.setVariable ⟨k⟩ (r.write s)) := by
  have hc := isNaN_change hholds.numbers hs
  constructor
  · rw [Modelling.setVariableBound_run (m := m.withVariable k _) hat.column,
      Modelling.refusesChange_eq_false _ hc.1 hc.2]
    simp
  · exact h.setVariable hat (f := fun info => { info with bound := b })
      (g := (·.rebound s.change)) rfl rfl rfl rfl (fun _ => rfl) (fun _ => rfl) rfl hshape
      (hholds.write hc.1 hc.2) rfl rfl

theorem addSingle (v : VariableIndex) {s : ScalarSet α}
    (hs : ∀ x ∈ s.values, Scalar.isNaN x = false) :
    Agrees m (Modelling.addConstraint (.var v) (.set s) m) (L.addSingle v s) := by
  rw [Modelling.addConstraint_var, Ledger.addSingle]
  obtain ⟨hL, hm⟩ | ⟨i, k, r, info, c, rfl, hL, hm, hat, hshape, hholds⟩ := h.var_cases v
  · rw [hL]
    cases s.type? <;>
      simp only [Modelling.addTypeConstraint, Modelling.addBoundConstraint, bind_run,
        Modelling.query_run, hm, Modelling.ofExcept_error, throw_run, bind_error] <;>
      exact .error _
  · rw [hL, bind_ok]
    have htype : r.type = info.type := congrArg (·.2.2) hshape
    cases ht : s.type? with
    | some t =>
      by_cases hfree : info.type = .continuous
      · simp only [ne_eq, htype, hfree, not_true_eq_false, if_false]
        rw [Modelling.addTypeConstraint_run h.wf hat hfree]
        have hnew : t ≠ .continuous := by
          cases s <;> cases ht <;> simp
        have hretyped : ({ r with type := t } : VariableRecord α).Holds
            { c with kind := if t = .continuous then .continuous else .integer } :=
          hholds.retype rfl rfl
        rw [if_neg hnew] at hretyped
        refine .ok (h.setVariable hat (f := fun info => { info with type := t })
          (g := fun c => { c with kind := .integer }) rfl rfl rfl rfl (fun _ => rfl)
          (fun _ => rfl) rfl ?_ hretyped ?_ ?_)
        · exact Prod.ext (congrArg (·.1) hshape.symm)
            (Prod.ext (congrArg (·.2.1) hshape.symm) rfl)
        · simp [hfree]
        · simp [hfree]
      · simp only [ne_eq, htype, hfree, not_false_eq_true, if_true]
        rw [Modelling.addTypeConstraint_error hm hfree]
        exact .error _
    | none =>
      have hadd := addBound_of_shape hshape hat.index ht
      simp only
      cases hc : r.conflict? ⟨k⟩ s with
      | some e =>
        rw [hc] at hadd
        rw [Modelling.addBoundConstraint_error hm hadd]
        exact .error _
      | none =>
        rw [hc] at hadd
        obtain ⟨hrun, hnew⟩ := h.rebound hat hholds hs (shape_joined hshape ht hc)
        rw [Modelling.addBoundConstraint_run h.wf hat hadd, hrun]
        exact .ok hnew

theorem deleteSingle (kind : Kind) (value : Int) :
    Agrees m (Modelling.deleteSingleConstraint ⟨.singleVariable, kind, value⟩ m)
      ((L.single ⟨.singleVariable, kind, value⟩ >>= fun r =>
        pure (L.setVariable ⟨value⟩ (r.release kind))).map ((), ·)) := by
  obtain ⟨hL, hm⟩ | ⟨i, k, r, info, c, rfl, hat, hshape, hcarries, hlive, hL, hm⟩ :=
    h.single_cases kind value
  · rw [hL]
    simp only [Modelling.deleteSingleConstraint, bind_run, Modelling.query_run, hm,
      Modelling.ofExcept_error, throw_run]
    exact .error _
  · rw [hL, bind_ok]
    have hholds := h.holds hlive (hat.column? h.wf)
    obtain ⟨slot, hslot⟩ : ∃ slot, NameSlot.ofKind? kind = some slot := by
      cases kind <;> first | exact ⟨_, rfl⟩ | simp [VariableInfo.carries] at hcarries
    cases hb : kind.isBound with
    | true =>
      obtain ⟨b, change, hremove, hnew⟩ := remove_of_shape (α := α) hshape hcarries hb
      rw [Modelling.deleteSingle_bound_run h.wf hat hcarries hslot hremove]
      refine .ok (h.setVariable hat (f := fun info => slot.set "" { info with bound := b })
        (g := (·.rebound change)) rfl rfl rfl rfl ?_ ?_ rfl (Eq.trans ?_ hnew)
        (hholds.release hshape hcarries hremove) ?_ ?_)
      all_goals cases slot <;> first | exact fun _ => rfl | rfl
    | false =>
      have htype : slot = .type := by
        cases kind <;> cases hb <;> simp_all [NameSlot.ofKind?]
      rw [Modelling.deleteSingle_type_run h.wf hat hcarries (htype ▸ hslot)]
      refine .ok (h.setVariable hat (f := fun info => NameSlot.type.set ""
        { info with type := .continuous }) (g := fun c => { c with kind := .continuous })
        rfl rfl rfl rfl (fun _ => rfl) (fun _ => rfl) rfl
        (shape_release_type hshape hcarries hb) (hholds.releaseType hshape hcarries hb) ?_ ?_)
      all_goals
        simp only [NameSlot.set, reduceCtorEq, if_false]
        split_ifs <;> omega

/-! ### Edits of rows -/

theorem addAffine (f : AffineFunction α) {s : ScalarSet α} (hs : s.isRow = true) :
    Agrees m (Modelling.addAffineConstraint f s m) (L.addAffine f s) := by
  obtain ⟨b, hb⟩ : ∃ b, s.rowBound? = some b := by
    cases s <;> first | exact ⟨_, rfl⟩ | cases hs
  rw [Ledger.addAffine, h.checkTerms_eq]
  by_cases hf : (f.constant == 0) = true
  · simp only [hf, Bool.not_true, Bool.false_eq_true, if_false]
    cases hd : m.firstDead f.canonical.terms with
    | some v =>
      simp only [Modelling.addAffineConstraint, hf, Bool.not_true, Bool.false_eq_true, if_false,
        bind_run, Modelling.query_run, Model.rowOf_eq, hd, Modelling.ofExcept_error,
        throw_run, bind_error]
      exact .error _
    | none =>
      rw [Modelling.addAffineConstraint_run h.wf hf hd hb, h.lastAffine]
      have := h.withRow hb hd
      rw [h.lastAffine] at this
      exact .ok this
  · simp only [Modelling.addAffineConstraint, hf, Bool.not_false, if_true, bind_run, throw_run]
    exact .error _

theorem addConstraint (f : FunctionArg α) {s : SetArg α}
    (hs : ∀ x ∈ (Edit.addConstraint f s).values, Scalar.isNaN x = false) :
    Agrees m (Modelling.addConstraint f s m) (L.addConstraint f s) := by
  cases s with
  | raw x => cases f <;> exact .error _
  | set s =>
    cases f with
    | raw x => exact .error _
    | var v => exact h.addSingle v hs
    | single v => exact h.addSingle v hs
    | affine f =>
      simp only [Modelling.addConstraint, Ledger.addConstraint]
      split_ifs with hrow
      · exact h.addAffine f hrow
      · exact .error _

theorem delete (i : IndexArg α) :
    Agrees m (Modelling.delete i m) ((L.delete i).map ((), ·)) := by
  cases i with
  | raw x => exact .error _
  | var v =>
    simp only [Modelling.delete, Ledger.delete]
    obtain ⟨hL, hm⟩ | ⟨i, k, r, info, c, rfl, hL, hm, hat, -, -⟩ := h.var_cases v
    · rw [hL]
      simp only [Modelling.deleteVariable, bind_run, Modelling.query_run, hm,
        Modelling.ofExcept_error, throw_run]
      exact .error _
    · rw [hL, Modelling.deleteVariable_run h.wf hat]
      exact .ok (h.withoutVariable hat)
  | constraint c =>
    obtain ⟨function, set, value⟩ := c
    cases function
    case singleVariable =>
      simp only [Modelling.delete, Ledger.delete]
      exact h.deleteSingle set value
    case scalarAffine =>
      simp only [Modelling.delete, Ledger.delete]
      obtain ⟨hL, hm⟩ | ⟨i, k, info, r, hc, hat, hL, hm⟩ :=
        h.affineOf_cases ⟨.scalarAffine, set, value⟩
      · rw [hL]
        simp only [Modelling.deleteAffineConstraint, bind_run, Modelling.query_run, hm,
          Modelling.ofExcept_error, throw_run]
        exact .error _
      · rw [hL, hc, Modelling.deleteAffineConstraint_run h.wf hat rfl]
        cases hc
        exact .ok (h.withoutRow hat)
    all_goals exact .error _

/-- Writing the set of a constraint on a single variable again. -/
theorem setSingleSet {i k : Nat} {info : VariableInfo} {c : Column α}
    (hat : m.VariableAt i k info c) {r : VariableRecord α} (hL : L.vars ⟨k⟩ = some r)
    (hshape : r.shape = info.shape) {s : ScalarSet α} (hcarries : info.carries s.kind = true)
    (hs : ∀ x ∈ s.values, Scalar.isNaN x = false) :
    Agrees m (Modelling.setConstraintSet (.constraint ⟨.singleVariable, s.kind, k⟩) (.set s) m)
      (.ok ((), L.setVariable ⟨k⟩ (r.write s))) := by
  rw [Modelling.setConstraintSet_single_run h.wf hat hcarries]
  cases hb : s.kind.isBound with
  | true =>
    have hsame : (m.withVariable k fun info' => { info' with bound := info.bound }) = m := by
      rw [Model.withVariable, h.wf.vars.modify_of_getElem hat.entry, modify_of_fixed]
      intro e he
      rw [hat.entry] at he
      cases he
      rfl
    obtain ⟨hrun, hnew⟩ := h.rebound hat (b := info.bound)
      (h.holds hL (hat.column? h.wf)) hs (shape_write hshape hcarries).symm
    rw [hsame] at hrun hnew
    rw [if_pos rfl, hrun]
    exact .ok hnew
  | false =>
    have hwrite : r.write s = r := by
      cases s with
      | zeroOne => rfl
      | integer => rfl
      | _ => cases hb
    have hsame : L.setVariable ⟨k⟩ r = L := by
      rw [Ledger.setVariable, ← hL, Function.update_eq_self]
    rw [if_neg (by simp), hwrite, hsame]
    exact .ok h

theorem setConstraintSet (i : IndexArg α) {s : SetArg α}
    (hs : ∀ x ∈ (Edit.setConstraintSet i s).values, Scalar.isNaN x = false) :
    Agrees m (Modelling.setConstraintSet i s m) ((L.setConstraintSet i s).map ((), ·)) := by
  cases i with
  | var v => exact .error _
  | raw x => exact .error _
  | constraint c =>
    obtain ⟨function, kind, value⟩ := c
    simp only [Ledger.setConstraintSet, IndexArg.constraint?, bind_ok]
    by_cases hkind : s.kind = kind
    · subst hkind
      rw [if_neg (by simp)]
      by_cases hc : function = .singleVariable
      · subst hc
        rw [if_pos rfl]
        obtain ⟨hL, hm⟩ | ⟨i, k, r, info, c, rfl, hat, hshape, hcarries, hlive, hL, -⟩ :=
          h.single_cases s.kind value
        · rw [hL]
          simp only [Modelling.setConstraintSet, IndexArg.constraint?, Modelling.ofExcept_ok,
            bind_run, pure_run, ne_eq, not_true_eq_false, if_false, if_true, Modelling.query_run,
            hm, Modelling.ofExcept_error, throw_run]
          exact .error _
        · rw [hL]
          cases s with
          | raw x => cases hcarries
          | set s => exact h.setSingleSet hat hlive hshape hcarries hs
      · rw [if_neg hc]
        obtain ⟨hL, hm⟩ | ⟨i, k, info, r, heq, hat, hL, -⟩ :=
          h.affineOf_cases ⟨function, s.kind, value⟩
        · rw [hL]
          simp only [Modelling.setConstraintSet, IndexArg.constraint?, Modelling.ofExcept_ok,
            bind_run, pure_run, ne_eq, not_true_eq_false, if_false, hc, Modelling.query_run,
            hm, Modelling.ofExcept_error, throw_run]
          exact .error _
        · rw [hL]
          injection heq with hfunction hset hvalue
          subst hfunction hvalue
          obtain ⟨s, rfl⟩ := SetArg.eq_set_of_kind hset
          obtain ⟨b, hb⟩ := hat.rowBound_of_kind hset
          rw [SetArg.kind, Modelling.setConstraintSet_affine_run h.wf hat hset.symm hb]
          exact .ok (h.changeRow hat (h.wf.modifyRow hat rfl hb ((hat.fits h.wf).within b))
            rfl rfl)
    · rw [if_pos (by simpa using hkind)]
      simp only [Modelling.setConstraintSet, IndexArg.constraint?, Modelling.ofExcept_ok, bind_run,
        pure_run, ne_eq, hkind, not_false_eq_true, if_true, throw_run]
      exact .error _

theorem setConstraintFunction (i : IndexArg α) (f : FunctionArg α) :
    Agrees m (Modelling.setConstraintFunction i f m)
      ((L.setConstraintFunction i f).map ((), ·)) := by
  cases i with
  | var v => exact .error _
  | raw x => exact .error _
  | constraint c =>
    simp only [Modelling.setConstraintFunction, Ledger.setConstraintFunction,
      IndexArg.constraint?, Modelling.ofExcept_ok, bind_run, pure_run, bind_ok]
    by_cases hc : c.function = .singleVariable
    · simp only [hc, if_true]
      exact .error _
    · simp only [hc, if_false]
      cases f with
      | var v => exact .error _
      | single v => exact .error _
      | raw x => exact .error _
      | affine f =>
        by_cases hf : (f.constant == 0) = true
        · simp only [hf, Bool.not_true, Bool.false_eq_true, if_false, bind_run,
            Modelling.query_run, h.checkTerms_eq]
          obtain ⟨hL, hm⟩ | ⟨i, k, info, r, rfl, hat, hL, hm⟩ := h.affineOf_cases c
          · rw [hL, hm]
            exact .error _
          · rw [hL, hm]
            cases hd : m.firstDead f.canonical.terms with
            | some v =>
              simp only [Modelling.ofExcept_ok, pure_run, Model.rowOf_eq, hd,
                Modelling.ofExcept_error, throw_run]
              exact .error _
            | none =>
              have hrun := Modelling.setConstraintFunction_run h.wf hat rfl hf hd
              simp only [Modelling.setConstraintFunction, IndexArg.constraint?,
                Modelling.ofExcept_ok, bind_run, pure_run, hc, if_false, hf, Bool.not_true,
                Bool.false_eq_true, Modelling.query_run, hm] at hrun
              simp only [Modelling.ofExcept_ok, pure_run, hrun]
              exact .ok (h.changeCoefs hat (h.wf.fits_coefsOf f r) (h.wf.termOf_coefsOf hd r).symm)
        · simp only [hf, Bool.not_false, if_true, throw_run, bind_run]
          exact .error _

omit [OrderedScalar α] in
theorem modifyCoefficient (i v : IndexArg α) (x : α) :
    Agrees m (Modelling.modifyCoefficient i v x m) ((L.modifyCoefficient i v x).map ((), ·)) := by
  cases i with
  | var v => exact .error _
  | raw x => exact .error _
  | constraint c =>
    simp only [Ledger.modifyCoefficient, IndexArg.constraint?, bind_ok]
    obtain ⟨hL, hm⟩ | ⟨i, k, info, r, rfl, hat, hL, hm⟩ := h.affineOf_cases c
    · rw [hL]
      simp only [Modelling.modifyCoefficient, IndexArg.constraint?, Modelling.ofExcept_ok,
        bind_run, pure_run, Modelling.query_run, hm, Modelling.ofExcept_error, throw_run]
      exact .error _
    · rw [hL, bind_ok]
      obtain ⟨hL', hm'⟩ | ⟨j, l, r', vinfo, col, hL', hm', hvat⟩ := h.owner_cases v
      · rw [hL']
        simp only [Modelling.modifyCoefficient, IndexArg.constraint?, Modelling.ofExcept_ok,
          bind_run, pure_run, Modelling.query_run, hm, hm', Modelling.ofExcept_error, throw_run]
        exact .error _
      · have hj : 0 < vinfo.column := by
          rw [hvat.number]
          omega
        have hjn : vinfo.column ≤ m.problem.columns.length := by
          rw [hvat.number]
          exact hvat.place_lt
        obtain ⟨hfits, hlookup⟩ := Modelling.fits_nonzero_replaceCoef (hat.fits h.wf) hj hjn x
        rw [hL', Modelling.modifyCoefficient_run h.wf hat rfl hm' hj hjn]
        refine .ok (h.changeCoefs hat hfits ?_)
        funext v'
        unfold Model.termOf
        by_cases hv : v' = ⟨l⟩
        · rw [hv, Function.update_self, hvat.get? h.wf, Option.bind_some, hlookup, if_pos rfl]
        · rw [Function.update_of_ne hv]
          simp only
          cases hget : m.vars.get? v'.value with
          | none => rfl
          | some info' =>
            have hne : info'.column ≠ vinfo.column := by
              intro heq
              exact hv (congrArg VariableIndex.mk (h.wf.column_inj hget (hvat.get? h.wf) heq))
            rw [Option.bind_some, Option.bind_some, hlookup, if_neg hne]

/-! ### Edits of the objective -/

theorem setAffineObjective (kind : ObjectiveKind) (f : AffineFunction α) :
    Agrees m (Modelling.setAffineObjective kind f m)
      ((L.setAffineObjective kind f).map ((), ·)) := by
  rw [Ledger.setAffineObjective, h.checkTerms_eq]
  cases hd : m.firstDead f.terms with
  | some v =>
    simp only [Modelling.setAffineObjective, bind_run, Modelling.query_run,
      Modelling.costs_eq h.wf, hd, Modelling.ofExcept_error, throw_run]
    exact .error _
  | none =>
    rw [Modelling.setAffineObjective_run h.wf hd]
    exact .ok (h.withCosts hd kind)

theorem setObjective (f : FunctionArg α) :
    Agrees m (Modelling.setObjective f m) ((L.setObjective f).map ((), ·)) := by
  cases f with
  | raw x => exact .error _
  | var v => exact h.setAffineObjective _ _
  | single v => exact h.setAffineObjective _ _
  | affine f => exact h.setAffineObjective _ _

omit [OrderedScalar α] in
theorem modifyObjectiveCoefficient (v : IndexArg α) (x : α) :
    Agrees m (Modelling.modifyObjectiveCoefficient v x m)
      ((L.modifyObjectiveCoefficient v x).map ((), ·)) := by
  rw [Ledger.modifyObjectiveCoefficient]
  obtain ⟨hL, hm⟩ | ⟨i, k, r, info, c, hL, hm, hat⟩ := h.owner_cases v
  · rw [hL]
    simp only [Modelling.modifyObjectiveCoefficient, bind_run, Modelling.query_run, hm,
      Modelling.ofExcept_error, throw_run]
    exact .error _
  · have hcost := Problem.setCost_of_getElem hat.column x
    rw [← hat.number] at hcost
    simp only [Modelling.modifyObjectiveCoefficient, bind_run, Modelling.query_run, hm,
      Modelling.ofExcept_ok, pure_run]
    rw [hL, Modelling.change_ok hcost]
    exact .ok (h.withCost hat x)

end Represents

end MixedInteger
