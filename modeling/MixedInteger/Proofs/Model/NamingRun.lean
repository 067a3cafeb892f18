import MixedInteger.Proofs.Model.Renaming
import MixedInteger.Proofs.Model.Call

/-! Calls and names. Every edit, renaming and lookup keeps the indexes of names coherent,
whether it succeeds or fails. After any history of calls a lookup fails exactly when two
live identities share a name, and otherwise answers the one that has the name now. -/

namespace MixedInteger

variable {α : Type} [Scalar α]

/-! ### Slots under edits -/

namespace VariableInfo

variable {info : VariableInfo}

/-- Adding a set leaves the slots in use to their constraints. -/
theorem slotKind_addBound {kind : Kind} {b : BoundState} (hb : info.addBound kind = .ok b)
    {slot : NameSlot} (hs : (info.slotKind slot).isSome = true) :
    { info with bound := b }.slotKind slot = info.slotKind slot := by
  cases kind <;> cases hbound : info.bound <;>
    simp only [addBound, checkLower, checkUpper, hbound, BoundState.lowerSet, BoundState.upperSet,
      bind_ok, bind_error, pure_except, reduceCtorEq, if_false, if_true, Except.ok.injEq] at hb <;>
    subst hb <;> cases slot <;> simp_all [slotKind, carries]

theorem slotKind_retype {t : TypeState} (ht : info.type = .continuous) {slot : NameSlot}
    (hs : (info.slotKind slot).isSome = true) :
    { info with type := t }.slotKind slot = info.slotKind slot := by
  cases slot
  case type => simp [slotKind, ht] at hs
  all_goals rfl

/-- Removing a set leaves the other slots to their constraints. -/
theorem slotKind_remove {kind : Kind} {b : BoundState} {change : BoundChange α}
    {slot₀ slot : NameSlot} (hk : info.slotKind slot₀ = some kind)
    (hb : info.bound.remove kind = .ok (b, change)) (hne : slot ≠ slot₀) :
    { info with bound := b }.slotKind slot = info.slotKind slot := by
  obtain ⟨hcarries, hs⟩ := slotKind_eq_some.1 hk
  clear hk
  cases kind <;> cases hb <;> cases hs <;> cases slot <;> cases hbound : info.bound <;>
    simp_all [slotKind, carries]

end VariableInfo

namespace Model.Named

variable {m : Model α} (h : m.Named)
include h

/-! ### What a call leaves -/

theorem of_error {β : Type} {x : Modelling α β} {e : Fault α} (hx : x m = .error e m) :
    (after x m).Named := by
  rw [after_error hx]
  exact h

omit h in
theorem of_ok {β : Type} {x : Modelling α β} {b : β} {m' : Model α} (hx : x m = .ok b m')
    (h' : m'.Named) : (after x m).Named := by
  rw [after_ok hx]
  exact h'

/-- What holds of the model when a call fails and when it ends. -/
theorem keeps_of_error {β : Type} {x : Modelling α β} {e : Fault α} (hx : x m = .error e m) :
    m.KeepsNames (after x m) := by
  rw [after_error hx]
  exact .refl h

omit h in
theorem keeps_of_ok {β : Type} {x : Modelling α β} {b : β} {m' : Model α} (hx : x m = .ok b m')
    (h' : m.KeepsNames m') : m.KeepsNames (after x m) := by
  rw [after_ok hx]
  exact h'

/-! ### Variables -/

theorem withColumn (i : Nat) (f : Column α → Column α) : m.KeepsNames (m.withColumn i f) :=
  h.inside (h.wf.modifyColumn i f) rfl (fun _ => rfl) rfl rfl

theorem setVariableBound {i : Nat} {c : Column α}
    (hc : m.problem.columns[i]? = some c) (b : BoundChange α) :
    m.KeepsNames (after (Modelling.setVariableBound (i + 1) b) m) := by
  have hrun := Modelling.setVariableBound_run hc b
  split_ifs at hrun with hr
  · exact h.keeps_of_error hrun
  · exact keeps_of_ok hrun (h.withColumn i _)

theorem addVariables (n : Int) : m.KeepsNames (after (Modelling.addVariables n) m) := by
  by_cases hn : 1 ≤ n
  · exact keeps_of_ok (Modelling.addVariables_run h.wf hn) (h.grown _)
  · rw [Modelling.addVariables, if_pos (by omega)]
    exact .refl h

theorem deleteVariable (v : VariableIndex) : (after (Modelling.deleteVariable v) m).Named := by
  obtain ⟨e, hm⟩ | ⟨i, k, info, c, hm, hat, hv⟩ := h.wf.info_cases (.var v)
  · exact h.of_error (Modelling.query_bind_error hm _)
  · cases hv v rfl
    exact of_ok (Modelling.deleteVariable_run h.wf hat) (h.withoutVariable hat)

theorem addBoundConstraint (v : VariableIndex) (s : ScalarSet α) :
    m.KeepsNames (after (Modelling.addBoundConstraint v s) m) := by
  obtain ⟨e, hm⟩ | ⟨i, k, info, c, hm, hat, hv⟩ := h.wf.info_cases (.var v)
  · exact h.keeps_of_error (Modelling.query_bind_error hm _)
  · cases hv v rfl
    cases hb : info.addBound s.kind with
    | error e => exact h.keeps_of_error (Modelling.addBoundConstraint_error hm hb)
    | ok b =>
      have hlive := h.live (hat.get? h.wf)
      have hslots : ∀ slot : NameSlot, slot.get info ≠ "" →
          { info with bound := b }.slotKind slot = info.slotKind slot :=
        fun slot hs => VariableInfo.slotKind_addBound hb (hlive slot hs)
      have hget : ∀ slot : NameSlot, slot.get { info with bound := b } = slot.get info := by
        intro slot
        cases slot <;> rfl
      have hnames : ∀ kind, { info with bound := b }.slotName kind = info.slotName kind :=
        VariableInfo.slotName_congr hget hslots
      have hstate : m.KeepsNames (m.withVariable k fun info => { info with bound := b }) :=
        h.changeState hat (f := fun info => { info with bound := b })
          (h.wf.modifyVariable k (fun _ => rfl) fun _ => rfl) rfl rfl
          (hlive.congr hget hslots) rfl
          hnames rfl rfl
      have hset := hstate.trans (hstate.named.setVariableBound (i := i) hat.column s.change)
      have hrun := Modelling.addBoundConstraint_run h.wf hat hb
      cases hx : Modelling.setVariableBound (i + 1) s.change
          (m.withVariable k fun info => { info with bound := b }) with
      | ok u m' =>
        rw [hx] at hrun
        exact keeps_of_ok hrun (after_ok hx ▸ hset)
      | error e m' =>
        rw [hx] at hrun
        rw [after_error hrun]
        exact after_error hx ▸ hset

theorem addTypeConstraint (v : VariableIndex) (t : TypeState) (kind : Kind) :
    m.KeepsNames (after (Modelling.addTypeConstraint v t kind) m) := by
  obtain ⟨e, hm⟩ | ⟨i, k, info, c, hm, hat, hv⟩ := h.wf.info_cases (.var v)
  · exact h.keeps_of_error (Modelling.query_bind_error hm _)
  · cases hv v rfl
    by_cases ht : info.type = .continuous
    · have hlive := h.live (hat.get? h.wf)
      have hslots : ∀ slot : NameSlot, slot.get info ≠ "" →
          { info with type := t }.slotKind slot = info.slotKind slot :=
        fun slot hs => VariableInfo.slotKind_retype ht (hlive slot hs)
      have hget : ∀ slot : NameSlot, slot.get { info with type := t } = slot.get info := by
        intro slot
        cases slot <;> rfl
      have hnames : ∀ kind, { info with type := t }.slotName kind = info.slotName kind :=
        VariableInfo.slotName_congr hget hslots
      have hwf := (h.wf.modifyColumn i fun c => { c with kind := .integer }).modifyVariable k
        (f := fun info => { info with type := t }) (fun _ => rfl) fun _ => rfl
      exact keeps_of_ok (Modelling.addTypeConstraint_run h.wf hat ht t kind)
        (h.changeState hat (f := fun info => { info with type := t }) (hwf.congr rfl rfl rfl rfl)
          rfl rfl (hlive.congr hget hslots) rfl
          hnames rfl rfl)
    · exact h.keeps_of_error (Modelling.addTypeConstraint_error hm ht)

theorem deleteSingleConstraint [OrderedScalar α] (kind : Kind) (value : Int) :
    (after (Modelling.deleteSingleConstraint ⟨.singleVariable, kind, value⟩) m).Named := by
  obtain ⟨e, hm⟩ | ⟨i, k, info, c, rfl, hat, hcarries, hm⟩ := h.wf.single_cases kind value
  · exact h.of_error (Modelling.query_bind_error hm _)
  · obtain ⟨slot, hslot⟩ : ∃ slot, NameSlot.ofKind? kind = some slot := by
      cases kind <;> first | exact ⟨_, rfl⟩ | simp [VariableInfo.carries] at hcarries
    have hk := VariableInfo.slotKind_eq_some.2 ⟨hcarries, hslot⟩
    have hwf : ∀ (g : Column α → Column α) (f : VariableInfo → VariableInfo),
        (∀ info, (f info).index = info.index) → (∀ info, (f info).column = info.column) →
        ((m.withColumn i g).withVariable k f).WellFormed := fun g f hi hc =>
      (h.wf.modifyColumn i g).modifyVariable k hi hc
    cases hb : kind.isBound with
    | true =>
      obtain ⟨b, change, hremove⟩ : ∃ (b : BoundState) (change : BoundChange α),
          info.bound.remove kind = .ok (b, change) := by
        cases kind <;> first | exact ⟨_, _, rfl⟩ | cases hb
      refine of_ok (Modelling.deleteSingle_bound_run h.wf hat hcarries hslot hremove)
        (h.changeSlot hat hk (f := fun info => slot.set "" { info with bound := b })
          ((hwf (·.rebound change) (fun info => slot.set "" { info with bound := b }) ?_
            ?_).congr rfl rfl rfl rfl) rfl rfl ?_
          (fun slot' hne => ?_) (fun slot' hne _ => ?_) ?_ rfl ?_)
      · intro info
        cases slot <;> rfl
      · intro info
        cases slot <;> rfl
      · cases slot <;> rfl
      · cases slot <;> cases slot' <;> first | rfl | exact absurd rfl hne
      · rw [← VariableInfo.slotKind_remove hk hremove hne]
        cases slot <;> cases slot' <;> rfl
      · cases slot <;> exact fun hne => absurd rfl hne
      · cases slot <;> rfl
    | false =>
      have htype : slot = .type := by
        cases kind <;> cases hb <;> simp_all [NameSlot.ofKind?]
      subst htype
      refine of_ok (Modelling.deleteSingle_type_run h.wf hat hcarries hslot)
        (h.changeSlot hat hk
          (f := fun info => NameSlot.type.set "" { info with type := .continuous })
          ((hwf (fun c => { c with kind := .continuous })
            (fun info => NameSlot.type.set "" { info with type := .continuous })
            (fun _ => rfl) fun _ => rfl).congr rfl rfl rfl rfl) rfl rfl rfl (fun slot' hne => ?_)
          (fun slot' hne _ => ?_) ?_ rfl rfl)
      · cases slot' <;> first | rfl | exact absurd rfl hne
      · cases slot' <;> first | rfl | exact absurd rfl hne
      · exact fun hne => absurd rfl hne

theorem addAffineConstraint (f : AffineFunction α) {s : ScalarSet α} (hs : s.isRow = true) :
    m.KeepsNames (after (Modelling.addAffineConstraint f s) m) := by
  obtain ⟨b, hb⟩ : ∃ b, s.rowBound? = some b := by
    cases s <;> first | exact ⟨_, rfl⟩ | cases hs
  by_cases hf : (f.constant == 0) = true
  · cases hd : m.firstDead f.canonical.terms with
    | some v =>
      refine h.keeps_of_error (e := .model (.invalidIndex (.var v))) ?_
      simp only [Modelling.addAffineConstraint, hf, Bool.not_true, Bool.false_eq_true, if_false]
      exact Modelling.query_bind_error (by rw [rowOf_eq, hd]) _
    | none =>
      have hfits := h.wf.fits_coefsOf f {}
      exact keeps_of_ok (Modelling.addAffineConstraint_run h.wf hf hd hb)
        (h.withRow (h.wf.withRow hb ⟨hfits.nodup, hfits.range, hfits.nonzero⟩))
  · refine h.keeps_of_error (e := .model (.constantNotZero f.constant)) ?_
    simp only [Modelling.addAffineConstraint, hf, Bool.not_false, if_true, bind_run, throw_run]

theorem addConstraint (f : FunctionArg α) (s : SetArg α) :
    m.KeepsNames (after (Modelling.addConstraint f s) m) := by
  cases s with
  | raw x => cases f <;> exact .refl h
  | set s =>
    have hsingle : ∀ v : VariableIndex,
        m.KeepsNames (after (Modelling.addConstraint (.var v) (.set s)) m) := by
      intro v
      cases s
      case zeroOne => exact h.addTypeConstraint v .binary .zeroOne
      case integer => exact h.addTypeConstraint v .integer .integer
      all_goals exact h.addBoundConstraint v _
    cases f with
    | raw x => exact .refl h
    | var v => exact hsingle v
    | single v => exact hsingle v
    | affine f =>
      simp only [Modelling.addConstraint]
      split_ifs with hrow
      · exact h.addAffineConstraint f hrow
      · exact .refl h

theorem deleteAffineConstraint (c : ConstraintIndex) :
    (after (Modelling.deleteAffineConstraint c) m).Named := by
  obtain ⟨e, hm⟩ | ⟨i, k, info, r, rfl, hat, -⟩ := h.wf.affine_cases c
  · exact h.of_error (Modelling.query_bind_error hm _)
  · exact of_ok (Modelling.deleteAffineConstraint_run h.wf hat rfl) (h.withoutRow hat)

theorem delete [OrderedScalar α] (i : IndexArg α) : (after (Modelling.delete i) m).Named := by
  cases i with
  | raw x => exact h
  | var v => exact h.deleteVariable v
  | constraint c =>
    obtain ⟨function, kind, value⟩ := c
    cases function
    case singleVariable => exact h.deleteSingleConstraint kind value
    case scalarAffine => exact h.deleteAffineConstraint ⟨.scalarAffine, kind, value⟩
    all_goals exact h

/-! ### Sets, functions and the objective -/

theorem withRowAt {i k : Nat} {info : ConstraintInfo α} {r : Row α} (hat : m.RowAt i k info r)
    {f : Row α → Row α} (hb : (f r).bounds = r.bounds)
    (hf : (f r).Fits m.problem.columns.length) : m.KeepsNames (m.withRowAt i f) :=
  h.inside (h.wf.withRowAt hat hb hf) rfl (fun _ => rfl) rfl rfl

theorem setConstraintSet (i : IndexArg α) (s : SetArg α) :
    m.KeepsNames (after (Modelling.setConstraintSet i s) m) := by
  cases i with
  | var v => exact .refl h
  | raw x => exact .refl h
  | constraint c =>
    obtain ⟨function, kind, value⟩ := c
    by_cases hkind : s.kind = kind
    · subst hkind
      by_cases hc : function = .singleVariable
      · subst hc
        obtain ⟨e, hm⟩ | ⟨i, k, info, c, rfl, hat, hcarries, -⟩ := h.wf.single_cases s.kind value
        · refine h.keeps_of_error (e := e) ?_
          simp only [Modelling.setConstraintSet, IndexArg.constraint?, Modelling.ofExcept_ok,
            bind_run, pure_run, ne_eq, not_true_eq_false, if_false, if_true, Modelling.query_run,
            hm, Modelling.ofExcept_error, throw_run]
        · cases s with
          | raw x => cases hcarries
          | set s =>
            have hrun := Modelling.setConstraintSet_single_run h.wf hat hcarries
            split_ifs at hrun with hbound
            · rw [SetArg.kind, after, hrun]
              exact h.setVariableBound hat.column s.change
            · exact keeps_of_ok hrun (.refl h)
      · obtain ⟨e, hm⟩ | ⟨i, k, info, r, heq, hat, -⟩ :=
          h.wf.affine_cases ⟨function, s.kind, value⟩
        · refine h.keeps_of_error (e := e) ?_
          simp only [Modelling.setConstraintSet, IndexArg.constraint?, Modelling.ofExcept_ok,
            bind_run, pure_run, ne_eq, not_true_eq_false, if_false, hc, Modelling.query_run,
            hm, Modelling.ofExcept_error, throw_run]
        · injection heq with hfunction hset hvalue
          subst hfunction hvalue
          obtain ⟨s, rfl⟩ := SetArg.eq_set_of_kind hset
          obtain ⟨b, hb⟩ := hat.rowBound_of_kind hset
          refine keeps_of_ok (Modelling.setConstraintSet_affine_run h.wf hat hset.symm hb)
            (h.inside (h.wf.modifyRow hat rfl hb ((hat.fits h.wf).within b)) rfl (fun n => ?_)
              rfl rfl)
          simp only [Model.withConstraint, Model.withRowAt, h.wf.affine.get?_modify]
          split_ifs with hn
          · rw [hn, hat.get? h.wf]
            exact congrArg (fun k => some (k, info.name)) hset
          · rfl
    · refine h.keeps_of_error (e := .model (.setKind s.kind kind)) ?_
      simp only [Modelling.setConstraintSet, IndexArg.constraint?, Modelling.ofExcept_ok, bind_run,
        pure_run, ne_eq, hkind, not_false_eq_true, if_true, throw_run]

theorem setConstraintFunction (i : IndexArg α) (f : FunctionArg α) :
    m.KeepsNames (after (Modelling.setConstraintFunction i f) m) := by
  cases i with
  | var v => exact .refl h
  | raw x => exact .refl h
  | constraint c =>
    by_cases hc : c.function = .singleVariable
    · refine h.keeps_of_error (e := .model .singleFunction) ?_
      simp only [Modelling.setConstraintFunction, IndexArg.constraint?, Modelling.ofExcept_ok,
        bind_run, pure_run, hc, if_true, throw_run]
    cases f with
    | affine f =>
      by_cases hf : (f.constant == 0) = true
      · obtain ⟨e, hm⟩ | ⟨i, k, info, r, rfl, hat, hm⟩ := h.wf.affine_cases c
        · refine h.keeps_of_error (e := e) ?_
          simp only [Modelling.setConstraintFunction, IndexArg.constraint?, Modelling.ofExcept_ok,
            bind_run, pure_run, hc, if_false, hf, Bool.not_true, Bool.false_eq_true,
            Modelling.query_run, hm, Modelling.ofExcept_error, throw_run]
        · cases hd : m.firstDead f.canonical.terms with
          | some v =>
            refine h.keeps_of_error (e := .model (.invalidIndex (.var v))) ?_
            simp only [Modelling.setConstraintFunction, IndexArg.constraint?,
              Modelling.ofExcept_ok, bind_run, pure_run, hc, if_false, hf, Bool.not_true,
              Bool.false_eq_true, Modelling.query_run, hm, rowOf_eq, hd,
              Modelling.ofExcept_error, throw_run]
          | none =>
            exact keeps_of_ok (Modelling.setConstraintFunction_run h.wf hat rfl hf hd)
              (h.withRowAt hat rfl (h.wf.fits_coefsOf f r))
      · refine h.keeps_of_error (e := .model (.constantNotZero f.constant)) ?_
        simp only [Modelling.setConstraintFunction, IndexArg.constraint?, Modelling.ofExcept_ok,
          bind_run, pure_run, hc, if_false, hf, Bool.not_false, if_true, throw_run]
    | _ =>
      refine h.keeps_of_error (e := .missingPart) ?_
      simp only [Modelling.setConstraintFunction, IndexArg.constraint?, Modelling.ofExcept_ok,
        bind_run, pure_run, hc, if_false, throw_run]

theorem modifyCoefficient (i v : IndexArg α) (x : α) :
    m.KeepsNames (after (Modelling.modifyCoefficient i v x) m) := by
  cases i with
  | var v => exact .refl h
  | raw x => exact .refl h
  | constraint c =>
    obtain ⟨e, hm⟩ | ⟨i, k, info, r, rfl, hat, hm⟩ := h.wf.affine_cases c
    · refine h.keeps_of_error (e := e) ?_
      simp only [Modelling.modifyCoefficient, IndexArg.constraint?, Modelling.ofExcept_ok,
        bind_run, pure_run, Modelling.query_run, hm, Modelling.ofExcept_error, throw_run]
    · obtain ⟨e, hm'⟩ | ⟨j, l, vinfo, col, hm', hvat, -⟩ := h.wf.info_cases v
      · refine h.keeps_of_error (e := e) ?_
        simp only [Modelling.modifyCoefficient, IndexArg.constraint?, Modelling.ofExcept_ok,
          bind_run, pure_run, Modelling.query_run, hm, hm', Modelling.ofExcept_error, throw_run]
      · have hj : 0 < vinfo.column := by
          rw [hvat.number]
          omega
        have hjn : vinfo.column ≤ m.problem.columns.length := by
          rw [hvat.number]
          exact hvat.place_lt
        obtain ⟨hfits, -⟩ := Modelling.fits_nonzero_replaceCoef (hat.fits h.wf) hj hjn x
        exact keeps_of_ok (Modelling.modifyCoefficient_run h.wf hat rfl hm' hj hjn)
          (h.withRowAt hat rfl hfits)

theorem setObjective (f : FunctionArg α) : m.KeepsNames (after (Modelling.setObjective f) m) := by
  have haffine : ∀ kind f, m.KeepsNames (after (Modelling.setAffineObjective kind f) m) := by
    intro kind f
    cases hd : m.firstDead f.terms with
    | some v =>
      refine h.keeps_of_error (Modelling.query_bind_error (e := .model (.invalidIndex (.var v))) ?_ _)
      rw [Modelling.costs_eq h.wf, hd]
    | none =>
      exact keeps_of_ok (Modelling.setAffineObjective_run h.wf hd kind)
        (h.inside (h.wf.withCosts _ (by simp [Registry.keys]) _ _) rfl (fun _ => rfl) rfl rfl)
  cases f with
  | raw x => exact .refl h
  | var v => exact haffine _ _
  | single v => exact haffine _ _
  | affine f => exact haffine _ _

theorem modifyObjectiveCoefficient (v : IndexArg α) (x : α) :
    m.KeepsNames (after (Modelling.modifyObjectiveCoefficient v x) m) := by
  obtain ⟨e, hm⟩ | ⟨i, k, info, c, hm, hat, -⟩ := h.wf.info_cases v
  · exact h.keeps_of_error (Modelling.query_bind_error hm _)
  · have hcost := Problem.setCost_of_getElem hat.column x
    rw [← hat.number] at hcost
    refine keeps_of_ok (b := ()) ?_ (h.withColumn i fun c => { c with cost := x })
    simp only [Modelling.modifyObjectiveCoefficient, bind_run, Modelling.query_run, hm,
      Modelling.ofExcept_ok, pure_run]
    exact Modelling.change_ok hcost

theorem edit [OrderedScalar α] (e : Edit α) : (after e.run m).Named := by
  have hdone : ∀ x : Modelling α Unit, (after x m).Named →
      (after (do
        x
        return Reply.done) m).Named := by
    intro x hx
    rw [after_return x fun _ => Reply.done]
    exact hx
  cases e with
  | addVariable =>
    rw [Edit.run, after_return Modelling.addVariable Reply.newVariable]
    exact of_ok (Modelling.addVariable_run h.wf) (h.grown 1).named
  | addVariables n =>
    rw [Edit.run, after_return (Modelling.addVariables n) Reply.newVariables]
    exact (h.addVariables n).named
  | addConstraint f s =>
    rw [Edit.run, after_return (Modelling.addConstraint f s) Reply.newConstraint]
    exact (h.addConstraint f s).named
  | delete i => exact hdone _ (h.delete i)
  | setConstraintSet i s => exact hdone _ (h.setConstraintSet i s).named
  | setConstraintFunction i f => exact hdone _ (h.setConstraintFunction i f).named
  | modifyCoefficient i v x => exact hdone _ (h.modifyCoefficient i v x).named
  | setObjective f => exact hdone _ (h.setObjective f).named
  | modifyObjectiveCoefficient v x => exact hdone _ (h.modifyObjectiveCoefficient v x).named
  | modifyObjectiveConstant x =>
    have hkeeps : m.KeepsNames { m with problem := { m.problem with constant := x } } :=
      h.inside (h.wf.congr rfl rfl rfl rfl) rfl (fun _ => rfl) rfl rfl
    exact hdone _ hkeeps.named

/-! ### Renaming and lookups -/

theorem setVariableName (v : VariableIndex) (name : String) :
    (after (Modelling.setVariableName (.var v) name) m).Named := by
  obtain ⟨e, hm⟩ | ⟨i, k, info, c, hm, hat, hv⟩ := h.wf.info_cases (.var v)
  · exact h.of_error (Modelling.query_bind_error hm _)
  · cases hv v rfl
    exact of_ok (Modelling.setVariableName_run h.wf hat name) (h.withVariableName hat name)

theorem setConstraintName (i : IndexArg α) (name : String) :
    (after (Modelling.setConstraintName i name) m).Named := by
  cases i with
  | var v => exact h
  | raw x => exact h
  | constraint c =>
    obtain ⟨-, e, hm⟩ | ⟨m', hrun, hrenamed⟩ := Modelling.setConstraintName_cases h.wf c name
    · exact h.of_error hm
    · exact of_ok hrun (h.renamed hrenamed)

end Model.Named

end MixedInteger
