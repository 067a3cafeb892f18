import MixedInteger.Proofs.Model.Naming
import MixedInteger.Proofs.Model.Call

/-! Changes of a model and its names. Most changes leave every name alone. A new variable
or constraint has no name yet; one that goes gives its name up, and the index either
follows or is dropped. -/

namespace MixedInteger

variable {α : Type} [Scalar α]

/-- A change that keeps the names in order and gives nobody another name. -/
structure Model.KeepsNames (m m' : Model α) : Prop where
  named : m'.Named
  ofVariable : m'.nameOfVariable = m.nameOfVariable
  ofConstraint : m'.nameOfConstraint = m.nameOfConstraint

namespace Model.KeepsNames

variable {m m' : Model α}

theorem refl (h : m.Named) : m.KeepsNames m := ⟨h, rfl, rfl⟩

theorem trans {m'' : Model α} (h : m.KeepsNames m') (h' : m'.KeepsNames m'') :
    m.KeepsNames m'' :=
  ⟨h'.named, h'.ofVariable.trans h.ofVariable, h'.ofConstraint.trans h.ofConstraint⟩

end Model.KeepsNames

namespace Model.Named

variable {m : Model α} (h : m.Named)
include h

/-- A change that no name has to do with. -/
theorem inside {m' : Model α} (hwf : m'.WellFormed) (hv : m'.vars = m.vars)
    (ha : ∀ k, (m'.affine.get? k).map (fun info => (info.set.kind, info.name)) =
      (m.affine.get? k).map fun info => (info.set.kind, info.name))
    (hvn : m'.variableNames = m.variableNames) (hcn : m'.constraintNames = m.constraintNames) :
    m.KeepsNames m' := by
  have hvariable : m'.nameOfVariable = m.nameOfVariable := by
    funext i
    cases i <;> simp only [nameOfVariable, hv]
  have hconstraint : m'.nameOfConstraint = m.nameOfConstraint := by
    funext c
    have hfilter := congrArg (fun o : Option (Kind × String) =>
      ((o.filter fun p => p.1 = c.set).map (·.2)).getD "") (ha c.value)
    simp only [Option.filter_map, Option.map_map, Function.comp_def] at hfilter
    simp only [nameOfConstraint, hv, hfilter]
  exact ⟨⟨hwf, fun hg => h.live (hv ▸ hg), by rw [hvn, hvariable]; exact h.variableNames,
    by rw [hcn, hconstraint]; exact h.constraintNames, hvn ▸ h.variableKind,
    hcn ▸ h.constraintKind⟩, hvariable, hconstraint⟩

/-! ### One variable -/

section Variable
variable {i k : Nat} {info : VariableInfo} {c : Column α} (hat : m.VariableAt i k info c)
  {m' : Model α} {f : VariableInfo → VariableInfo} (hwf : m'.WellFormed)
  (hv : m'.vars = m.vars.modify k f) (ha : m'.affine = m.affine) (hlive : (f info).SlotsLive)
include hat hwf hv ha hlive

omit hwf ha in
theorem live_modify {v : Int} {info' : VariableInfo} (hg : m'.vars.get? v = some info') :
    info'.SlotsLive := by
  rw [hv, h.wf.vars.get?_modify] at hg
  split_ifs at hg with hvk
  · rw [hvk, hat.get? h.wf] at hg
    cases hg
    exact hlive
  · exact h.live hg

omit hwf ha hlive in
theorem nameOfVariable_modify (j : IndexArg α) (hj : j ≠ .var ⟨k⟩ ∨ (f info).name = info.name) :
    m'.nameOfVariable j = m.nameOfVariable j := by
  cases j with
  | var v =>
    rw [nameOfVariable, nameOfVariable, hv, h.wf.vars.get?_modify]
    split_ifs with hvk
    · rcases hj with hj | hj
      · exact absurd (congrArg (fun v => IndexArg.var ⟨v⟩) hvk) hj
      · rw [hvk, hat.get? h.wf]
        exact hj
    · rfl
  | _ => rfl

omit hwf hlive in
theorem nameOfConstraint_modify (d : ConstraintIndex)
    (hd : d ≠ ⟨.singleVariable, d.set, k⟩ ∨ (f info).slotName d.set = info.slotName d.set) :
    m'.nameOfConstraint d = m.nameOfConstraint d := by
  obtain ⟨function, set, value⟩ := d
  rw [nameOfConstraint, nameOfConstraint, ha]
  cases function
  case singleVariable =>
    simp only [hv, h.wf.vars.get?_modify]
    split_ifs with hvk
    · subst hvk
      rcases hd with hd | hd
      · exact absurd rfl hd
      · rw [hat.get? h.wf]
        exact hd
    · rfl
  all_goals rfl

/-- Another state of a variable, with the same names. -/
theorem changeState (hname : (f info).name = info.name)
    (hslots : ∀ kind, (f info).slotName kind = info.slotName kind)
    (hvn : m'.variableNames = m.variableNames) (hcn : m'.constraintNames = m.constraintNames) :
    m.KeepsNames m' := by
  have hvariable : m'.nameOfVariable = m.nameOfVariable :=
    funext fun j => h.nameOfVariable_modify hat hv j (.inr hname)
  have hconstraint : m'.nameOfConstraint = m.nameOfConstraint :=
    funext fun d => h.nameOfConstraint_modify hat hv ha d (.inr (hslots d.set))
  exact ⟨⟨hwf, h.live_modify hat hv hlive, by rw [hvn, hvariable]; exact h.variableNames,
    by rw [hcn, hconstraint]; exact h.constraintNames, hvn ▸ h.variableKind,
    hcn ▸ h.constraintKind⟩, hvariable, hconstraint⟩

/-- Another name of a variable. -/
theorem renameVariable (hslots : ∀ kind, (f info).slotName kind = info.slotName kind)
    (hvn : m'.variableNames = m.variableNames.update info.name (f info).name (.var ⟨k⟩))
    (hcn : m'.constraintNames = m.constraintNames) : m'.Named := by
  have hconstraint : m'.nameOfConstraint = m.nameOfConstraint :=
    funext fun d => h.nameOfConstraint_modify hat hv ha d (.inr (hslots d.set))
  have hold : m.nameOfVariable (.var ⟨k⟩) = info.name := by
    rw [nameOfVariable, hat.get? h.wf]
    rfl
  have hnew : m'.nameOfVariable (.var ⟨k⟩) = (f info).name := by
    simp only [nameOfVariable, hv, h.wf.vars.get?_modify, if_true, hat.get? h.wf]
    rfl
  have hother : ∀ j, j ≠ .var ⟨k⟩ → m'.nameOfVariable j = m.nameOfVariable j :=
    fun j hj => h.nameOfVariable_modify hat hv j (.inl hj)
  have hcoherent := h.variableNames.update hother
  rw [hold, hnew] at hcoherent
  refine ⟨hwf, h.live_modify hat hv hlive, hvn ▸ hcoherent,
    by rw [hcn, hconstraint]; exact h.constraintNames, ?_, hcn ▸ h.constraintKind⟩
  rw [hvn, NameIndex.kind_update]
  exact h.variableKind

/-- Another name in a slot that is in use. -/
theorem renameSlot (hname : (f info).name = info.name) {kind : Kind}
    (hslots : ∀ kind', kind' ≠ kind → (f info).slotName kind' = info.slotName kind')
    (hvn : m'.variableNames = m.variableNames)
    (hcn : m'.constraintNames = m.constraintNames.update (info.slotName kind)
      ((f info).slotName kind) ⟨.singleVariable, kind, k⟩) : m'.Named := by
  have hvariable : m'.nameOfVariable = m.nameOfVariable :=
    funext fun j => h.nameOfVariable_modify hat hv j (.inr hname)
  have hold : m.nameOfConstraint ⟨.singleVariable, kind, k⟩ = info.slotName kind := by
    simp only [nameOfConstraint, hat.get? h.wf]
    rfl
  have hnew : m'.nameOfConstraint ⟨.singleVariable, kind, k⟩ = (f info).slotName kind := by
    simp only [nameOfConstraint, hv, h.wf.vars.get?_modify, if_true, hat.get? h.wf]
    rfl
  have hother : ∀ d, d ≠ ⟨.singleVariable, kind, k⟩ →
      m'.nameOfConstraint d = m.nameOfConstraint d := by
    intro d hd
    refine h.nameOfConstraint_modify hat hv ha d ?_
    by_cases hk : d.set = kind
    · exact .inl (hk ▸ hd)
    · exact .inr (hslots _ hk)
  have hcoherent := h.constraintNames.update hother
  rw [hold, hnew] at hcoherent
  refine ⟨hwf, h.live_modify hat hv hlive, by rw [hvn, hvariable]; exact h.variableNames,
    hcn ▸ hcoherent, hvn ▸ h.variableKind, ?_⟩
  rw [hcn, NameIndex.kind_update]
  exact h.constraintKind

end Variable

/-- The effect of giving up or changing one slot, given by its run. -/
theorem changeSlot {i k : Nat} {info : VariableInfo} {c : Column α} (hat : m.VariableAt i k info c)
    {kind : Kind} {slot₀ : NameSlot} (hk : info.slotKind slot₀ = some kind)
    {f : VariableInfo → VariableInfo} {m' : Model α} (hwf : m'.WellFormed)
    (hv : m'.vars = m.vars.modify k f) (ha : m'.affine = m.affine)
    (hname : (f info).name = info.name)
    (hget : ∀ slot : NameSlot, slot ≠ slot₀ → slot.get (f info) = slot.get info)
    (hkind : ∀ slot : NameSlot, slot ≠ slot₀ → slot.get info ≠ "" →
      (f info).slotKind slot = info.slotKind slot)
    (hnew : slot₀.get (f info) ≠ "" → (f info).slotKind slot₀ = some kind)
    (hvn : m'.variableNames = m.variableNames)
    (hcn : m'.constraintNames = m.constraintNames.update (slot₀.get info) (slot₀.get (f info))
      ⟨.singleVariable, kind, k⟩) : m'.Named := by
  refine h.renameSlot hat hwf hv ha ((h.live (hat.get? h.wf)).rename hget hkind hnew) hname
    (fun kind' hne => VariableInfo.slotName_of_ne hk hget hkind hnew hne) hvn ?_
  rw [VariableInfo.slotName_of_slotKind hk, VariableInfo.slotName_of_new hk hnew]
  exact hcn

/-! ### Variables that come and go -/

/-- A new variable has no names. -/
theorem grown (n : Nat) : m.KeepsNames (m.grown n) := by
  have hget : ∀ v : Int, (m.grown n).vars.get? v = if m.vars.last < v ∧ v ≤ m.vars.last + n then
      some { index := ⟨v⟩, column := m.vars.size + (v - m.vars.last).toNat }
      else m.vars.get? v := h.wf.vars.get?_enroll n
  have hvariable : (m.grown n).nameOfVariable = m.nameOfVariable := by
    funext j
    cases j with
    | var v =>
      rw [nameOfVariable, nameOfVariable, hget]
      split_ifs with hv
      · rw [h.wf.vars.get?_eq_none_of_last_lt hv.1]
        rfl
      · rfl
    | _ => rfl
  have hconstraint : (m.grown n).nameOfConstraint = m.nameOfConstraint := by
    funext d
    rw [nameOfConstraint, nameOfConstraint]
    cases d.function
    case singleVariable =>
      simp only [hget]
      split_ifs with hv
      · rw [h.wf.vars.get?_eq_none_of_last_lt hv.1]
        simp only [Option.map_some, Option.getD_some, VariableInfo.slotName]
        cases d.set <;> rfl
      · rfl
    all_goals rfl
  refine ⟨⟨h.wf.grown n, fun {v info} hg => ?_, by rw [hvariable]; exact h.variableNames,
    by rw [hconstraint]; exact h.constraintNames, h.variableKind, h.constraintKind⟩, hvariable,
    hconstraint⟩
  rw [hget] at hg
  split_ifs at hg with hv
  · cases hg
    intro slot hslot
    cases slot <;> exact absurd rfl hslot
  · exact h.live hg

/-- A variable that goes takes up to three more names with it. -/
theorem withoutVariable {i k : Nat} {info : VariableInfo} {c : Column α}
    (hat : m.VariableAt i k info c) : (m.withoutVariable i k info).Named := by
  have hget : ∀ v : Int, (m.withoutVariable i k info).vars.get? v =
      if v = k then none else (m.vars.get? v).map (VariableInfo.closeGap (i + 1)) := by
    intro v
    rw [Model.withoutVariable, (h.wf.vars.eraseAt i).get?_mapValues,
      h.wf.vars.get?_eraseAt hat.entry]
    split_ifs <;> rfl
  have hvariable : ∀ j, j ≠ .var ⟨k⟩ →
      (m.withoutVariable i k info).nameOfVariable j = m.nameOfVariable j := by
    intro j hj
    cases j with
    | var v =>
      rw [nameOfVariable, nameOfVariable, hget, if_neg fun hv => hj (by rw [← hv]), Option.map_map]
      rfl
    | _ => rfl
  have hconstraint : ∀ d : ConstraintIndex,
      d.function = .singleVariable ∧ d.value = k ∨
        (m.withoutVariable i k info).nameOfConstraint d = m.nameOfConstraint d := by
    intro d
    by_cases hd : d.function = .singleVariable ∧ d.value = k
    · exact .inl hd
    · refine .inr ?_
      obtain ⟨function, set, value⟩ := d
      rw [nameOfConstraint, nameOfConstraint]
      cases function
      case singleVariable =>
        simp only [hget, if_neg fun hv => hd ⟨rfl, hv⟩, Option.map_map]
        rfl
      all_goals rfl
  refine ⟨h.wf.withoutVariable hat, fun {v info'} hg => ?_, ?_, ?_, ?_, ?_⟩
  · rw [hget] at hg
    split_ifs at hg
    obtain ⟨info₀, hg₀, rfl⟩ := Option.map_eq_some_iff.1 hg
    have hget : ∀ slot : NameSlot, slot.get (info₀.closeGap (i + 1)) = slot.get info₀ := by
      intro slot
      cases slot <;> rfl
    exact (h.live hg₀).congr hget fun slot _ => by cases slot <;> rfl
  · have hold : m.nameOfVariable (.var ⟨k⟩) = info.name := by
      rw [nameOfVariable, hat.get? h.wf]
      rfl
    have hnew : (m.withoutVariable i k info).nameOfVariable (.var ⟨k⟩) = "" := by
      rw [nameOfVariable, hget, if_pos rfl]
      rfl
    have hcoherent := h.variableNames.update hvariable
    rw [hold, hnew] at hcoherent
    exact hcoherent
  · cases hnamed : [info.upperName, info.lowerName, info.typeName].any (· != "") with
    | true =>
      have hcn : (m.withoutVariable i k info).constraintNames = m.constraintNames.invalidate := by
        simp only [Model.withoutVariable, hnamed, if_true]
      rw [hcn]
      exact .invalidate _ _
    | false =>
      have hcn : (m.withoutVariable i k info).constraintNames = m.constraintNames := by
        simp only [Model.withoutVariable, hnamed, Bool.false_eq_true, if_false]
      have hslots : ∀ slot : NameSlot, slot.get info = "" := by
        simp only [List.any_cons, List.any_nil, Bool.or_false, Bool.or_eq_false_iff,
          bne_eq_false_iff_eq] at hnamed
        intro slot
        cases slot
        · exact hnamed.1
        · exact hnamed.2.1
        · exact hnamed.2.2
      have hsame : (m.withoutVariable i k info).nameOfConstraint = m.nameOfConstraint := by
        funext d
        obtain ⟨function, set, value⟩ := d
        rcases hconstraint ⟨function, set, value⟩ with ⟨rfl, rfl⟩ | hd
        · have hnone : info.slotName set = "" := by
            by_contra hne
            obtain ⟨slot, -, hs⟩ := VariableInfo.exists_slot_of_slotName hne
            exact hne (hs ▸ hslots slot)
          simp only [nameOfConstraint, hget, if_true, hat.get? h.wf, Option.map_none,
            Option.map_some, Option.getD_none, Option.getD_some, hnone]
        · exact hd
      rw [hcn, hsame]
      exact h.constraintNames
  · rw [Model.withoutVariable, NameIndex.kind_update]
    exact h.variableKind
  · simp only [Model.withoutVariable]
    split_ifs <;> exact h.constraintKind

/-! ### Rows -/

/-- A new affine constraint has no name. -/
theorem withRow {s : ScalarSet α} {r : Row α} (hwf : (m.withRow s r).WellFormed) :
    m.KeepsNames (m.withRow s r) := by
  have hconstraint : (m.withRow s r).nameOfConstraint = m.nameOfConstraint := by
    funext d
    rw [nameOfConstraint, nameOfConstraint]
    cases d.function
    case scalarAffine =>
      simp only [Model.withRow, h.wf.affine.get?_add]
      split_ifs with hd
      · rw [h.wf.affine.get?_eq_none_of_last_lt (by omega)]
        by_cases hs : s.kind = d.set <;> simp [Option.filter, hs]
      · rfl
    all_goals rfl
  exact ⟨⟨hwf, h.live, h.variableNames, by rw [hconstraint]; exact h.constraintNames,
    h.variableKind, h.constraintKind⟩, rfl, hconstraint⟩

theorem withoutRow {i k : Nat} {info : ConstraintInfo α} {r : Row α} (hat : m.RowAt i k info r) :
    (m.withoutRow i info).Named := by
  have hget : ∀ v : Int, (m.withoutRow i info).affine.get? v =
      if v = k then none else (m.affine.get? v).map (ConstraintInfo.closeGap (i + 1)) := by
    intro v
    rw [Model.withoutRow, (h.wf.affine.eraseAt i).get?_mapValues,
      h.wf.affine.get?_eraseAt hat.entry]
    split_ifs <;> rfl
  refine ⟨h.wf.withoutRow i info, h.live, h.variableNames, ?_, h.variableKind, ?_⟩
  · by_cases hnamed : info.name = ""
    · have hcn : (m.withoutRow i info).constraintNames = m.constraintNames := by
        simp only [Model.withoutRow, hnamed, ne_eq, not_true_eq_false, if_false]
      have hsame : (m.withoutRow i info).nameOfConstraint = m.nameOfConstraint := by
        funext d
        rw [nameOfConstraint, nameOfConstraint]
        cases d.function
        case scalarAffine =>
          simp only [hget]
          split_ifs with hd
          · rw [hd, hat.get? h.wf]
            by_cases hs : info.set.kind = d.set <;> simp [Option.filter, hs, hnamed]
          · rw [Option.filter_map, Option.map_map]
            rfl
        all_goals rfl
      rw [hcn, hsame]
      exact h.constraintNames
    · have hcn : (m.withoutRow i info).constraintNames = m.constraintNames.invalidate := by
        simp only [Model.withoutRow, ne_eq, hnamed, not_false_eq_true, if_true]
      rw [hcn]
      exact .invalidate _ _
  · simp only [Model.withoutRow]
    split_ifs <;> exact h.constraintKind

/-- Another name of an affine constraint. -/
theorem renameRow {i k : Nat} {info : ConstraintInfo α} {r : Row α} (hat : m.RowAt i k info r)
    {m' : Model α} (hwf : m'.WellFormed) (new : String) (hv : m'.vars = m.vars)
    (ha : m'.affine = m.affine.modify k fun info => { info with name := new })
    (hvn : m'.variableNames = m.variableNames)
    (hcn : m'.constraintNames = m.constraintNames.update info.name new
      ⟨.scalarAffine, info.set.kind, k⟩) : m'.Named := by
  have hvariable : m'.nameOfVariable = m.nameOfVariable := by
    funext j
    cases j <;> simp only [nameOfVariable, hv]
  have hother : ∀ d : ConstraintIndex, d ≠ ⟨.scalarAffine, info.set.kind, k⟩ →
      m'.nameOfConstraint d = m.nameOfConstraint d := by
    intro d hd
    obtain ⟨function, set, value⟩ := d
    rw [nameOfConstraint, nameOfConstraint]
    cases function
    case singleVariable => simp only [hv]
    case scalarAffine =>
      simp only [ha, h.wf.affine.get?_modify]
      split_ifs with hk
      · subst hk
        have hs : ¬info.set.kind = set := fun heq => hd (by rw [heq])
        simp [hat.get? h.wf, Option.filter, hs]
      · rfl
    all_goals rfl
  have hold : m.nameOfConstraint ⟨.scalarAffine, info.set.kind, k⟩ = info.name := by
    simp [nameOfConstraint, hat.get? h.wf, Option.filter]
  have hnew : m'.nameOfConstraint ⟨.scalarAffine, info.set.kind, k⟩ = new := by
    simp [nameOfConstraint, ha, h.wf.affine.get?_modify, hat.get? h.wf, Option.filter]
  have hcoherent := h.constraintNames.update hother
  rw [hold, hnew] at hcoherent
  refine ⟨hwf, fun hg => h.live (hv ▸ hg), by rw [hvn, hvariable]; exact h.variableNames,
    hcn ▸ hcoherent, hvn ▸ h.variableKind, ?_⟩
  rw [hcn, NameIndex.kind_update]
  exact h.constraintKind

end Model.Named

end MixedInteger
