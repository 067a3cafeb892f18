import MixedInteger.Model.NameIndex
import MixedInteger.Proofs.Problem.Row
import Mathlib.Tactic.Common
import MixedInteger.Proofs.Model.Run

/-! The names in a model, and the index of names. The truth of an index is a function that gives
every identity its current name, the empty one when it has none. A built index is coherent when it
lists the named identities, each name once. Following a renaming and looking a name up keep it
coherent, and a lookup fails exactly when two identities share a name. Every live variable and
constraint has a name, perhaps the empty one; the names of constraints on a variable stand in three
slots, of which a slot that is not empty belongs to a live constraint. A scan lists every named
identity once. -/

namespace MixedInteger.NameIndex

variable {I : Type}

/-- Two identities have this name, which is not the empty one. -/
def Shared (nameOf : I → String) (name : String) : Prop :=
  name ≠ "" ∧ ∃ i j, i ≠ j ∧ nameOf i = name ∧ nameOf j = name

/-- A built index lists the named identities, each name once. -/
def Coherent (n : NameIndex I) (nameOf : I → String) : Prop :=
  ∀ m, n.map = some m → (m.map (·.1)).Nodup ∧
    ∀ name i, (name, i) ∈ m ↔ nameOf i = name ∧ name ≠ ""

theorem Coherent.invalidate (n : NameIndex I) (nameOf : I → String) :
    n.invalidate.Coherent nameOf := fun _ h => by cases h

/-- Names that occur once are not shared. -/
theorem Coherent.not_shared {n : NameIndex I} {nameOf : I → String} (h : n.Coherent nameOf)
    {m : List (String × I)} (hm : n.map = some m) (name : String) : ¬Shared nameOf name := by
  rintro ⟨hne, i, j, hij, hi, hj⟩
  obtain ⟨hnodup, hmem⟩ := h m hm
  have hi' := (lookup_eq_some_iff_mem hnodup).2 ((hmem name i).2 ⟨hi, hne⟩)
  have hj' := (lookup_eq_some_iff_mem hnodup).2 ((hmem name j).2 ⟨hj, hne⟩)
  exact hij (Option.some.inj (hi'.symm.trans hj'))

/-- A name that is not found may be added. -/
theorem nodup_concat {m : List (String × I)} (hm : (m.map (·.1)).Nodup) {name : String}
    (hfree : ¬(m.lookup name).isSome = true) (i : I) :
    ((m ++ [(name, i)]).map (·.1)).Nodup := by
  rw [List.map_append, List.nodup_append]
  refine ⟨hm, by simp, fun a ha b hb hab => ?_⟩
  obtain ⟨⟨name', j⟩, he, rfl⟩ := List.mem_map.1 ha
  have hname : name' = name := hab.trans (List.mem_singleton.1 hb)
  rw [← hname, (lookup_eq_some_iff_mem hm).2 he] at hfree
  exact hfree rfl

/-! ### Renaming -/

theorem kind_update (n : NameIndex I) (old new : String) (i : I) :
    (n.update old new i).kind = n.kind := by
  rw [update]
  cases n.map with
  | none => rfl
  | some m =>
    simp only
    split_ifs <;> rfl

/-- Following a renaming of one identity. -/
theorem Coherent.update {n : NameIndex I} {nameOf nameOf' : I → String} (h : n.Coherent nameOf)
    {i : I} (hother : ∀ j, j ≠ i → nameOf' j = nameOf j) :
    (n.update (nameOf i) (nameOf' i) i).Coherent nameOf' := by
  cases hm : n.map with
  | none =>
    simp only [NameIndex.update, hm]
    intro m' hm'
    rw [hm] at hm'
    cases hm'
  | some m =>
    obtain ⟨hnodup, hmem⟩ := h m hm
    have hfilter : ((m.filter fun e => e.1 != nameOf i).map (·.1)).Nodup :=
      hnodup.sublist (List.filter_sublist.map _)
    -- dropping the old name drops this identity and no other
    have hrest : ∀ name j, (name, j) ∈ m.filter (fun e => e.1 != nameOf i) ↔
        nameOf j = name ∧ name ≠ "" ∧ j ≠ i := by
      intro name j
      rw [List.mem_filter, hmem]
      constructor
      · rintro ⟨⟨hj, hne⟩, hold⟩
        refine ⟨hj, hne, ?_⟩
        rintro rfl
        simp [hj] at hold
      · rintro ⟨hj, hne, hji⟩
        refine ⟨⟨hj, hne⟩, ?_⟩
        have hold : name ≠ nameOf i := fun heq =>
          h.not_shared hm name ⟨hne, j, i, hji, hj, heq.symm⟩
        simpa using hold
    simp only [NameIndex.update, hm]
    split_ifs with hnew htaken
    · intro m' hm'
      cases hm'
      rw [String.isEmpty_iff] at hnew
      refine ⟨hfilter, fun name j => (hrest name j).trans ?_⟩
      by_cases hji : j = i
      · subst hji
        simp only [ne_eq, not_true_eq_false, and_false, false_iff, not_and]
        rintro rfl
        exact fun hne => hne hnew
      · simp only [hother j hji, ne_eq, hji, not_false_eq_true, and_true]
    · exact .invalidate n _
    · intro m' hm'
      cases hm'
      rw [String.isEmpty_iff] at hnew
      refine ⟨nodup_concat hfilter htaken i, fun name j => ?_⟩
      rw [List.mem_append, hrest, List.mem_singleton, Prod.mk.injEq]
      by_cases hji : j = i
      · subst hji
        simp only [ne_eq, not_true_eq_false, and_false, false_or, and_true]
        constructor
        · rintro rfl
          exact ⟨rfl, hnew⟩
        · exact fun hn => hn.1.symm
      · simp only [hother j hji, ne_eq, hji, not_false_eq_true, and_true, and_false, or_false]

/-! ### Building -/

/-- What is collected of a scan in which no identity occurs twice: the named entries, or a
name of two of them. -/
theorem collect_spec : ∀ (scan known : List (String × I)), ((known ++ scan).map (·.2)).Nodup →
    (known.map (·.1)).Nodup →
    match collect known scan with
    | .ok m => (m.map (·.1)).Nodup ∧ ∀ e, e ∈ m ↔ e ∈ known ∨ e ∈ scan ∧ e.1 ≠ ""
    | .error name => name ≠ "" ∧
        ∃ i j, i ≠ j ∧ (name, i) ∈ known ++ scan ∧ (name, j) ∈ known ++ scan
  | [], known, _, hk => by simp [collect, hk]
  | (name, i) :: scan, known, hi, hk => by
    have hmem : ∀ e : String × I, e ∈ known ++ (name, i) :: scan ↔
        e ∈ (known ++ [(name, i)]) ++ scan := by simp
    rw [collect]
    split_ifs with hempty htaken
    · -- an unnamed entry is passed over
      rw [String.isEmpty_iff] at hempty
      have hi' : ((known ++ scan).map (·.2)).Nodup := by
        refine hi.sublist (List.Sublist.map _ ?_)
        exact (List.Sublist.refl known).append (List.sublist_cons_self _ scan)
      have ih := collect_spec scan known hi' hk
      cases hc : collect known scan with
      | ok m =>
        rw [hc] at ih
        refine ⟨ih.1, fun e => (ih.2 e).trans ?_⟩
        constructor
        · rintro (he | ⟨he, hne⟩)
          · exact .inl he
          · exact .inr ⟨List.mem_cons_of_mem _ he, hne⟩
        · rintro (he | ⟨he, hne⟩)
          · exact .inl he
          · rcases List.mem_cons.1 he with rfl | he
            · exact absurd hempty hne
            · exact .inr ⟨he, hne⟩
      | error d =>
        rw [hc] at ih
        obtain ⟨hne, j, k, hjk, hj, hk'⟩ := ih
        refine ⟨hne, j, k, hjk, ?_, ?_⟩
        · rcases List.mem_append.1 hj with h | h
          · exact List.mem_append_left _ h
          · exact List.mem_append_right _ (List.mem_cons_of_mem _ h)
        · rcases List.mem_append.1 hk' with h | h
          · exact List.mem_append_left _ h
          · exact List.mem_append_right _ (List.mem_cons_of_mem _ h)
    · -- a name that is known belongs to another identity
      rw [String.isEmpty_iff] at hempty
      obtain ⟨j, hj⟩ := Option.isSome_iff_exists.1 htaken
      have hj := (lookup_eq_some_iff_mem hk).1 hj
      refine ⟨hempty, j, i, ?_, List.mem_append_left _ hj, by simp⟩
      rintro rfl
      rw [List.map_append, List.nodup_append] at hi
      exact hi.2.2 j (List.mem_map.2 ⟨_, hj, rfl⟩) j (by simp) rfl
    · rw [String.isEmpty_iff] at hempty
      have ih := collect_spec scan (known ++ [(name, i)]) (by simpa using hi)
        (nodup_concat hk htaken i)
      cases hc : collect (known ++ [(name, i)]) scan with
      | ok m =>
        rw [hc] at ih
        refine ⟨ih.1, fun e => (ih.2 e).trans ?_⟩
        rw [List.mem_append, List.mem_singleton, List.mem_cons]
        constructor
        · rintro ((he | rfl) | ⟨he, hne⟩)
          · exact .inl he
          · exact .inr ⟨.inl rfl, hempty⟩
          · exact .inr ⟨.inr he, hne⟩
        · rintro (he | ⟨rfl | he, hne⟩)
          · exact .inl (.inl he)
          · exact .inl (.inr rfl)
          · exact .inr ⟨he, hne⟩
      | error d =>
        rw [hc] at ih
        simp only [hmem]
        exact ih

/-- A lookup keeps the index coherent. It fails when a name is shared, and otherwise finds
the identity of a name. -/
theorem Coherent.lookup {n : NameIndex I} {nameOf : I → String} (h : n.Coherent nameOf)
    {scan : List (String × I)} (hi : (scan.map (·.2)).Nodup)
    (hscan : ∀ name i, name ≠ "" → ((name, i) ∈ scan ↔ nameOf i = name)) (name : String) :
    (n.lookup scan name).2.Coherent nameOf ∧ (n.lookup scan name).2.kind = n.kind ∧
    match (n.lookup scan name).1 with
    | .ok found => (∀ s, ¬Shared nameOf s) ∧
        (name ≠ "" → ∀ i, found = some i ↔ nameOf i = name)
    | .error d => d.kind = n.kind ∧ Shared nameOf d.name := by
  have hfound : ∀ {m : List (String × I)}, (m.map (·.1)).Nodup →
      (∀ name i, (name, i) ∈ m ↔ nameOf i = name ∧ name ≠ "") → name ≠ "" →
      ∀ i, m.lookup name = some i ↔ nameOf i = name := by
    intro m hm hmem hne i
    rw [lookup_eq_some_iff_mem hm, hmem]
    exact and_iff_left hne
  rw [NameIndex.lookup]
  cases hm : n.map with
  | some m =>
    obtain ⟨hnodup, hmem⟩ := h m hm
    exact ⟨h, rfl, h.not_shared hm, hfound hnodup hmem⟩
  | none =>
    have hcollect := collect_spec scan [] (by simpa using hi) List.nodup_nil
    simp only [rebuild]
    cases hc : collect [] scan with
    | ok m =>
      rw [hc] at hcollect
      obtain ⟨hnodup, hmem⟩ := hcollect
      have hmem' : ∀ name i, (name, i) ∈ m ↔ nameOf i = name ∧ name ≠ "" := by
        intro name i
        rw [hmem]
        constructor
        · rintro (he | ⟨he, hne⟩)
          · cases he
          · exact ⟨(hscan name i hne).1 he, hne⟩
        · rintro ⟨he, hne⟩
          exact .inr ⟨(hscan name i hne).2 he, hne⟩
      have hbuilt : ({ n with map := some m } : NameIndex I).Coherent nameOf := by
        intro m' hm'
        cases hm'
        exact ⟨hnodup, hmem'⟩
      exact ⟨hbuilt, rfl, hbuilt.not_shared rfl, hfound hnodup hmem'⟩
    | error d =>
      rw [hc] at hcollect
      obtain ⟨hne, i, j, hij, hi, hj⟩ := hcollect
      exact ⟨.invalidate n _, rfl, rfl, hne, i, j, hij, (hscan d i hne).1 hi,
        (hscan d j hne).1 hj⟩

end MixedInteger.NameIndex

namespace MixedInteger

variable {α : Type} [Scalar α]

/-! ### Slots -/

namespace VariableInfo

/-- The name of the constraint of a kind, the empty one when it is not there. -/
def slotName (info : VariableInfo) (k : Kind) : String :=
  if info.carries k then ((NameSlot.ofKind? k).map fun slot => slot.get info).getD "" else ""

/-- Names stand in the slots of live constraints only. -/
def SlotsLive (info : VariableInfo) : Prop :=
  ∀ slot : NameSlot, slot.get info ≠ "" → (info.slotKind slot).isSome = true

/-- A slot belongs to the one live constraint whose kind it is for. -/
theorem slotKind_eq_some {info : VariableInfo} {slot : NameSlot} {k : Kind} :
    info.slotKind slot = some k ↔ info.carries k = true ∧ NameSlot.ofKind? k = some slot := by
  cases slot <;> cases k <;> cases hb : info.bound <;> cases ht : info.type <;>
    simp [slotKind, carries, NameSlot.ofKind?, hb, ht]

theorem slotName_of_slotKind {info : VariableInfo} {slot : NameSlot} {k : Kind}
    (h : info.slotKind slot = some k) : info.slotName k = slot.get info := by
  obtain ⟨hk, hs⟩ := slotKind_eq_some.1 h
  simp [slotName, hk, hs]

theorem exists_slot_of_slotName {info : VariableInfo} {k : Kind} (h : info.slotName k ≠ "") :
    ∃ slot, info.slotKind slot = some k ∧ slot.get info = info.slotName k := by
  rw [slotName] at h ⊢
  split_ifs at h ⊢ with hk
  · cases hs : NameSlot.ofKind? k with
    | none => simp [hs] at h
    | some slot => exact ⟨slot, slotKind_eq_some.2 ⟨hk, hs⟩, by simp⟩
  · exact absurd rfl h

variable {info info' : VariableInfo}

/-- Names stay while no slot that is in use changes hands. -/
theorem slotName_congr (hget : ∀ slot : NameSlot, slot.get info' = slot.get info)
    (hkind : ∀ slot : NameSlot, slot.get info ≠ "" → info'.slotKind slot = info.slotKind slot)
    (k : Kind) : info'.slotName k = info.slotName k := by
  by_cases h' : info'.slotName k = ""
  · by_cases h : info.slotName k = ""
    · rw [h, h']
    · obtain ⟨slot, hk, hs⟩ := exists_slot_of_slotName h
      rw [← hkind slot (hs ▸ h)] at hk
      rw [slotName_of_slotKind hk, hget, hs]
  · obtain ⟨slot, hk, hs⟩ := exists_slot_of_slotName h'
    rw [hkind slot (hget slot ▸ hs ▸ h')] at hk
    rw [slotName_of_slotKind hk, ← hget, hs]

theorem SlotsLive.congr (h : info.SlotsLive)
    (hget : ∀ slot : NameSlot, slot.get info' = slot.get info)
    (hkind : ∀ slot : NameSlot, slot.get info ≠ "" → info'.slotKind slot = info.slotKind slot) :
    info'.SlotsLive := by
  intro slot hslot
  rw [hget] at hslot
  rw [hkind slot hslot]
  exact h slot hslot

section Rename
variable {slot₀ : NameSlot} {k : Kind} (hk : info.slotKind slot₀ = some k)
  (hget : ∀ slot : NameSlot, slot ≠ slot₀ → slot.get info' = slot.get info)
  (hkind : ∀ slot : NameSlot, slot ≠ slot₀ → slot.get info ≠ "" →
    info'.slotKind slot = info.slotKind slot)
  (hnew : slot₀.get info' ≠ "" → info'.slotKind slot₀ = some k)
include hk hget hkind hnew

/-- Another name in one slot is another name for one constraint. -/
theorem slotName_of_ne {k' : Kind} (hne : k' ≠ k) : info'.slotName k' = info.slotName k' := by
  by_cases h' : info'.slotName k' = ""
  · by_cases h : info.slotName k' = ""
    · rw [h, h']
    · obtain ⟨slot, hs, hn⟩ := exists_slot_of_slotName h
      have hslot : slot ≠ slot₀ := by
        rintro rfl
        exact hne (Option.some.inj (hs.symm.trans hk))
      rw [← hkind slot hslot (hn ▸ h)] at hs
      rw [slotName_of_slotKind hs, hget slot hslot, hn]
  · obtain ⟨slot, hs, hn⟩ := exists_slot_of_slotName h'
    have hslot : slot ≠ slot₀ := by
      rintro rfl
      exact hne (Option.some.inj (hs.symm.trans (hnew (hn ▸ h'))))
    rw [hkind slot hslot (hget slot hslot ▸ hn ▸ h')] at hs
    rw [slotName_of_slotKind hs, ← hget slot hslot, hn]

omit hget hkind in
theorem slotName_of_new : info'.slotName k = slot₀.get info' := by
  by_cases h : slot₀.get info' = ""
  · rw [slotName, (slotKind_eq_some.1 hk).2, Option.map_some, Option.getD_some, h, ite_self]
  · exact slotName_of_slotKind (hnew h)

omit hk in
theorem SlotsLive.rename (h : info.SlotsLive) : info'.SlotsLive := by
  intro slot hslot
  by_cases hs : slot = slot₀
  · subst hs
    rw [hnew hslot]
    rfl
  · rw [hget slot hs] at hslot
    rw [hkind slot hs hslot]
    exact h slot hslot

end Rename

end VariableInfo

/-! ### Names of identities -/

namespace Model

def nameOfVariable (m : Model α) : IndexArg α → String
  | .var v => ((m.vars.get? v.value).map (·.name)).getD ""
  | _ => ""

def nameOfConstraint (m : Model α) (c : ConstraintIndex) : String :=
  match c.function with
  | .singleVariable => ((m.vars.get? c.value).map (·.slotName c.set)).getD ""
  | .scalarAffine =>
    (((m.affine.get? c.value).filter fun info => info.set.kind = c.set).map (·.name)).getD ""
  | _ => ""

theorem nameOfVariable_eq {m : Model α} {n : String} (hn : n ≠ "") (v : VariableIndex) :
    m.nameOfVariable (.var v) = n ↔ m.variableName (.var v) = .ok n := by
  rw [nameOfVariable, variableName, info_var]
  cases m.vars.get? v.value <;> simp [hn.symm]

theorem nameOfConstraint_eq {m : Model α} {n : String} (hn : n ≠ "") (c : ConstraintIndex) :
    m.nameOfConstraint c = n ↔ m.constraintName (.constraint c) = .ok n := by
  obtain ⟨function, set, value⟩ := c
  rw [constraintName]
  by_cases hc : function = .singleVariable
  · subst hc
    have hlive := liveInfo_eq m (c := ⟨.singleVariable, set, value⟩) rfl
    simp only [IndexArg.constraint?, bind_ok, if_true, hlive, nameOfConstraint]
    cases m.vars.get? value with
    | none => simp [hn.symm]
    | some info =>
      cases hk : info.carries set <;> simp [VariableInfo.slotName, Option.filter, hk, hn.symm]
  · simp only [IndexArg.constraint?, bind_ok, if_neg hc, affineInfo_eq]
    by_cases hf : function = .scalarAffine
    · subst hf
      simp only [if_true, nameOfConstraint]
      cases (m.affine.get? value).filter fun info => info.set.kind = set <;> simp [hn.symm]
    · simp only [if_neg hf]
      cases function <;> simp_all [nameOfConstraint, hn.symm]

/-- What holds of the names in a model at any time. -/
structure Named (m : Model α) : Prop where
  wf : m.WellFormed
  live : ∀ {v info}, m.vars.get? v = some info → info.SlotsLive
  variableNames : m.variableNames.Coherent m.nameOfVariable
  constraintNames : m.constraintNames.Coherent m.nameOfConstraint
  variableKind : m.variableNames.kind = "variable"
  constraintKind : m.constraintNames.kind = "constraint"

end Model

/-! ### Scans -/

omit [Scalar α] in
theorem untilFault_map_ok {β : Type} : ∀ l : List β,
    Modelling.untilFault (l.map (Except.ok (ε := Fault α))) = (l, none)
  | [] => rfl
  | b :: l => by rw [List.map_cons, Modelling.untilFault, untilFault_map_ok l]

/-- The names in the slots of a variable. -/
def VariableInfo.named (v : Nat) (info : VariableInfo) : List (String × ConstraintIndex) :=
  [NameSlot.upper, NameSlot.lower, NameSlot.type].filterMap fun slot =>
    if slot.get info = "" then none
    else (info.slotKind slot).map fun kind => (slot.get info, ⟨.singleVariable, kind, v⟩)

omit [Scalar α] in
theorem VariableInfo.SlotsLive.namedSlots_eq {info : VariableInfo} (h : info.SlotsLive) (v : Nat) :
    Modelling.namedSlots (α := α) v info = (info.named v).map Except.ok := by
  rw [Modelling.namedSlots, VariableInfo.named, List.map_filterMap]
  refine List.filterMap_congr fun slot _ => ?_
  by_cases hn : slot.get info = ""
  · simp [hn]
  · obtain ⟨kind, hk⟩ := Option.isSome_iff_exists.1 (h slot hn)
    simp [hn, hk]

theorem VariableInfo.mem_named {info : VariableInfo} {v : Nat} {name : String}
    {c : ConstraintIndex} : (name, c) ∈ info.named v ↔
      name ≠ "" ∧ c = ⟨.singleVariable, c.set, v⟩ ∧ info.slotName c.set = name := by
  rw [VariableInfo.named, List.mem_filterMap]
  constructor
  · rintro ⟨slot, -, heq⟩
    split_ifs at heq with hn
    obtain ⟨kind, hk, heq⟩ := Option.map_eq_some_iff.1 heq
    cases heq
    exact ⟨hn, rfl, slotName_of_slotKind hk⟩
  · rintro ⟨hn, hc, rfl⟩
    obtain ⟨slot, hk, hname⟩ := exists_slot_of_slotName hn
    refine ⟨slot, by cases slot <;> simp, ?_⟩
    rw [hname, if_neg hn, hk, hc]
    rfl

theorem VariableInfo.nodup_named (info : VariableInfo) (v : Nat) :
    ((info.named v).map (·.2)).Nodup := by
  rw [VariableInfo.named, List.map_filterMap]
  refine List.Nodup.filterMap (fun slot slot' c hc hc' => ?_) (by decide)
  simp only [Option.mem_def, Option.map_eq_some_iff] at hc hc'
  obtain ⟨e, he, rfl⟩ := hc
  obtain ⟨e', he', heq⟩ := hc'
  split_ifs at he he'
  obtain ⟨kind, hk, rfl⟩ := Option.map_eq_some_iff.1 he
  obtain ⟨kind', hk', rfl⟩ := Option.map_eq_some_iff.1 he'
  cases heq
  exact Option.some.inj ((slotKind_eq_some.1 hk).2.symm.trans (slotKind_eq_some.1 hk').2)

namespace Model

def constraintScan (m : Model α) : List (String × ConstraintIndex) :=
  (m.affine.entries.map fun e => (e.2.name, ⟨.scalarAffine, e.2.set.kind, e.1⟩)) ++
    m.vars.entries.flatMap fun e => e.2.named e.1

namespace Named

variable {m : Model α} (h : m.Named)
include h

/-- The scan of the constraints meets no fault. -/
theorem scanConstraintNames_eq :
    Modelling.scanConstraintNames m = m.constraintScan.map Except.ok := by
  rw [Modelling.scanConstraintNames, constraintScan, List.map_append, List.map_map,
    List.map_flatMap]
  congr 1
  refine List.flatMap_congr fun e he => ?_
  exact (h.live (h.wf.vars.get?_of_mem he)).namedSlots_eq e.1

theorem mem_scanVariableNames {name : String} (hn : name ≠ "") (i : IndexArg α) :
    (name, i) ∈ Modelling.scanVariableNames m ↔ m.nameOfVariable i = name := by
  simp only [Modelling.scanVariableNames, List.mem_map, Prod.mk.injEq]
  cases i with
  | var v =>
    rw [nameOfVariable]
    constructor
    · rintro ⟨e, he, hname, hv⟩
      cases hv
      rw [h.wf.vars.get?_of_mem he]
      exact hname
    · intro hname
      cases hv : m.vars.get? v.value with
      | none => simp [hv, hn.symm] at hname
      | some info =>
        obtain ⟨k, hk, he⟩ := h.wf.vars.get?_eq_some_iff_mem.1 hv
        refine ⟨_, he, by simpa [hv] using hname, ?_⟩
        rw [← hk]
  | constraint c => simp [nameOfVariable, hn.symm]
  | raw x => simp [nameOfVariable, hn.symm]

theorem nodup_scanVariableNames : ((Modelling.scanVariableNames m).map (·.2)).Nodup := by
  have hkeys : (Modelling.scanVariableNames m).map (·.2) =
      m.vars.keys.map fun k : Nat => (IndexArg.var ⟨k⟩ : IndexArg α) := by
    rw [Modelling.scanVariableNames, Registry.keys, List.map_map, List.map_map]
    rfl
  rw [hkeys]
  refine h.wf.vars.nodup.map fun a b hab => ?_
  injection hab with hab
  injection hab with hab
  exact_mod_cast hab

theorem mem_constraintScan {name : String} (hn : name ≠ "") (c : ConstraintIndex) :
    (name, c) ∈ m.constraintScan ↔ m.nameOfConstraint c = name := by
  obtain ⟨function, set, value⟩ := c
  rw [constraintScan, List.mem_append, List.mem_map, List.mem_flatMap]
  simp only [VariableInfo.mem_named, Prod.mk.injEq, ConstraintIndex.mk.injEq, nameOfConstraint]
  constructor
  · rintro (⟨⟨k, info⟩, he, rfl, rfl, rfl, rfl⟩ | ⟨⟨k, info⟩, he, -, ⟨rfl, -, rfl⟩, hname⟩)
    · have hget : m.affine.get? k = some info := h.wf.affine.get?_of_mem he
      simp [hget, Option.filter]
    · have hget : m.vars.get? k = some info := h.wf.vars.get?_of_mem he
      simpa [hget] using hname
  · intro hname
    cases function
    case singleVariable =>
      simp only at hname
      cases hv : m.vars.get? value with
      | none => simp [hv, hn.symm] at hname
      | some info =>
        obtain ⟨k, hk, he⟩ := h.wf.vars.get?_eq_some_iff_mem.1 hv
        exact .inr ⟨(k, info), he, hn, ⟨rfl, trivial, hk⟩, by simpa [hv] using hname⟩
    case scalarAffine =>
      simp only at hname
      cases hf : (m.affine.get? value).filter fun info => info.set.kind = set with
      | none => simp [hf, hn.symm] at hname
      | some info =>
        obtain ⟨hget, hset⟩ := Option.filter_eq_some_iff.1 hf
        obtain ⟨k, hk, he⟩ := h.wf.affine.get?_eq_some_iff_mem.1 hget
        exact .inl ⟨(k, info), he, by simpa [hf] using hname, rfl, by simpa using hset, hk.symm⟩
    all_goals exact absurd hname.symm hn

theorem nodup_constraintScan : (m.constraintScan.map (·.2)).Nodup := by
  rw [constraintScan, List.map_append, List.map_map, List.map_flatMap, List.nodup_append]
  refine ⟨?_, ?_, ?_⟩
  · have hkeys : (m.affine.entries.map fun e => e.1).Nodup := h.wf.affine.nodup
    refine List.Nodup.of_map (f := fun c : ConstraintIndex => c.value.toNat) ?_
    rw [List.map_map]
    exact hkeys
  · refine List.nodup_flatMap.2 ⟨fun e _ => e.2.nodup_named e.1, ?_⟩
    refine (List.pairwise_map.1 h.wf.vars.nodup).imp fun {a b} hab => ?_
    rw [Function.onFun, List.disjoint_left]
    intro c ha hb
    obtain ⟨⟨na, ca⟩, hma, rfl⟩ := List.mem_map.1 ha
    obtain ⟨⟨nb, cb⟩, hmb, heq⟩ := List.mem_map.1 hb
    have hva := (VariableInfo.mem_named.1 hma).2.1
    have hvb := (VariableInfo.mem_named.1 hmb).2.1
    simp only at heq
    rw [heq, hva] at hvb
    injection hvb with _ _ hvalue
    exact hab (by exact_mod_cast hvalue)
  · intro c hc d hd heq
    obtain ⟨e, -, rfl⟩ := List.mem_map.1 hc
    obtain ⟨e', -, hd⟩ := List.mem_flatMap.1 hd
    obtain ⟨⟨n, c⟩, hmem, rfl⟩ := List.mem_map.1 hd
    have hsingle := (VariableInfo.mem_named.1 hmem).2.1
    simp only [Function.comp_apply] at heq
    rw [← heq] at hsingle
    injection hsingle with hfunction
    cases hfunction

end Named

end Model

end MixedInteger
