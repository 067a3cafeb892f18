import MixedInteger.Proofs.Model.NamingRun
import MixedInteger.Proofs.Number.Order

/-! Lookups of names. A lookup leaves everything but its index as it was. After any history
of calls it fails exactly when two live identities share a name, and otherwise answers the
one that has the name now. -/

namespace MixedInteger

variable {α : Type} [Scalar α]

namespace Model

/-- Two live variables have this name, which is not the empty one. -/
def SharedVariableName (m : Model α) (name : String) : Prop :=
  name ≠ "" ∧ ∃ v w : VariableIndex, v ≠ w ∧
    m.variableName (.var v) = .ok name ∧ m.variableName (.var w) = .ok name

/-- Two live constraints have this name, which is not the empty one. -/
def SharedConstraintName (m : Model α) (name : String) : Prop :=
  name ≠ "" ∧ ∃ c d : ConstraintIndex, c ≠ d ∧
    m.constraintName (.constraint c) = .ok name ∧ m.constraintName (.constraint d) = .ok name

/-- A lookup of a variable fails on a name that is shared. When no name is, it answers the
live variable of the name. -/
structure FindsVariable (m : Model α) (name : String) : Prop where
  answer {found : Option (IndexArg α)} {m' : Model α} :
    Modelling.variableByName name m = .ok found m' → (∀ s, ¬m.SharedVariableName s) ∧
      (∀ i, found = some i ↔ ∃ v, i = .var v ∧ m.variableName (.var v) = .ok name) ∧
      ∃ names, m' = { m with variableNames := names }
  failure {f : Fault α} {m' : Model α} :
    Modelling.variableByName name m = .error f m' →
      (∃ s, f = .duplicate ⟨"variable", s⟩ ∧ m.SharedVariableName s) ∧
      ∃ names, m' = { m with variableNames := names }

/-- A lookup of a constraint fails on a name that is shared. When no name is, it answers
the live constraint of the name, unless this has other kinds than asked for. -/
structure FindsConstraint (m : Model α) (name : String) (kinds : Option (Kind × Kind)) :
    Prop where
  answer {found : Option ConstraintIndex} {m' : Model α} :
    Modelling.constraintByName name kinds m = .ok found m' →
      (∀ s, ¬m.SharedConstraintName s) ∧
      (∀ c, found = some c ↔ m.constraintName (.constraint c) = .ok name ∧
        ∀ k, kinds = some k → k = (c.function, c.set)) ∧
      (∀ c, found = some c → m.isValid (.constraint c) = true) ∧
      ∃ names, m' = { m with constraintNames := names }
  failure {f : Fault α} {m' : Model α} :
    Modelling.constraintByName name kinds m = .error f m' →
      (∃ s, f = .duplicate ⟨"constraint", s⟩ ∧ m.SharedConstraintName s) ∧
      ∃ names, m' = { m with constraintNames := names }

variable {m : Model α}

theorem shared_nameOfVariable {name : String} :
    NameIndex.Shared m.nameOfVariable name ↔ m.SharedVariableName name := by
  constructor
  · rintro ⟨hn, i, j, hij, hi, hj⟩
    cases i with
    | var v =>
      cases j with
      | var w =>
        refine ⟨hn, v, w, ?_, (nameOfVariable_eq hn v).1 hi, (nameOfVariable_eq hn w).1 hj⟩
        rintro rfl
        exact hij rfl
      | _ => exact absurd hj.symm hn
    | _ => exact absurd hi.symm hn
  · rintro ⟨hn, v, w, hvw, hv, hw⟩
    refine ⟨hn, .var v, .var w, ?_, (nameOfVariable_eq hn v).2 hv, (nameOfVariable_eq hn w).2 hw⟩
    intro heq
    cases heq
    exact hvw rfl

theorem shared_nameOfConstraint {name : String} :
    NameIndex.Shared m.nameOfConstraint name ↔ m.SharedConstraintName name := by
  constructor
  · rintro ⟨hn, c, d, hcd, hc, hd⟩
    exact ⟨hn, c, d, hcd, (nameOfConstraint_eq hn c).1 hc, (nameOfConstraint_eq hn d).1 hd⟩
  · rintro ⟨hn, c, d, hcd, hc, hd⟩
    exact ⟨hn, c, d, hcd, (nameOfConstraint_eq hn c).2 hc, (nameOfConstraint_eq hn d).2 hd⟩

/-- Only what is live has a name. -/
theorem isValid_of_nameOfConstraint {c : ConstraintIndex} (hn : m.nameOfConstraint c ≠ "") :
    m.isValid (.constraint c) = true := by
  obtain ⟨function, set, value⟩ := c
  cases function
  case singleVariable =>
    simp only [nameOfConstraint] at hn
    rw [isValid, carries_single m rfl]
    cases hv : m.vars.get? value with
    | none => simp [hv] at hn
    | some info =>
      by_contra hcarries
      have hcarries : info.carries set = false := by simpa using hcarries
      simp [hv, VariableInfo.slotName, hcarries] at hn
  case scalarAffine =>
    simp only [nameOfConstraint] at hn
    rw [isValid, carries]
    cases hf : (m.affine.get? value).filter fun info => info.set.kind = set with
    | none => simp [hf] at hn
    | some info =>
      obtain ⟨hget, hset⟩ := Option.filter_eq_some_iff.1 hf
      simpa [hget] using hset
  all_goals exact absurd rfl hn

namespace Named

variable (h : m.Named)
include h

/-! ### One lookup -/

theorem withVariableNames {names : NameIndex (IndexArg α)}
    (hnames : names.Coherent m.nameOfVariable) (hkind : names.kind = "variable") :
    ({ m with variableNames := names } : Model α).Named :=
  ⟨h.wf.congr rfl rfl rfl rfl, h.live, hnames, h.constraintNames, hkind, h.constraintKind⟩

theorem withConstraintNames {names : NameIndex ConstraintIndex}
    (hnames : names.Coherent m.nameOfConstraint) (hkind : names.kind = "constraint") :
    ({ m with constraintNames := names } : Model α).Named :=
  ⟨h.wf.congr rfl rfl rfl rfl, h.live, h.variableNames, hnames, h.variableKind, hkind⟩

omit h in
theorem variableByName_run (m : Model α) (name : String) :
    Modelling.variableByName name m =
      let looked := m.variableNames.lookup (Modelling.scanVariableNames m) name
      match looked.1 with
      | .ok i => .ok i { m with variableNames := looked.2 }
      | .error d => .error (.duplicate d) { m with variableNames := looked.2 } := by
  simp only [Modelling.variableByName, bind_run, get_run, set_run]
  cases (m.variableNames.lookup (Modelling.scanVariableNames m) name).1 <;> rfl

theorem constraintByName_run (name : String) (kinds : Option (Kind × Kind)) :
    Modelling.constraintByName name kinds m =
      let looked := m.constraintNames.lookup m.constraintScan name
      match looked.1 with
      | .ok c => .ok (c.filter fun c => kinds.all fun k => k = (c.function, c.set))
          { m with constraintNames := looked.2 }
      | .error d => .error (.duplicate d) { m with constraintNames := looked.2 } := by
  simp only [Modelling.constraintByName, bind_run, get_run, h.scanConstraintNames_eq,
    untilFault_map_ok, ite_self]
  cases (m.constraintNames.lookup m.constraintScan name).1 <;> rfl

theorem findsVariable {name : String} (hn : name ≠ "") : m.FindsVariable name := by
  obtain ⟨-, -, hfound⟩ := h.variableNames.lookup h.nodup_scanVariableNames
    (fun _ i hn => h.mem_scanVariableNames hn i) name
  have hrun := variableByName_run m name
  cases hl : (m.variableNames.lookup (Modelling.scanVariableNames m) name).1 with
  | ok found =>
    simp only [hl] at hfound hrun
    refine ⟨fun hx => ?_, fun hx => (nomatch hrun ▸ hx)⟩
    rw [hrun] at hx
    cases hx
    refine ⟨fun s hs => hfound.1 s (shared_nameOfVariable.2 hs), fun i => ?_, _, rfl⟩
    rw [hfound.2 hn]
    constructor
    · intro hi
      cases i with
      | var v => exact ⟨v, rfl, (nameOfVariable_eq hn v).1 hi⟩
      | _ => exact absurd hi.symm hn
    · rintro ⟨v, rfl, hv⟩
      exact (nameOfVariable_eq hn v).2 hv
  | error d =>
    obtain ⟨kind, s⟩ := d
    simp only [hl, h.variableKind] at hfound hrun
    obtain ⟨rfl, hs⟩ := hfound
    refine ⟨fun hx => (nomatch hrun ▸ hx), fun hx => ?_⟩
    rw [hrun] at hx
    cases hx
    exact ⟨⟨s, rfl, shared_nameOfVariable.1 hs⟩, _, rfl⟩

theorem findsConstraint {name : String} (hn : name ≠ "") (kinds : Option (Kind × Kind)) :
    m.FindsConstraint name kinds := by
  obtain ⟨-, -, hfound⟩ := h.constraintNames.lookup h.nodup_constraintScan
    (fun _ c hn => h.mem_constraintScan hn c) name
  have hrun := h.constraintByName_run name kinds
  cases hl : (m.constraintNames.lookup m.constraintScan name).1 with
  | ok found =>
    simp only [hl] at hfound hrun
    refine ⟨fun hx => ?_, fun hx => (nomatch hrun ▸ hx)⟩
    rw [hrun] at hx
    cases hx
    have hmem : ∀ c, (found.filter fun c => kinds.all fun k => k = (c.function, c.set)) = some c ↔
        m.nameOfConstraint c = name ∧ ∀ k, kinds = some k → k = (c.function, c.set) := by
      intro c
      rw [Option.filter_eq_some_iff, hfound.2 hn]
      cases kinds <;> simp
    refine ⟨fun s hs => hfound.1 s (shared_nameOfConstraint.2 hs), fun c => ?_, fun c hc => ?_, _,
      rfl⟩
    · rw [hmem, nameOfConstraint_eq hn]
    · exact isValid_of_nameOfConstraint (by rw [((hmem c).1 hc).1]; exact hn)
  | error d =>
    obtain ⟨kind, s⟩ := d
    simp only [hl, h.constraintKind] at hfound hrun
    obtain ⟨rfl, hs⟩ := hfound
    refine ⟨fun hx => (nomatch hrun ▸ hx), fun hx => ?_⟩
    rw [hrun] at hx
    cases hx
    exact ⟨⟨s, rfl, shared_nameOfConstraint.1 hs⟩, _, rfl⟩

theorem variableByName (name : String) : (after (Modelling.variableByName name) m).Named := by
  obtain ⟨hnames, hkind, -⟩ := h.variableNames.lookup h.nodup_scanVariableNames
    (fun _ i hn => h.mem_scanVariableNames hn i) name
  have hnamed := h.withVariableNames hnames (hkind.trans h.variableKind)
  rw [after, variableByName_run m name]
  dsimp only
  cases (m.variableNames.lookup (Modelling.scanVariableNames m) name).1 <;> exact hnamed

theorem constraintByName (name : String) (kinds : Option (Kind × Kind)) :
    (after (Modelling.constraintByName name kinds) m).Named := by
  obtain ⟨hnames, hkind, -⟩ := h.constraintNames.lookup h.nodup_constraintScan
    (fun _ c hn => h.mem_constraintScan hn c) name
  have hnamed := h.withConstraintNames hnames (hkind.trans h.constraintKind)
  rw [after, h.constraintByName_run name kinds]
  dsimp only
  cases (m.constraintNames.lookup m.constraintScan name).1 <;> exact hnamed

/-! ### Histories -/

theorem call [OrderedScalar α] (c : Call α) : (Call.after m c).Named := by
  cases c with
  | edit e => exact h.edit e
  | setVariableName v name => exact h.setVariableName v name
  | setConstraintName i name => exact h.setConstraintName i name
  | variableByName name => exact h.variableByName name
  | constraintByName name kinds => exact h.constraintByName name kinds

omit h in
theorem calls [OrderedScalar α] : ∀ (cs : List (Call α)) {m : Model α}, m.Named →
    (Call.afterAll m cs).Named
  | [], _, h => h
  | c :: cs, _, h => calls cs (h.call c)

omit h in
theorem emptied (m : Model α) : m.emptied.Named where
  wf := .emptied m
  live {v info} hg := by
    rw [show m.emptied.vars.get? v = none from Registry.get?_empty v] at hg
    cases hg
  variableNames _ hm := by cases hm
  constraintNames _ hm := by cases hm
  variableKind := rfl
  constraintKind := rfl

end Named

end Model

/-- Names are looked up rightly whatever calls went before: each lookup fails exactly when
two live identities share a name, and otherwise answers the one that has the name now. The
scan of the constraints never meets a name whose constraint is gone. -/
theorem afterAll_finds [OrderedScalar α] (m : Model α) (cs : List (Call α)) {name : String}
    (hn : name ≠ "") (kinds : Option (Kind × Kind)) :
    (Call.afterAll m.emptied cs).FindsVariable name ∧
      (Call.afterAll m.emptied cs).FindsConstraint name kinds ∧
      ∀ e, Except.error e ∉ Modelling.scanConstraintNames (Call.afterAll m.emptied cs) := by
  have h := Model.Named.calls cs (.emptied m)
  refine ⟨h.findsVariable hn, h.findsConstraint hn kinds, fun e he => ?_⟩
  rw [h.scanConstraintNames_eq, List.mem_map] at he
  obtain ⟨b, -, hb⟩ := he
  cases hb

/-- Two variables are given one name, a bound of one is named and closed by another bound,
and lookups stand between. -/
def renamingHistory : List (Call Float) :=
  [.edit (.addVariables 2),
    .setVariableName ⟨1⟩ "x",
    .variableByName "x",
    .setVariableName ⟨2⟩ "x",
    .edit (.addConstraint (.var ⟨1⟩) (.set (.greaterThan 0))),
    .setConstraintName (.constraint ⟨.singleVariable, .greaterThan, 1⟩) "floor",
    .constraintByName "floor" none,
    .edit (.addConstraint (.var ⟨1⟩) (.set (.lessThan 4))),
    .edit (.delete (.constraint ⟨.singleVariable, .greaterThan, 1⟩))]

theorem afterAll_finds_renaming : "x" ≠ "" ∧
    (Call.afterAll (Model.emptied {}) renamingHistory).FindsVariable "x" := by
  have hn : "x" ≠ "" := by decide
  exact ⟨hn, (afterAll_finds {} renamingHistory hn none).1⟩

end MixedInteger
