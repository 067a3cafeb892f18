import MixedInteger.Proofs.Model.Copied
import MixedInteger.Proofs.Model.NameLookup
import MixedInteger.Proofs.Model.NormalForm
import MixedInteger.Proofs.Model.Satisfaction

/-! Models that are built up from nothing. A draft lists what was declared so far: variables with
names and sets, rows, and an objective. Every declaration goes through when it has room in the
draft, and the model then says what the longer draft says. What a point has to satisfy, what the
objective is worth there and who has a name can be read off the draft. -/

namespace MixedInteger

open Extended

/-- A variable as it was declared: its name, its sets and the sides of its column. -/
structure DraftVariable where
  name : String := ""
  record : VariableRecord Extended := {}
  lower : Extended := bottom
  upper : Extended := top

structure Draft where
  vars : List DraftVariable := []
  rows : List (AffineFunction Extended × ScalarSet Extended) := []
  objective : AffineFunction Extended := ⟨[], 0⟩

/-- The function is rational and names none but the first `n` variables. -/
structure AffineFunction.Spans (f : AffineFunction Extended) (n : ℕ) : Prop where
  rational : f.Rational
  within : ∀ t ∈ f.terms, 0 < t.var.value ∧ t.var.value ≤ n

namespace DraftVariable

/-- One more set; a type leaves the sides alone. -/
def constrained (x : DraftVariable) (s : ScalarSet Extended) : DraftVariable :=
  match s.type? with
  | some t => { x with record := { x.record with type := t } }
  | none => { x with
      record := x.record.write s
      lower := (storedBounds (s.lower?.getD x.lower) (s.upper?.getD x.upper)).2.1
      upper := (storedBounds (s.lower?.getD x.lower) (s.upper?.getD x.upper)).2.2 }

/-- There is room for the set, and it has no number that is none. -/
structure Takes (x : DraftVariable) (s : ScalarSet Extended) : Prop where
  numbers : ∀ y ∈ s.values, Scalar.isNaN y = false
  type : s.type?.isSome = true → x.record.type = .continuous
  below : s.boundsBelow = true → x.record.below = none
  above : s.boundsAbove = true → x.record.above = none

theorem Takes.conflict?_eq_none {x : DraftVariable} {s : ScalarSet Extended} (h : x.Takes s)
    (v : VariableIndex) : x.record.conflict? v s = none := by
  rw [VariableRecord.conflict?]
  cases hb : s.boundsBelow <;> cases ha : s.boundsAbove <;> simp [h.below, h.above, hb, ha]

theorem name_constrained (x : DraftVariable) (s : ScalarSet Extended) :
    (x.constrained s).name = x.name := by
  cases s <;> rfl

end DraftVariable

namespace Draft

/-- What the draft says, by identity. -/
def ledger (d : Draft) : Ledger Extended where
  lastVariable := d.vars.length
  vars v := (nth? d.vars v.value).map (·.record)
  lastAffine := d.rows.length
  affine k := (nth? d.rows k).map fun e => ⟨e.2, e.1.term?⟩
  cost := d.objective.term?
  constant := d.objective.constant

/-- The identity of the last variable. -/
def last (d : Draft) : VariableIndex := ⟨d.vars.length⟩

def declare (d : Draft) (x : DraftVariable) : Draft := { d with vars := d.vars ++ [x] }

def addRow (d : Draft) (f : AffineFunction Extended) (s : ScalarSet Extended) : Draft :=
  { d with rows := d.rows ++ [(f, s)] }

variable {d : Draft} {x : DraftVariable}

theorem last_declare : (d.declare x).last = ⟨(d.vars.length + 1 : ℕ)⟩ := by
  simp [last, declare]

variable (d) in
theorem last_congr (x y : DraftVariable) : (d.declare x).last = (d.declare y).last := by
  rw [last_declare, last_declare]

theorem nth?_declare (v : VariableIndex) : nth? (d.declare x).vars v.value =
    if v = (d.declare x).last then some x else nth? d.vars v.value := by
  obtain ⟨k⟩ := v
  rw [last_declare, declare, nth?_concat]
  simp only [VariableIndex.mk.injEq]

theorem nth?_last : nth? (d.declare x).vars (d.declare x).last.value = some x := by
  rw [nth?_declare, if_pos rfl]

variable (d x) in
/-- Another record for the last variable. -/
theorem setVariable_declare (y : DraftVariable) :
    (d.declare x).ledger.setVariable (d.declare x).last y.record = (d.declare y).ledger := by
  have hlength : (d.declare x).vars.length = (d.declare y).vars.length := by simp [declare]
  have hlast := d.last_congr y x
  refine Ledger.ext hlength (funext fun v => ?_) rfl rfl rfl rfl rfl
  simp only [Ledger.setVariable, ledger, nth?_declare, hlast]
  by_cases hv : v = (d.declare x).last
  · simp [hv]
  · simp [hv, Function.update_of_ne]

theorem isSome_vars {n : ℕ} (hn : n = d.vars.length) {v : VariableIndex}
    (hv : 0 < v.value ∧ v.value ≤ n) : (d.ledger.vars v).isSome = true := by
  simp only [ledger, Option.isSome_map, nth?, if_pos hv.1]
  rw [List.getElem?_eq_getElem (by omega)]
  rfl

end Draft

/-! ### Models that say what a draft says -/

namespace Model

/-- The model with another name for its problem. -/
def called (m : Model Extended) (name : String) : Model Extended :=
  { m with problem := { m.problem with name := name } }

def sides? (m : Model Extended) (v : VariableIndex) : Option (Extended × Extended) :=
  (m.column? v).map fun c => (c.lower, c.upper)

structure Follows (m : Model Extended) (d : Draft) : Prop where
  named : m.Named
  represents : Represents m d.ledger
  sides : ∀ v, m.sides? v = (nth? d.vars v.value).map fun x => (x.lower, x.upper)
  names : ∀ v, m.nameOfVariable (.var v) = ((nth? d.vars v.value).map (·.name)).getD ""
  rows : ∀ e ∈ d.rows, e.1.Spans d.vars.length ∧ e.1.constant = 0
  objective : d.objective.Spans d.vars.length

variable {m m' : Model Extended}

theorem sides?_congr (hv : m'.vars = m.vars) (hc : m'.problem.columns = m.problem.columns)
    (v : VariableIndex) : m'.sides? v = m.sides? v := by
  rw [sides?, sides?, column?_congr (fun v => by rw [hv]) hc]

section At
variable (hm : m.WellFormed) {i k : ℕ} {info : VariableInfo} {c : Column Extended}
include hm

theorem VariableAt.sides? (hat : m.VariableAt i k info c) :
    m.sides? ⟨k⟩ = some (c.lower, c.upper) := by
  rw [Model.sides?, hat.column? hm, Option.map_some]

/-- A change of one variable and its column is one of its sides only. -/
theorem VariableAt.sides?_modify (hat : m.VariableAt i k info c)
    {f : VariableInfo → VariableInfo} {g : Column Extended → Column Extended}
    (hv : m'.vars = m.vars.modify k f) (hnumber : ∀ info, (f info).column = info.column)
    (hc : m'.problem.columns = m.problem.columns.modify i g) (v : VariableIndex) :
    m'.sides? v = if v = ⟨k⟩ then some ((g c).lower, (g c).upper) else m.sides? v := by
  rw [Model.sides?, hat.column?_modify hm (fun v => ?_) hc]
  · split_ifs <;> rfl
  · rw [hv, hm.vars.get?_modify]
    split_ifs
    · rw [Option.map_map]
      exact congrArg (Option.map · _) (funext hnumber)
    · rfl

end At

/-- What a set of a single variable does to the sides of its column. -/
theorem WellFormed.sides?_addConstraint (hm : m.WellFormed) {v : VariableIndex}
    {s : ScalarSet Extended} {c : ConstraintIndex}
    (hrun : Modelling.addConstraint (.var v) (.set s) m = .ok c m') (w : VariableIndex) :
    m'.sides? w = if w = v ∧ s.type? = none then
      (m.sides? w).map fun p => (storedBounds (s.lower?.getD p.1) (s.upper?.getD p.2)).2
      else m.sides? w := by
  rw [Modelling.addConstraint_var] at hrun
  obtain ⟨e, hinfo⟩ | ⟨i, k, info, col, hinfo, hat, hv⟩ := hm.info_cases (.var v)
  · cases ht : s.type? <;>
      simp [ht, Modelling.addTypeConstraint, Modelling.addBoundConstraint, hinfo] at hrun
  cases hv v rfl
  revert hrun
  cases ht : s.type? with
  | some t =>
    intro (hrun : Modelling.addTypeConstraint ⟨k⟩ t s.kind m = .ok c m')
    by_cases hfree : info.type = .continuous
    · rw [Modelling.addTypeConstraint_run hm hat hfree] at hrun
      cases hrun
      rw [hat.sides?_modify hm (f := fun info => { info with type := t })
        (g := fun c => { c with kind := .integer }) rfl (fun _ => rfl) rfl]
      simp only [reduceCtorEq, and_false, if_false]
      split_ifs with hw
      · rw [hw, hat.sides? hm]
      · rfl
    · rw [Modelling.addTypeConstraint_error hinfo hfree] at hrun
      cases hrun
  | none =>
    intro (hrun : Modelling.addBoundConstraint ⟨k⟩ s m = .ok c m')
    cases hb : info.addBound s.kind with
    | error e =>
      rw [Modelling.addBoundConstraint_error hinfo hb] at hrun
      cases hrun
    | ok b =>
      rw [Modelling.addBoundConstraint_run hm hat hb,
        Modelling.setVariableBound_run (m := m.withVariable k _) hat.column] at hrun
      split_ifs at hrun
      cases hrun
      rw [hat.sides?_modify hm (f := fun info => { info with bound := b })
        (g := (·.rebound s.change)) rfl (fun _ => rfl) rfl]
      simp only [and_true]
      split_ifs with hw
      · rw [hw, hat.sides? hm, s.change_eq]
        rfl
      · rfl

end Model

/-! ### Declarations -/

namespace Model.Follows

open Modelling

variable {m : Model Extended} {d : Draft}

/-- A model that was emptied and given a name. -/
theorem start (m : Model Extended) (name : String) : (m.emptied.called name).Follows {} := by
  have hempty : ({} : Draft).ledger = {} := by
    refine Ledger.ext rfl (funext fun v => ?_) rfl (funext fun k => ?_) (funext fun v => ?_) rfl rfl
    · simp [Draft.ledger, nth?]
    · simp [Draft.ledger, nth?]
    · simp [Draft.ledger, AffineFunction.term?, AffineFunction.coefficient, Scalar.sum, nonzero?]
  have hnone : ∀ v, (m.emptied.called name).vars.get? v = none := fun v => Registry.get?_empty v
  refine ⟨?_, ?_, fun v => ?_, fun v => ?_, by simp, ⟨⟨?_, by simp⟩, by simp⟩⟩
  · have hwf : (m.emptied.called name).WellFormed := (WellFormed.emptied m).congr rfl rfl rfl rfl
    exact ((Named.emptied m).inside hwf rfl (fun _ => rfl) rfl rfl).named
  · rw [hempty]
    exact (Represents.emptied m).congr rfl rfl rfl rfl rfl rfl rfl rfl
  · simp [sides?, column?, hnone, nth?]
  · simp [nameOfVariable, hnone, nth?]
  · exact isRat_rat 0

section
variable (h : m.Follows d)
include h

theorem vars_last : m.vars.last = d.vars.length := h.represents.lastVariable.symm

/-- A variable without a name and without sets. -/
theorem addVariable : ∃ m', Modelling.addVariable m = .ok (d.declare {}).last m' ∧
    m'.Follows (d.declare {}) := by
  have hrepresents := h.represents.grown 1
  have hkeeps := h.named.grown 1
  have hlast : ∀ v : VariableIndex, (d.vars.length : ℤ) < v.value ∧
      v.value ≤ d.vars.length + (1 : ℕ) ↔ v = (d.declare {}).last := by
    rintro ⟨k⟩
    simp only [Draft.last_declare, VariableIndex.mk.injEq]
    omega
  have hledger : d.ledger.addVariables 1 = (d.declare {}).ledger := by
    refine Ledger.ext (by simp [Ledger.addVariables, Draft.ledger, Draft.declare])
      (funext fun v => ?_) rfl rfl rfl rfl rfl
    simp only [Ledger.addVariables, Draft.ledger, hlast, Draft.nth?_declare]
    split_ifs <;> rfl
  have hlength : (d.declare {}).vars.length = d.vars.length + 1 := by simp [Draft.declare]
  have hspans : ∀ f : AffineFunction Extended, f.Spans d.vars.length →
      f.Spans (d.declare {}).vars.length := by
    intro f hf
    refine ⟨hf.rational, fun t ht => ?_⟩
    have := hf.within t ht
    omega
  refine ⟨m.grown 1, ?_, hkeeps.named, hledger ▸ hrepresents, fun v => ?_, fun v => ?_,
    fun e he => ⟨hspans _ (h.rows e he).1, (h.rows e he).2⟩, hspans _ h.objective⟩
  · rw [addVariable_run h.named.wf, h.vars_last, Draft.last_declare]
  · rw [sides?, h.named.wf.column?_grown, h.vars_last, Draft.nth?_declare]
    simp only [hlast]
    split_ifs
    · rfl
    · exact h.sides v
  · rw [hkeeps.ofVariable, h.names, Draft.nth?_declare]
    split_ifs with hv
    · have hbeyond : nth? d.vars (d.vars.length + 1 : ℕ) = none := by
        rw [nth?, if_pos (by omega), List.getElem?_eq_none (by omega)]
      rw [hv, Draft.last_declare, hbeyond]
      rfl
    · rfl

end

section
variable {x : DraftVariable} (h : m.Follows (d.declare x))
include h

/-- The last variable is where the draft has it. -/
theorem variableAt_last : ∃ (i : ℕ) (info : VariableInfo) (c : Column Extended),
    m.VariableAt i (d.vars.length + 1) info c := by
  obtain ⟨hdead, -⟩ | ⟨i, k, r, info, c, hk, -, -, hat, -⟩ :=
    h.represents.live_cases (d.declare x).last
  · simp [Draft.ledger, Draft.nth?_last] at hdead
  · rw [Draft.last_declare, VariableIndex.mk.injEq, Nat.cast_inj] at hk
    exact ⟨i, info, c, hk ▸ hat⟩

theorem setVariableName (name : String) :
    ∃ m', Modelling.setVariableName (.var (d.declare x).last) name m = .ok () m' ∧
      m'.Follows (d.declare { x with name := name }) := by
  obtain ⟨i, info, c, hat⟩ := h.variableAt_last
  have hlast := d.last_congr { x with name := name } x
  have hlength : (d.declare { x with name := name }).vars.length = (d.declare x).vars.length := by
    simp [Draft.declare]
  have hledger : (d.declare { x with name := name }).ledger = (d.declare x).ledger :=
    (d.setVariable_declare x { x with name := name }).symm.trans (d.setVariable_declare x x)
  refine ⟨m.withVariableName i (d.vars.length + 1) info name, ?_,
    h.named.withVariableName hat name, hledger ▸ h.represents.withVariableName hat name,
    fun v => ?_, fun v => ?_, hlength ▸ h.rows, hlength ▸ h.objective⟩
  · rw [Draft.last_declare]
    exact setVariableName_run h.named.wf hat name
  · have hsides : (m.withVariableName i (d.vars.length + 1) info name).sides? v = m.sides? v := by
      rw [hat.sides?_modify h.named.wf (f := fun info => { info with name := name })
        (g := fun c => if name = "" then c else { c with name := name }) rfl (fun _ => rfl) rfl]
      split_ifs with hv
      · rw [hv, hat.sides? h.named.wf]
      · rw [hv, hat.sides? h.named.wf]
      · rfl
    rw [hsides, h.sides, Draft.nth?_declare, Draft.nth?_declare, hlast]
    split_ifs <;> rfl
  · rw [hat.nameOfVariable h.named.wf, h.names, Draft.nth?_declare, Draft.nth?_declare, hlast,
      Draft.last_declare]
    split_ifs <;> rfl

/-- One more set for the last variable. -/
theorem constrain {s : ScalarSet Extended} (hs : x.Takes s) :
    ∃ c m', Modelling.addConstraint (.var (d.declare x).last) (.set s) m = .ok c m' ∧
      m'.Follows (d.declare (x.constrained s)) := by
  have hlast := d.last_congr (x.constrained s) x
  have hlength : (d.declare (x.constrained s)).vars.length = (d.declare x).vars.length := by
    simp [Draft.declare]
  have hagrees := h.represents.addSingle (d.declare x).last hs.numbers
  have hnames := h.named.addConstraint (.var (d.declare x).last) (.set s)
  have howner : (d.declare x).ledger.owner (.var (d.declare x).last) =
      .ok ((d.declare x).last, x.record) := by
    simp [Ledger.owner, Draft.ledger, Draft.nth?_last]
  -- the ledger takes the set
  have hadd : (d.declare x).ledger.addSingle (d.declare x).last s = .ok
      (⟨.singleVariable, s.kind, (d.declare x).last.value⟩,
        (d.declare (x.constrained s)).ledger) := by
    have hledger := d.setVariable_declare x (x.constrained s)
    rw [Ledger.addSingle, howner, bind_ok, ← hledger]
    cases ht : s.type? with
    | some t =>
      have hfree := hs.type (by rw [ht]; rfl)
      simp only [ne_eq, hfree, not_true_eq_false, if_false, DraftVariable.constrained, ht]
      rfl
    | none =>
      simp only [hs.conflict?_eq_none, DraftVariable.constrained, ht]
      rfl
  rw [hadd] at hagrees
  cases hrun : Modelling.addConstraint (.var (d.declare x).last) (.set s) m with
  | error e m' =>
    rw [hrun] at hagrees
    cases hagrees
  | ok c m' =>
    rw [hrun] at hagrees
    rw [after_ok hrun] at hnames
    cases hagrees with
    | ok hrepresents =>
      refine ⟨_, m', rfl, hnames.named, hrepresents, fun v => ?_, fun v => ?_, hlength ▸ h.rows,
        hlength ▸ h.objective⟩
      · rw [h.named.wf.sides?_addConstraint hrun, h.sides, Draft.nth?_declare, Draft.nth?_declare,
          hlast]
        by_cases hv : v = (d.declare x).last
        · cases ht : s.type? <;> simp [hv, DraftVariable.constrained, ht]
        · simp [hv]
      · rw [hnames.ofVariable, h.names, Draft.nth?_declare, Draft.nth?_declare, hlast]
        split_ifs
        · simp [x.name_constrained]
        · rfl

end

section
variable (h : m.Follows d)
include h

theorem firstDead_eq_none {ts : List (Term Extended)}
    (hts : ∀ t ∈ ts, 0 < t.var.value ∧ t.var.value ≤ d.vars.length) : m.firstDead ts = none := by
  simp only [firstDead, Option.map_eq_none_iff, List.find?_eq_none]
  intro t ht
  have hlive := Draft.isSome_vars (d := d) rfl (hts t ht)
  rw [h.represents.isSome_vars] at hlive
  simp [Option.isSome_iff_ne_none.1 hlive]

/-- One more row. -/
theorem addAffine {f : AffineFunction Extended} (hf : f.Spans d.vars.length)
    (hzero : f.constant = 0) {s : ScalarSet Extended} (hs : s.isRow = true) :
    ∃ m', Modelling.addConstraint (.affine f) (.set s) m =
        .ok ⟨.scalarAffine, s.kind, (d.rows.length + 1 : ℕ)⟩ m' ∧ m'.Follows (d.addRow f s) := by
  obtain ⟨b, hb⟩ : ∃ b, s.rowBound? = some b := by
    cases s <;> first | exact ⟨_, rfl⟩ | cases hs
  have hconstant : (f.constant == 0) = true := by rw [hzero]; exact OrderedScalar.zero_beq
  have hdead : m.firstDead f.canonical.terms = none := by
    refine h.firstDead_eq_none fun t ht => ?_
    obtain ⟨u, hu, hvar⟩ := List.mem_map.1 (AffineFunction.mem_vars_canonical ht)
    exact hvar ▸ hf.within u hu
  have hsame : Modelling.addConstraint (.affine f) (.set s) m = addAffineConstraint f s m := by
    simp only [Modelling.addConstraint, hs, if_true]
  have hrun := hsame.trans (addAffineConstraint_run h.named.wf hconstant hdead hb)
  have hnames := h.named.addConstraint (.affine f) (.set s)
  rw [after_ok hrun] at hnames
  have hledger : { d.ledger.setAffine (d.ledger.lastAffine + 1 : ℕ) ⟨s, f.term?⟩ with
      lastAffine := d.ledger.lastAffine + 1 } = (d.addRow f s).ledger := by
    refine Ledger.ext rfl rfl (by simp [Draft.ledger, Draft.addRow]) (funext fun k => ?_) rfl rfl rfl
    simp only [Ledger.setAffine, Draft.ledger, Draft.addRow, nth?_concat]
    by_cases hk : k = (d.rows.length + 1 : ℕ)
    · simp [hk]
    · rw [Function.update_of_ne hk, if_neg hk]
  refine ⟨_, ?_, hnames.named, hledger ▸ h.represents.withRow hb hdead,
    fun v => (sides?_congr rfl rfl v).trans (h.sides v), fun v => ?_, fun e he => ?_, h.objective⟩
  · rw [hrun, ← h.represents.lastAffine]
    rfl
  · rw [hnames.ofVariable, h.names]
    rfl
  · rcases List.mem_append.1 he with he | he
    · exact h.rows e he
    · rw [List.mem_singleton.1 he]
      exact ⟨hf, hzero⟩

/-- A name for a row. -/
theorem setConstraintName {k : ℤ} {e : AffineFunction Extended × ScalarSet Extended}
    (he : nth? d.rows k = some e) (name : String) :
    ∃ m', Modelling.setConstraintName (.constraint ⟨.scalarAffine, e.2.kind, k⟩) name m = .ok () m' ∧
      m'.Follows d := by
  obtain ⟨hdead, -⟩ | ⟨m', hrun, hrenamed⟩ :=
    setConstraintName_cases h.named.wf ⟨.scalarAffine, e.2.kind, k⟩ name
  · rw [h.represents.isValid] at hdead
    simp [Ledger.isValid, Draft.ledger, he] at hdead
  · refine ⟨m', hrun, h.named.renamed hrenamed, h.represents.renamed hrenamed, fun v => ?_,
      fun v => ?_, h.rows, h.objective⟩
    · generalize hc : (⟨.scalarAffine, e.2.kind, k⟩ : ConstraintIndex) = c at hrenamed
      cases hrenamed with
      | slot => cases hc
      | row => exact (sides?_congr rfl rfl v).trans (h.sides v)
    · rw [hrenamed.nameOfVariable h.named.wf, h.names]

theorem setObjective {f : AffineFunction Extended} (hf : f.Spans d.vars.length) :
    ∃ m', Modelling.setObjective (.affine f) m = .ok () m' ∧
      m'.Follows { d with objective := f } := by
  have hdead := h.firstDead_eq_none hf.within
  have hrun := setAffineObjective_run h.named.wf hdead .scalarAffine
  have hkeeps := h.named.inside (h.named.wf.withObjective f .scalarAffine) rfl (fun _ => rfl) rfl rfl
  refine ⟨_, hrun, hkeeps.named, h.represents.withCosts hdead .scalarAffine, fun v => ?_,
    fun v => ?_, h.rows, hf⟩
  · rw [sides?, h.named.wf.column?_withObjective, ← h.sides v, sides?, Option.map_map]
    rfl
  · rw [hkeeps.ofVariable, h.names]

theorem setObjectiveSense (sense : ObjectiveSense) : (m.withSense sense).Follows d where
  named := by
    have hwf : (m.withSense sense).WellFormed := h.named.wf.congr rfl rfl rfl rfl
    exact (h.named.inside hwf rfl (fun _ => rfl) rfl rfl).named
  represents := h.represents.congr rfl rfl rfl rfl rfl rfl rfl rfl
  sides v := (sides?_congr rfl rfl v).trans (h.sides v)
  names := h.names
  rows := h.rows
  objective := h.objective

end

end Model.Follows

/-! ### What can be read off a draft -/

/-- The values that the sets of a variable let through. -/
def DraftVariable.Admits (x : DraftVariable) (q : ℚ) : Prop :=
  ∀ k, x.record.carries k = true →
    (({ lower := x.lower, upper := x.upper } : Column Extended).set k).Contains q

/-- The constraint holds at the assignment. -/
def Model.HoldsAt (m : Model Extended) (c : ConstraintIndex) (z : Assignment) : Prop :=
  ∃ f s, m.constraintFunction (.constraint c) = .ok f ∧ m.constraintSet (.constraint c) = .ok s ∧
    s.Contains (f.valueAt z)

theorem Column.set_congr {c c' : Column Extended} (hl : c.lower = c'.lower)
    (hu : c.upper = c'.upper) (k : Kind) : c.set k = c'.set k := by
  cases k <;> simp only [Column.set, hl, hu]

namespace Model.Follows

variable {m : Model Extended} {d : Draft} (h : m.Follows d)
include h

/-- What is kept of a function over the variables has its value, up to the constant. -/
theorem valueAt_list {f : AffineFunction Extended} (hf : f.Spans d.vars.length) (k : Extended)
    (z : Assignment) : (⟨d.ledger.list f.term?, k⟩ : AffineFunction Extended).valueAt z =
      k.value + (f.terms.map fun t => t.coefficient.value * z t.var).sum := by
  have hlive : ∀ t ∈ f.terms, (d.ledger.vars t.var).isSome = true := fun t ht =>
    Draft.isSome_vars rfl (hf.within t ht)
  have hvalue := h.named.wf.valueAt_eq (f := f) (fun t ht => by
    rw [← h.represents.isSome_vars]
    exact hlive t ht) hf.rational.coefficient z
  have hterm : ∀ v x, f.term? v = some x → (∃ t ∈ f.terms, t.var = v) ∧ x = f.coefficient v := by
    intro v x hx
    rw [← f.termIn_canonical, termIn_eq_some f.nodup_vars_canonical] at hx
    exact f.of_mem_canonical hx
  rw [h.represents.valueAt_list (c := f.term?) (fun v x hx => (nonzero?_eq_some.1 hx).2)
    (fun v x hx => ?_) fun v x hx => ?_]
  · rw [AffineFunction.valueAt, add_right_inj] at hvalue
    rw [hvalue]
  · obtain ⟨⟨t, ht, rfl⟩, -⟩ := hterm v x hx
    exact h.represents.mem_variableIndices.2 (hlive t ht)
  · rw [(hterm v x hx).2]
    exact AffineFunction.isRat_coefficient hf.rational.coefficient v

theorem isValid_row {c : ConstraintIndex} (hc : c.function = .scalarAffine) :
    m.isValid (.constraint c) = true ↔ ∃ e, nth? d.rows c.value = some e ∧ e.2.kind = c.set := by
  rw [h.represents.isValid, Ledger.isValid_affine hc]
  simp [Draft.ledger]

/-- A row holds where its set contains the value of its function. -/
theorem holds_row {k : ℤ} {e : AffineFunction Extended × ScalarSet Extended}
    (he : nth? d.rows k = some e) (z : Assignment) :
    m.HoldsAt ⟨.scalarAffine, e.2.kind, k⟩ z ↔ e.2.Contains (e.1.valueAt z) := by
  obtain ⟨i, -, hi⟩ := nth?_eq_some.1 he
  have hrow := h.rows e (List.mem_of_getElem? hi)
  have hvalue : (⟨d.ledger.list e.1.term?, 0⟩ : AffineFunction Extended).valueAt z =
      e.1.valueAt z := by
    rw [h.valueAt_list hrow.1, AffineFunction.valueAt, hrow.2]
  have hlive := (h.isValid_row (c := ⟨.scalarAffine, e.2.kind, k⟩) rfl).2 ⟨e, he, rfl⟩
  obtain ⟨r, hr, -, hfunction, hset⟩ :=
    h.represents.affine_of_isValid rfl (by rw [← h.represents.isValid]; exact hlive)
  obtain ⟨e', he', rfl⟩ := Option.map_eq_some_iff.1 hr
  cases he.symm.trans he'
  constructor
  · rintro ⟨f, s, hf, hs, hin⟩
    cases hf.symm.trans hfunction
    cases hs.symm.trans hset
    rwa [Function.valueAt, hvalue] at hin
  · exact fun hin => ⟨_, _, hfunction, hset, by rwa [Function.valueAt, hvalue]⟩

theorem satisfied_iff (z : Assignment) : m.Satisfied z ↔
    (∀ v x, nth? d.vars v.value = some x → x.Admits (z v)) ∧
      ∀ e ∈ d.rows, e.2.Contains (e.1.valueAt z) := by
  have hset : ∀ {v : VariableIndex} {x : DraftVariable} {c : Column Extended} (k : Kind),
      nth? d.vars v.value = some x → m.column? v = some c →
        c.set k = ({ lower := x.lower, upper := x.upper } : Column Extended).set k := by
    intro v x c k hx hc
    have hsides := h.sides v
    rw [sides?, hc, hx, Option.map_some, Option.map_some, Option.some.injEq, Prod.mk.injEq] at hsides
    exact Column.set_congr hsides.1 hsides.2 k
  constructor
  · refine fun hz => ⟨fun v x hx k hk => ?_, fun e he => ?_⟩
    · have hlive : d.ledger.isValid (.constraint ⟨.singleVariable, k, v.value⟩) = true :=
        (Ledger.isValid_single rfl).2 ⟨x.record, by simp [Draft.ledger, hx], hk⟩
      obtain ⟨-, c, -, hc, -, hfunction, hset'⟩ := h.represents.single_of_isValid hlive
      obtain ⟨f, s, hf, hs, hin⟩ := hz _ (by rw [h.represents.isValid]; exact hlive)
      cases hf.symm.trans hfunction
      cases hs.symm.trans hset'
      rw [hset k hx hc] at hin
      exact hin
    · obtain ⟨i, hi⟩ := List.mem_iff_getElem?.1 he
      have hnth := nth?_eq_some.2 ⟨i, rfl, hi⟩
      exact (h.holds_row hnth z).1 (hz _ ((h.isValid_row rfl).2 ⟨e, hnth, rfl⟩))
  · rintro ⟨hvars, hrows⟩ ⟨function, kind, value⟩ hlive
    cases function
    case singleVariable =>
      rw [h.represents.isValid] at hlive
      obtain ⟨r, c, hr, hc, hcarries, hfunction, hset'⟩ := h.represents.single_of_isValid hlive
      obtain ⟨x, hx, rfl⟩ := Option.map_eq_some_iff.1 hr
      refine ⟨_, _, hfunction, hset', ?_⟩
      rw [hset kind hx hc]
      exact hvars _ x hx kind hcarries
    case scalarAffine =>
      obtain ⟨e, he, rfl⟩ := (h.isValid_row rfl).1 hlive
      obtain ⟨i, -, hi⟩ := nth?_eq_some.1 he
      exact (h.holds_row he z).2 (hrows e (List.mem_of_getElem? hi))
    all_goals
      rw [h.represents.isValid] at hlive
      cases hlive

theorem valueAt_objective (z : Assignment) : m.objective.valueAt z = d.objective.valueAt z := by
  have hobjective : m.objective = .affine ⟨d.ledger.list d.objective.term?, d.objective.constant⟩ :=
    h.represents.objective
  rw [hobjective, Function.valueAt, h.valueAt_list h.objective, AffineFunction.valueAt]

theorem variableIndices :
    m.variableIndices = (List.range d.vars.length).map fun (i : ℕ) => ⟨((i + 1 : ℕ) : ℤ)⟩ := by
  have hlive : ((List.range d.vars.length).map (· + 1)).filter
      (fun (k : ℕ) => (d.ledger.vars ⟨k⟩).isSome) = (List.range d.vars.length).map (· + 1) := by
    refine List.filter_eq_self.2 fun k hk => ?_
    obtain ⟨i, hi, rfl⟩ := List.mem_map.1 hk
    have hlt := List.mem_range.1 hi
    exact Draft.isSome_vars (v := ⟨(i + 1 : ℕ)⟩) rfl ⟨by dsimp only; omega, by dsimp only; omega⟩
  rw [h.represents.variableIndices, Ledger.variableIndices, Ledger.identities]
  exact (congrArg _ hlive).trans (List.map_map ..)

/-- A lookup answers the variable of a name that no other variable has, and that is not empty. -/
theorem variableByName (hnames : (d.vars.map (·.name)).Nodup) {v : VariableIndex}
    {x : DraftVariable} (hx : nth? d.vars v.value = some x) (hne : x.name ≠ "") :
    ∃ m', Modelling.variableByName x.name m = .ok (some (.var v)) m' := by
  have hname : ∀ w s, s ≠ "" → (m.variableName (.var w) = .ok s ↔
      ∃ y, nth? d.vars w.value = some y ∧ y.name = s) := by
    intro w s hs
    rw [← nameOfVariable_eq hs, h.names]
    cases nth? d.vars w.value <;> simp [hs.symm]
  have hfinds := h.named.findsVariable hne
  cases hrun : Modelling.variableByName x.name m with
  | ok found m' =>
    obtain ⟨-, hfound, -⟩ := hfinds.answer hrun
    rw [(hfound (.var v)).2 ⟨v, rfl, (hname v _ hne).2 ⟨x, hx, rfl⟩⟩]
    exact ⟨m', rfl⟩
  | error e m' =>
    obtain ⟨⟨s, -, hs, v₁, v₂, hdistinct, h₁, h₂⟩, -⟩ := hfinds.failure hrun
    obtain ⟨y₁, hy₁, hn₁⟩ := (hname v₁ s hs).1 h₁
    obtain ⟨y₂, hy₂, hn₂⟩ := (hname v₂ s hs).1 h₂
    obtain ⟨i₁, hi₁, hget₁⟩ := nth?_eq_some.1 hy₁
    obtain ⟨i₂, hi₂, hget₂⟩ := nth?_eq_some.1 hy₂
    have hsame : i₁ = i₂ := by
      have hlt : i₁ < (d.vars.map (·.name)).length := by
        simpa using (List.getElem?_eq_some_iff.1 hget₁).1
      exact (List.getElem?_inj hlt hnames).1 (by simp [hget₁, hget₂, hn₁, hn₂])
    exact absurd (congrArg VariableIndex.mk (hi₁.trans (hsame ▸ hi₂.symm))) hdistinct

end Model.Follows

end MixedInteger
