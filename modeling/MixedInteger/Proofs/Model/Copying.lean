import MixedInteger.Proofs.Model.Listing
import MixedInteger.Proofs.Model.Renumbering
import MixedInteger.Proofs.Model.Sound
import MixedInteger.Proofs.Number.Extended

/-! One entry of a copy after another. What was copied so far decides the whole of what the copy
says; each variable and each constraint of the source finds room in it. A function that is read
off a model names live variables only, each once and none with coefficient zero; so renaming its
variables is all that a copy does to it. -/

namespace MixedInteger

section

variable {α : Type} [Scalar α]

/-! ### Names of what is live -/

namespace Model

variable {m : Model α}

theorem variableName_eq {v : VariableIndex} (hv : m.isValid (.var v) = true)
    (hm : m.vars.Valid) : m.variableName (.var v) = .ok (m.nameOfVariable (.var v)) := by
  rw [isValid, hm.contains_eq] at hv
  obtain ⟨info, hinfo⟩ := Option.isSome_iff_exists.1 hv
  simp [variableName, nameOfVariable, info_var, hinfo]

theorem constraintName_eq {c : ConstraintIndex} (hc : m.isValid (.constraint c) = true) :
    m.constraintName (.constraint c) = .ok (m.nameOfConstraint c) := by
  obtain ⟨function, set, value⟩ := c
  rw [constraintName]
  cases function
  case singleVariable =>
    have hlive := liveInfo_eq m (c := ⟨.singleVariable, set, value⟩) rfl
    rw [isValid, carries_single m rfl] at hc
    simp only [IndexArg.constraint?, bind_ok, if_true, hlive, nameOfConstraint]
    cases hv : m.vars.get? value with
    | none => simp [hv] at hc
    | some info =>
      have hk : info.carries set = true := by simpa [hv] using hc
      simp [Option.filter, hk, VariableInfo.slotName]
  case scalarAffine =>
    rw [isValid, carries] at hc
    simp only [IndexArg.constraint?, bind_ok, reduceCtorEq, if_false, affineInfo_eq, if_true,
      nameOfConstraint]
    cases hv : m.affine.get? value with
    | none => simp [hv] at hc
    | some info =>
      have hk : info.set.kind = set := by simpa [hv] using hc
      simp [Option.filter, hk]
  all_goals cases hc

end Model

/-! ### What is done -/

/-- Old and new identities of constraints. -/
def copies (vs : List VariableIndex) (as ss : List ConstraintIndex) :
    List (ConstraintIndex × ConstraintIndex) :=
  (as.zipIdx.map fun e => (e.1, ⟨.scalarAffine, e.1.set, (e.2 + 1 : Nat)⟩)) ++
    ss.map fun c => (c, ⟨.singleVariable, c.set, (recount vs ⟨c.value⟩).value⟩)

/-- How far a copy has got. -/
structure Copying (m : Model α) (L : Ledger α) (vs : List VariableIndex)
    (as ss : List ConstraintIndex) (map : IndexMap) (m' : Model α) : Prop where
  named : m'.Named
  represents : Represents m' (L.copied m vs as ss)
  vars : map.vars = vs.map fun v => (v, recount vs v)
  constraints : map.constraints = copies vs as ss
  variableName : ∀ v ∈ vs, m'.nameOfVariable (.var (recount vs v)) = m.nameOfVariable (.var v)
  constraintName : ∀ e ∈ copies vs as ss, m'.nameOfConstraint e.2 = m.nameOfConstraint e.1

/-! ### Variables -/

section Variables
variable {m : Model α} {L : Ledger α} (h : Represents m L)
include h

/-- A variable that is added is a variable that is copied. -/
theorem copied_addVariable {vs : List VariableIndex} {v : VariableIndex}
    (hv : m.isValid (.var v) = true) :
    (L.copied m vs [] []).addVariables 1 = L.copied m (vs ++ [v]) [] [] := by
  obtain ⟨-, hm⟩ | ⟨i, k, r, info, c, rfl, hr, -, hat, -⟩ := h.live_cases v
  · rw [Model.isValid, h.wf.vars.contains_eq, hm] at hv
    cases hv
  · have hnew : (r.only fun kind => ⟨.singleVariable, kind, (k : Int)⟩ ∈
        ([] : List ConstraintIndex)).read c = {} := by
      simp only [List.not_mem_nil, decide_false, r.only_none]
      rfl
    have hvars : ((L.copied m vs [] []).addVariables 1).vars =
        (L.copied m (vs ++ [⟨k⟩]) [] []).vars := by
      funext w
      change (if (vs.length : Int) < w.value ∧ w.value ≤ vs.length + (1 : Nat) then
          some ({} : VariableRecord α)
        else (nth? vs w.value).bind _) = (nth? (vs ++ [⟨k⟩]) w.value).bind _
      rw [nth?_concat]
      by_cases hw : w.value = (vs.length + 1 : Nat)
      · have hrange : (vs.length : Int) < w.value ∧ w.value ≤ vs.length + (1 : Nat) := by omega
        rw [if_pos hrange, if_pos hw, Option.bind_some, hr, Option.bind_some,
          hat.column? h.wf, Option.map_some, hnew]
      · have hrange : ¬((vs.length : Int) < w.value ∧ w.value ≤ vs.length + (1 : Nat)) := by omega
        rw [if_neg hrange, if_neg hw]
    have hlast : vs.length + 1 = (vs ++ [⟨k⟩] : List VariableIndex).length := by simp
    have haffine : (L.copied m vs [] []).affine = (L.copied m (vs ++ [⟨k⟩]) [] []).affine := by
      funext n
      have hnone : nth? ([] : List ConstraintIndex) n = none := by simp [nth?]
      simp only [Ledger.copied, hnone, Option.bind_none]
    exact Ledger.ext hlast hvars rfl haffine rfl rfl rfl

omit h in
theorem copied_vars {vs : List VariableIndex} {v : VariableIndex} {r : VariableRecord α}
    {c : Column α} (hv : v ∈ vs) (hr : L.vars v = some r) (hc : m.column? v = some c)
    (as ss : List ConstraintIndex) : (L.copied m vs as ss).vars (recount vs v) =
      some ((r.only fun k => ⟨.singleVariable, k, v.value⟩ ∈ ss).read c) := by
  simp only [Ledger.copied, nth?_recount hv, hr, hc, Option.bind_some, Option.map_some]

omit h in
theorem copied_affine {as : List ConstraintIndex} {i : Nat} {c : ConstraintIndex}
    {r : AffineRecord α} (hi : as[i]? = some c) (hr : L.affine c.value = some r)
    (vs : List VariableIndex) (ss : List ConstraintIndex) :
    (L.copied m vs as ss).affine (i + 1 : Nat) =
      some ⟨r.set, fun w => (nth? vs w.value).bind r.term⟩ := by
  simp only [Ledger.copied, nth?_eq_some.2 ⟨i, rfl, hi⟩, hr, Option.bind_some, Option.map_some]

end Variables

/-- A variable that has no name yet is named, unless the name is empty. -/
theorem Model.Named.nameVariable {m : Model α} {L : Ledger α} (hn : m.Named)
    (h : Represents m L) {w : VariableIndex} (hw : m.isValid (.var w) = true)
    (hfree : m.nameOfVariable (.var w) = "") (name : String) :
    ∃ m', (if name ≠ "" then Modelling.setVariableName (.var w) name else pure ()) m =
        .ok () m' ∧ m'.Named ∧ Represents m' L ∧
      (∀ u, m'.nameOfVariable (.var u) =
        if u = w then name else m.nameOfVariable (.var u)) ∧
      m'.nameOfConstraint = m.nameOfConstraint := by
  by_cases hname : name = ""
  · refine ⟨m, by rw [if_neg (by simpa using hname)]; rfl, hn, h, fun u => ?_, rfl⟩
    split_ifs with hu
    · rw [hu, hfree, hname]
    · rfl
  · obtain ⟨-, hm⟩ | ⟨i, k, r, info, c, rfl, -, -, hat, -⟩ := h.live_cases w
    · rw [Model.isValid, hn.wf.vars.contains_eq, hm] at hw
      cases hw
    · rw [if_pos (by simpa using hname)]
      exact ⟨_, Modelling.setVariableName_run hn.wf hat name, hn.withVariableName hat name,
        h.withVariableName hat name, hat.nameOfVariable hn.wf name,
        Model.nameOfConstraint_withVariableName hn.wf i k info name⟩

/-- A constraint that has no name yet is named, unless the name is empty. -/
theorem Model.Named.nameConstraint {m : Model α} {L : Ledger α} (hn : m.Named)
    (h : Represents m L) {d : ConstraintIndex} (hd : m.isValid (.constraint d) = true)
    (hfree : m.nameOfConstraint d = "") (name : String) :
    ∃ m', (if name ≠ "" then Modelling.setConstraintName (.constraint d) name else pure ()) m =
        .ok () m' ∧ m'.Named ∧ Represents m' L ∧ m'.nameOfVariable = m.nameOfVariable ∧
      ∀ e, m'.nameOfConstraint e = if e = d then name else m.nameOfConstraint e := by
  by_cases hname : name = ""
  · refine ⟨m, by rw [if_neg (by simpa using hname)]; rfl, hn, h, rfl, fun e => ?_⟩
    split_ifs with he
    · rw [he, hfree, hname]
    · rfl
  · obtain ⟨hdead, -⟩ | ⟨m', hrun, hrenamed⟩ := Modelling.setConstraintName_cases hn.wf d name
    · rw [hd] at hdead
      cases hdead
    · rw [if_pos (by simpa using hname)]
      exact ⟨m', hrun, hn.renamed hrenamed, h.renamed hrenamed, hrenamed.nameOfVariable hn.wf,
        hrenamed.nameOfConstraint hn.wf⟩

section Steps
variable [OrderedScalar α] {m : Model α} {L : Ledger α}

/-- One more variable is copied. -/
theorem Copying.copyVariable (hm : m.Named) (h : Represents m L) {vs : List VariableIndex}
    {v : VariableIndex} {map : IndexMap} {m' : Model α} (hc : Copying m L vs [] [] map m') (hv : m.isValid (.var v) = true)
    (hnew : v ∉ vs) : ∃ map' m'', Modelling.copyVariable m map v m' = .ok map' m'' ∧
      Copying m L (vs ++ [v]) [] [] map' m'' := by
  have hgrown := hc.represents.grown 1
  rw [copied_addVariable h hv] at hgrown
  have hkeeps := hc.named.grown 1
  have hlast : m'.vars.last = vs.length := hc.represents.lastVariable.symm
  have hadd := Modelling.addVariable_run hc.named.wf
  have hw : recount (vs ++ [v]) v = ⟨(vs.length + 1 : Nat)⟩ := recount_last hnew
  rw [hlast, ← hw] at hadd
  have hlive : (m'.grown 1).isValid (.var (recount (vs ++ [v]) v)) = true := by
    rw [hgrown.isValid, Ledger.isValid]
    obtain ⟨-, hm⟩ | ⟨i, k, r, info, c, rfl, hr, -, hat, -⟩ := h.live_cases v
    · rw [Model.isValid, h.wf.vars.contains_eq, hm] at hv
      cases hv
    · rw [copied_vars (List.mem_append_right _ List.mem_cons_self) hr (hat.column? h.wf)]
      rfl
  have hfree : (m'.grown 1).nameOfVariable (.var (recount (vs ++ [v]) v)) = "" := by
    have hlt : (m'.vars.last : Int) < (vs.length + 1 : Nat) := by omega
    rw [hkeeps.ofVariable, Model.nameOfVariable, hw,
      hc.named.wf.vars.get?_eq_none_of_last_lt hlt]
    rfl
  obtain ⟨m'', hrun, hnamed, hrepr, hnames, hothers⟩ :=
    hkeeps.named.nameVariable hgrown hlive hfree (m.nameOfVariable (.var v))
  refine ⟨{ map with vars := map.vars ++ [(v, recount (vs ++ [v]) v)] }, m'', ?_, hnamed, hrepr,
    ?_, hc.constraints, fun u hu => ?_, fun e he => ?_⟩
  · have hname := Model.variableName_eq hv hm.wf.vars
    by_cases hempty : m.nameOfVariable (.var v) = ""
    · simp only [hempty, ne_eq, not_true_eq_false, if_false, pure_run] at hrun hname
      cases hrun
      simp only [Modelling.copyVariable, bind_run, hadd, hname, Modelling.ofExcept_ok, pure_run,
        ne_eq, not_true_eq_false, if_false]
    · simp only [ne_eq, hempty, not_false_eq_true, if_true] at hrun
      simp only [Modelling.copyVariable, bind_run, hadd, hname, Modelling.ofExcept_ok, pure_run,
        ne_eq, hempty, not_false_eq_true, if_true, hrun]
  · simp only [hc.vars, List.map_append, List.map_cons, List.map_nil]
    congr 1
    refine List.map_congr_left fun u hu => ?_
    rw [recount_concat hu]
  · rw [hnames]
    split_ifs with heq
    · have hv' : v ∈ vs ++ [v] := List.mem_append_right _ List.mem_cons_self
      rw [recount_inj hu hv' heq]
    · rcases List.mem_append.1 hu with hu | hu
      · rw [hkeeps.ofVariable, recount_concat hu, hc.variableName u hu]
      · exact absurd (by rw [List.mem_singleton.1 hu]) heq
  · cases he

end Steps

end

/-! ### Functions of other variables -/

variable {α : Type}

def Term.rename (ρ : VariableIndex → VariableIndex) (t : Term α) : Term α :=
  ⟨t.coefficient, ρ t.var⟩

def AffineFunction.rename (ρ : VariableIndex → VariableIndex) (f : AffineFunction α) :
    AffineFunction α := ⟨f.terms.map (Term.rename ρ), f.constant⟩

namespace Function

def rename (ρ : VariableIndex → VariableIndex) : Function α → Function α
  | .single v => .single (ρ v)
  | .affine f => .affine (f.rename ρ)

/-- An answer as an argument. -/
def argument : Function α → FunctionArg α
  | .single v => .single v
  | .affine f => .affine f

def vars : Function α → List VariableIndex
  | .single v => [v]
  | .affine f => f.terms.map (·.var)

end Function

section
variable {map : IndexMap} {vs : List VariableIndex} {ρ : VariableIndex → VariableIndex}
  (hmap : map.vars = vs.map fun v => (v, ρ v))
include hmap

theorem IndexMap.var_eq {v : VariableIndex} (hv : v ∈ vs) :
    (map.var v : Except (Fault α) VariableIndex) = .ok (ρ v) := by
  rw [var, hmap, List.lookup_graph ρ hv]

/-- A function over mapped variables is mapped. -/
theorem IndexMap.function_eq {f : Function α} (hf : ∀ v ∈ f.vars, v ∈ vs) :
    map.function f = .ok (f.rename ρ).argument := by
  cases f with
  | single v =>
    rw [function, var_eq hmap (hf v List.mem_cons_self)]
    rfl
  | affine f =>
    have hterms : ∀ ts : List (Term α), (∀ t ∈ ts, t.var ∈ vs) →
        (ts.mapM fun t => do return ⟨t.coefficient, ← map.var t.var⟩ :
          Except (Fault α) (List (Term α))) = .ok (ts.map (Term.rename ρ)) := by
      intro ts
      induction ts with
      | nil => exact fun _ => rfl
      | cons t ts ih =>
        intro hts
        rw [List.mapM_cons, var_eq hmap (hts t List.mem_cons_self),
          ih fun u hu => hts u (List.mem_cons_of_mem _ hu)]
        rfl
    rw [function, hterms f.terms fun t ht => hf t.var (List.mem_map_of_mem ht)]
    rfl

end

/-! ### Terms -/

/-- The terms of a variable in a list that names each variable once. -/
theorem filter_var_eq : ∀ {ts : List (Term α)}, (ts.map (·.var)).Nodup → ∀ v : VariableIndex,
    (ts.filter fun t => t.var = v) = (termIn ts v).elim [] fun x => [⟨x, v⟩]
  | [], _, _ => rfl
  | t :: ts, hn, v => by
    rw [List.map_cons, List.nodup_cons] at hn
    rw [termIn_cons, List.filter_cons]
    by_cases hv : t.var = v
    · have hrest : (ts.filter fun u => u.var = v) = [] := by
        rw [List.filter_eq_nil_iff]
        intro u hu heq
        exact hn.1 (List.mem_map.2 ⟨u, hu, (of_decide_eq_true heq).trans hv.symm⟩)
      subst hv
      simp [hrest]
    · simp [hv, filter_var_eq hn.2 v]

section
variable [Scalar α]

/-- Then the terms are what the function says. -/
theorem AffineFunction.term?_eq [LawfulScalar α] {f : AffineFunction α}
    (hn : (f.terms.map (·.var)).Nodup) (hz : ∀ t ∈ f.terms, (t.coefficient == 0) = false)
    (v : VariableIndex) : f.term? v = termIn f.terms v := by
  rw [term?, coefficient, filter_var_eq hn]
  cases hx : termIn f.terms v with
  | none => simp [nonzero?, Scalar.sum, OrderedScalar.beq_refl OrderedScalar.isNaN_zero]
  | some x =>
    have hnonzero := hz _ ((termIn_eq_some hn).1 hx)
    have hsum : Scalar.sum [x] = x := LawfulScalar.zero_add hnonzero
    simp [hsum, nonzero?, hnonzero]

namespace Ledger

variable {L : Ledger α} {c : Terms α}

theorem mem_list {t : Term α} :
    t ∈ L.list c ↔ t.var ∈ L.variableIndices ∧ c t.var = some t.coefficient := by
  rw [list, List.mem_filterMap]
  constructor
  · rintro ⟨v, hv, ht⟩
    obtain ⟨x, hx, rfl⟩ := Option.map_eq_some_iff.1 ht
    exact ⟨hv, hx⟩
  · rintro ⟨hv, hx⟩
    exact ⟨t.var, hv, by rw [hx, Option.map_some]⟩

theorem nodup_vars_list (L : Ledger α) (c : Terms α) : ((L.list c).map (·.var)).Nodup := by
  rw [list, List.map_filterMap]
  refine (L.nodup_variableIndices).filterMap fun v w u hv hw => ?_
  have hvar : ∀ {v : VariableIndex},
      u ∈ ((c v).map fun x => (⟨x, v⟩ : Term α)).map (·.var) → v = u := by
    intro v hv
    obtain ⟨t, ht, rfl⟩ := Option.map_eq_some_iff.1 hv
    obtain ⟨x, -, rfl⟩ := Option.map_eq_some_iff.1 ht
    rfl
  exact (hvar hv).trans (hvar hw).symm

/-- Terms listed by identity and recounted are the terms of the recounted variables. -/
theorem term?_list [LawfulScalar α] (hz : ∀ v x, c v = some x → (x == 0) = false) (k : α)
    (w : VariableIndex) :
    ((⟨L.list c, k⟩ : AffineFunction α).rename (recount L.variableIndices)).term? w =
      (nth? L.variableIndices w.value).bind c := by
  have hvs := L.nodup_variableIndices
  have hvars : ((L.list c).map (Term.rename (recount L.variableIndices))).map (·.var) =
      ((L.list c).map (·.var)).map (recount L.variableIndices) := by
    rw [List.map_map, List.map_map]
    rfl
  have hn : (((L.list c).map (Term.rename (recount L.variableIndices))).map (·.var)).Nodup := by
    rw [hvars]
    refine (L.nodup_vars_list c).map_on fun v hv w hw heq => ?_
    obtain ⟨t, ht, rfl⟩ := List.mem_map.1 hv
    obtain ⟨u, hu, rfl⟩ := List.mem_map.1 hw
    exact recount_inj (mem_list.1 ht).1 (mem_list.1 hu).1 heq
  rw [AffineFunction.term?_eq hn]
  · ext x
    rw [AffineFunction.rename, termIn_eq_some hn, Option.bind_eq_some_iff, List.mem_map]
    constructor
    · rintro ⟨t, ht, heq⟩
      obtain ⟨hv, hx⟩ := mem_list.1 ht
      cases heq
      exact ⟨t.var, nth?_recount hv, hx⟩
    · rintro ⟨v, hv, hx⟩
      obtain ⟨hmem, rfl⟩ := (nth?_eq_some_iff hvs).1 hv
      exact ⟨⟨x, v⟩, mem_list.2 ⟨hmem, hx⟩, rfl⟩
  · intro t ht
    obtain ⟨u, hu, rfl⟩ := List.mem_map.1 ht
    exact hz _ _ (mem_list.1 hu).2

theorem isValid_single {c : ConstraintIndex} (hc : c.function = .singleVariable) :
    L.isValid (.constraint c) = true ↔
      ∃ r, L.vars ⟨c.value⟩ = some r ∧ r.carries c.set = true := by
  rw [isValid, hc]
  exact Option.any_eq_true _ _

theorem isValid_affine {c : ConstraintIndex} (hc : c.function = .scalarAffine) :
    L.isValid (.constraint c) = true ↔
      ∃ r, L.affine c.value = some r ∧ r.set.kind = c.set := by
  rw [isValid, hc]
  simp only [Option.any_eq_true, decide_eq_true_eq]

theorem checkTerms_ok {ts : List (Term α)} (h : ∀ t ∈ ts, (L.vars t.var).isSome = true) :
    L.checkTerms ts = .ok () := by
  have hnone : ts.find? (fun t => (L.vars t.var).isNone) = none := by
    rw [List.find?_eq_none]
    intro t ht
    simp [Option.isSome_iff_ne_none.1 (h t ht)]
  rw [checkTerms, hnone]

end Ledger

namespace Represents

variable {m : Model α} {L : Ledger α} (h : Represents m L)
include h

/-- Coefficients that are kept are not zero. -/
theorem nonzero_term {k : Int} {r : AffineRecord α} (hr : L.affine k = some r)
    {v : VariableIndex} {x : α} (hx : r.term v = some x) : (x == 0) = false := by
  obtain ⟨hnone, -⟩ | ⟨i, n, info, row, rfl, hat, hL⟩ := h.affine_cases k
  · cases hr.symm.trans hnone
  · cases hr.symm.trans hL
    obtain ⟨info', -, hlookup⟩ := Option.bind_eq_some_iff.1 hx
    exact (hat.fits h.wf).lookup_nonzero hlookup

theorem nonzero_cost {v : VariableIndex} {x : α} (hx : L.cost v = some x) :
    (x == 0) = false := by
  rw [h.cost] at hx
  obtain ⟨c, -, hc⟩ := Option.bind_eq_some_iff.1 hx
  exact (nonzero?_eq_some.1 hc).2

/-- Live variables have a record and a column. -/
theorem column_of_vars {v : VariableIndex} {r : VariableRecord α} (hr : L.vars v = some r) :
    ∃ c, m.column? v = some c := by
  obtain ⟨hnone, -⟩ | ⟨i, k, r', info, c, rfl, -, -, hat, -⟩ := h.live_cases v
  · cases hr.symm.trans hnone
  · exact ⟨c, hat.column? h.wf⟩

/-- The answers about an affine constraint that is live. -/
theorem affine_of_isValid {c : ConstraintIndex} (hc : c.function = .scalarAffine)
    (hlive : L.isValid (.constraint c) = true) :
    ∃ r, L.affine c.value = some r ∧ r.set.kind = c.set ∧
      m.constraintFunction (.constraint c) = .ok (.affine ⟨L.list r.term, 0⟩) ∧
      m.constraintSet (.constraint c) = .ok r.set := by
  obtain ⟨r, hr, hk⟩ := (Ledger.isValid_affine hc).1 hlive
  have haffine : L.affineOf c = .ok r := by
    simp [Ledger.affineOf, hc, hr, Option.filter, hk]
  refine ⟨r, hr, hk, ?_, ?_⟩
  · rw [h.constraintFunction, Ledger.constraintFunction]
    simp [IndexArg.constraint?, hc, haffine]
  · rw [h.constraintSet_affine c hc, Ledger.constraintSet]
    simp [IndexArg.constraint?, hc, haffine]

/-- The answers about a set of a single variable that is live. -/
theorem single_of_isValid {kind : Kind} {value : Int}
    (hlive : L.isValid (.constraint ⟨.singleVariable, kind, value⟩) = true) :
    ∃ r c, L.vars ⟨value⟩ = some r ∧ m.column? ⟨value⟩ = some c ∧ r.carries kind = true ∧
      m.constraintFunction (.constraint ⟨.singleVariable, kind, value⟩) = .ok (.single ⟨value⟩) ∧
      m.constraintSet (.constraint ⟨.singleVariable, kind, value⟩) = .ok (c.set kind) := by
  obtain ⟨hdead, -⟩ | ⟨i, k, r, info, c, rfl, hat, hshape, hcarries, hr, hsingle, hinfo⟩ :=
    h.single_cases kind value
  · obtain ⟨r, hr, hk⟩ := (Ledger.isValid_single rfl).1 hlive
    simp [Ledger.single, hr, Option.filter, hk] at hdead
  · refine ⟨r, c, hr, hat.column? h.wf, carries_of_shape hshape kind ▸ hcarries, ?_,
      hat.constraintSet hinfo⟩
    rw [h.constraintFunction, Ledger.constraintFunction]
    simp [IndexArg.constraint?, hsingle]

/-- Recounted terms are over the variables of the copy. -/
theorem copied_checkTerms {as ss : List ConstraintIndex} {ts : List (Term α)}
    (hts : ∀ t ∈ ts, ∃ v ∈ L.variableIndices, t.var = recount L.variableIndices v) :
    (L.copied m L.variableIndices as ss).checkTerms ts = .ok () := by
  refine Ledger.checkTerms_ok fun t ht => ?_
  obtain ⟨v, hv, heq⟩ := hts t ht
  obtain ⟨r, hr⟩ := Option.isSome_iff_exists.1 (h.mem_variableIndices.1 hv)
  obtain ⟨c, hc⟩ := h.column_of_vars hr
  rw [heq, copied_vars hv hr hc]
  rfl

end Represents

end

end MixedInteger
