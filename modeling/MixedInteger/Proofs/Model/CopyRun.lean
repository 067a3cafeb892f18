import MixedInteger.Proofs.Model.Copying

/-! The run of a copy. All variables come first, then the affine constraints, then the sets
of single variables one by one. No step can fail: every set was let in before, and what
stands in its way in the copy would have stood in its way in the source. -/

namespace MixedInteger

variable {α : Type} [Scalar α]

/-! ### Identities of the copy -/

namespace Ledger

variable {L : Ledger α}

/-- Live constraints, affine ones and those on single variables. -/
structure Lists (L : Ledger α) (as ss : List ConstraintIndex) : Prop where
  affine : ∀ c ∈ as, c.function = .scalarAffine ∧ L.isValid (.constraint c) = true
  single : ∀ c ∈ ss, c.function = .singleVariable ∧ L.isValid (.constraint c) = true
  nodupAffine : as.Nodup
  nodupSingle : ss.Nodup

theorem Lists.sublist {as ss as' ss' : List ConstraintIndex} (h : L.Lists as ss)
    (ha : as'.Sublist as) (hs : ss'.Sublist ss) : L.Lists as' ss' where
  affine c hc := h.affine c (ha.subset hc)
  single c hc := h.single c (hs.subset hc)
  nodupAffine := h.nodupAffine.sublist ha
  nodupSingle := h.nodupSingle.sublist hs

end Ledger

theorem mem_copies {vs : List VariableIndex} {as ss : List ConstraintIndex}
    {c d : ConstraintIndex} : (c, d) ∈ copies vs as ss ↔
      (∃ i, as[i]? = some c ∧ d = ⟨.scalarAffine, c.set, (i + 1 : Nat)⟩) ∨
        c ∈ ss ∧ d = ⟨.singleVariable, c.set, (recount vs ⟨c.value⟩).value⟩ := by
  rw [copies, List.mem_append, List.mem_map, List.mem_map]
  refine or_congr ⟨?_, ?_⟩ ⟨?_, ?_⟩
  · rintro ⟨⟨c, i⟩, hi, heq⟩
    cases heq
    exact ⟨i, List.mem_zipIdx_iff_getElem?.1 hi, rfl⟩
  · rintro ⟨i, hi, rfl⟩
    exact ⟨(c, i), List.mem_zipIdx_iff_getElem?.2 hi, rfl⟩
  · rintro ⟨c, hc, heq⟩
    cases heq
    exact ⟨hc, rfl⟩
  · rintro ⟨hc, rfl⟩
    exact ⟨c, hc, rfl⟩

section Identities
variable {m : Model α} {L : Ledger α} (h : Represents m L) {as ss : List ConstraintIndex}
  (hl : L.Lists as ss)
include h hl

/-- A copy has the copies of what was copied, and nothing else. -/
theorem isValid_copied (d : ConstraintIndex) :
    (L.copied m L.variableIndices as ss).isValid (.constraint d) = true ↔
      ∃ e ∈ copies L.variableIndices as ss, e.2 = d := by
  have hvs := L.nodup_variableIndices
  constructor
  · intro hd
    obtain ⟨function, set, value⟩ := d
    cases function
    case singleVariable =>
      obtain ⟨q, hq, hk⟩ := (Ledger.isValid_single rfl).1 hd
      obtain ⟨v, hv, hq⟩ := Option.bind_eq_some_iff.1 hq
      obtain ⟨r, -, hq⟩ := Option.bind_eq_some_iff.1 hq
      obtain ⟨c, -, rfl⟩ := Option.map_eq_some_iff.1 hq
      obtain ⟨-, hw⟩ := (nth?_eq_some_iff (w := ⟨value⟩) hvs).1 hv
      rw [VariableRecord.carries_read, VariableRecord.carries_only, Bool.and_eq_true,
        decide_eq_true_eq] at hk
      refine ⟨(⟨.singleVariable, set, v.value⟩, ⟨.singleVariable, set, (recount _ v).value⟩),
        mem_copies.2 (.inr ⟨hk.1, rfl⟩), ?_⟩
      exact congrArg (ConstraintIndex.mk _ _) (congrArg VariableIndex.value hw.symm)
    case scalarAffine =>
      obtain ⟨q, hq, hk⟩ := (Ledger.isValid_affine rfl).1 hd
      obtain ⟨c, hc, hq⟩ := Option.bind_eq_some_iff.1 hq
      obtain ⟨r, hr, rfl⟩ := Option.map_eq_some_iff.1 hq
      obtain ⟨i, rfl, hi⟩ := nth?_eq_some.1 hc
      obtain ⟨hfunction, hlive⟩ := hl.affine c (List.mem_of_getElem? hi)
      obtain ⟨r', hr', hkind⟩ := (Ledger.isValid_affine hfunction).1 hlive
      cases hr.symm.trans hr'
      have hset : c.set = set := hkind.symm.trans hk
      exact ⟨(c, ⟨.scalarAffine, c.set, (i + 1 : Nat)⟩), mem_copies.2 (.inl ⟨i, hi, rfl⟩),
        hset ▸ rfl⟩
    all_goals cases hd
  · rintro ⟨⟨c, d⟩, he, rfl⟩
    rcases mem_copies.1 he with ⟨i, hi, rfl⟩ | ⟨hc, rfl⟩
    · obtain ⟨hfunction, hlive⟩ := hl.affine c (List.mem_of_getElem? hi)
      obtain ⟨r, hr, hkind⟩ := (Ledger.isValid_affine hfunction).1 hlive
      exact (Ledger.isValid_affine rfl).2 ⟨_, copied_affine hi hr _ _, hkind⟩
    · obtain ⟨hfunction, hlive⟩ := hl.single c hc
      obtain ⟨r, hr, hk⟩ := (Ledger.isValid_single hfunction).1 hlive
      obtain ⟨col, hcol⟩ := h.column_of_vars hr
      have hv : (⟨c.value⟩ : VariableIndex) ∈ L.variableIndices :=
        h.mem_variableIndices.2 (by rw [hr]; rfl)
      refine (Ledger.isValid_single rfl).2 ⟨_, copied_vars hv hr hcol as ss, ?_⟩
      have hmem : (⟨.singleVariable, c.set, c.value⟩ : ConstraintIndex) ∈ ss := by
        rw [← hfunction]
        exact hc
      simp [hmem, hk, VariableRecord.carries_only]

/-- No two constraints get the same identity. -/
theorem nodup_copies : ((copies L.variableIndices as ss).map (·.2)).Nodup := by
  rw [copies, List.map_append, List.nodup_append']
  refine ⟨?_, ?_, ?_⟩
  · -- their values are counted up
    refine List.Nodup.of_map ConstraintIndex.value ?_
    have hvalues : ((as.zipIdx.map fun e => (e.1, (⟨.scalarAffine, e.1.set, (e.2 + 1 : Nat)⟩ :
        ConstraintIndex))).map (·.2)).map ConstraintIndex.value =
          (as.zipIdx.map (·.2)).map fun i => ((i + 1 : Nat) : Int) := by
      simp only [List.map_map, Function.comp_def]
    rw [hvalues]
    rw [List.zipIdx_map_snd]
    exact List.Nodup.map (fun i j hij => by omega) List.nodup_range'
  · rw [List.map_map]
    refine hl.nodupSingle.map_on fun c hc d hd heq => ?_
    have hmem : ∀ c ∈ ss, (⟨c.value⟩ : VariableIndex) ∈ L.variableIndices := by
      intro c hc
      obtain ⟨hfunction, hlive⟩ := hl.single c hc
      obtain ⟨r, hr, -⟩ := (Ledger.isValid_single hfunction).1 hlive
      exact h.mem_variableIndices.2 (by rw [hr]; rfl)
    obtain ⟨f, s, x⟩ := c
    obtain ⟨f', s', x'⟩ := d
    obtain ⟨rfl, -⟩ := hl.single _ hc
    obtain ⟨rfl, -⟩ := hl.single _ hd
    simp only [Function.comp_apply, ConstraintIndex.mk.injEq, true_and] at heq
    obtain ⟨rfl, hvalue⟩ := heq
    have := recount_inj (hmem _ hc) (hmem _ hd) (congrArg VariableIndex.mk hvalue)
    cases this
    rfl
  · intro d hd hd'
    simp only [List.mem_map] at hd hd'
    obtain ⟨-, ⟨e, -, rfl⟩, rfl⟩ := hd
    obtain ⟨-, ⟨e', -, rfl⟩, heq⟩ := hd'
    cases heq

end Identities

/-! ### One more constraint -/

section Steps
variable [LawfulScalar α] {m : Model α} {L : Ledger α} (h : Represents m L)
  {as ss : List ConstraintIndex}
include h

/-- An affine constraint whose function is recounted is one that is copied. -/
theorem copied_addAffine {c : ConstraintIndex} {r : AffineRecord α}
    (hr : L.affine c.value = some r) (hk : r.set.kind = c.set) :
    (L.copied m L.variableIndices as ss).addConstraint
        (.affine ((⟨L.list r.term, 0⟩ : AffineFunction α).rename (recount L.variableIndices)))
        (.set r.set) =
      .ok (⟨.scalarAffine, c.set, (as.length + 1 : Nat)⟩,
        L.copied m L.variableIndices (as ++ [c]) ss) := by
  have hterm := L.term?_list (c := r.term) (fun v x hx => h.nonzero_term hr hx) 0
  have hrow : r.set.isRow = true := by
    obtain ⟨hnone, -⟩ | ⟨i, n, info, row, -, hat, hL⟩ := h.affine_cases c.value
    · cases hr.symm.trans hnone
    · cases hr.symm.trans hL
      have hbounds := hat.bounds
      cases hset : info.set <;> rw [hset] at hbounds <;> first | rfl | cases hbounds
  have hzero : ((0 : α) == 0) = true := OrderedScalar.beq_refl OrderedScalar.isNaN_zero
  generalize hf : (⟨L.list r.term, 0⟩ : AffineFunction α).rename (recount L.variableIndices) = f
    at hterm ⊢
  have hconstant : f.constant = 0 := by rw [← hf]; rfl
  have hcheck : (L.copied m L.variableIndices as ss).checkTerms f.canonical.terms = .ok () := by
    refine h.copied_checkTerms fun t ht => ?_
    have hin := (termIn_eq_some f.nodup_vars_canonical).2 ht
    rw [f.termIn_canonical, hterm] at hin
    obtain ⟨v, hv, -⟩ := Option.bind_eq_some_iff.1 hin
    exact ⟨v, (nth?_eq_some_iff L.nodup_variableIndices).1 hv⟩
  have hledger : { (L.copied m L.variableIndices as ss).setAffine (as.length + 1 : Nat)
      ⟨r.set, f.term?⟩ with lastAffine := as.length + 1 } =
        L.copied m L.variableIndices (as ++ [c]) ss := by
    refine Ledger.ext rfl rfl ?_ ?_ rfl rfl rfl
    · simp [Ledger.copied]
    · funext k
      simp only [Ledger.setAffine, Ledger.copied, nth?_concat, Function.update_apply]
      split_ifs
      · rw [Option.bind_some, hr, Option.map_some]
        exact congrArg some (congrArg (AffineRecord.mk r.set) (funext hterm))
      · rfl
  simp only [Ledger.addConstraint, hrow, if_true, Ledger.addAffine, hconstant, hzero,
    Bool.not_true, Bool.false_eq_true, if_false, hcheck, bind_ok, pure_except, hk]
  exact congrArg (fun L' => Except.ok (_, L')) hledger

omit [LawfulScalar α] in
/-- One more set of a variable changes the record of its copy. -/
theorem copied_setVariable (as ss : List ConstraintIndex) {v : VariableIndex}
    {r : VariableRecord α} {col : Column α} {k : Kind}
    (hr : L.vars v = some r) (hcol : m.column? v = some col) :
    (L.copied m L.variableIndices as ss).setVariable (recount L.variableIndices v)
        ((r.only (orKind (fun k' => ⟨.singleVariable, k', v.value⟩ ∈ ss) k)).read col) =
      L.copied m L.variableIndices as (ss ++ [⟨.singleVariable, k, v.value⟩]) := by
  have hv : v ∈ L.variableIndices := h.mem_variableIndices.2 (by rw [hr]; rfl)
  have hkinds : ∀ u : VariableIndex, u ≠ v →
      (fun k' => decide ((⟨.singleVariable, k', u.value⟩ : ConstraintIndex) ∈
        ss ++ [⟨.singleVariable, k, v.value⟩])) =
          fun k' => decide (⟨.singleVariable, k', u.value⟩ ∈ ss) := by
    intro u hu
    have hvalue : u.value ≠ v.value := fun heq => hu (congrArg VariableIndex.mk heq)
    funext k'
    simp [hvalue]
  refine Ledger.ext rfl ?_ rfl rfl rfl rfl rfl
  funext w
  simp only [Ledger.setVariable, Function.update_apply]
  split_ifs with hw
  · rw [hw, copied_vars hv hr hcol]
    congr 3
    funext k'
    simp [orKind]
  · simp only [Ledger.copied]
    cases hu : nth? L.variableIndices w.value with
    | none => rfl
    | some u =>
      have hne : u ≠ v := by
        rintro rfl
        exact hw ((nth?_eq_some_iff L.nodup_variableIndices).1 hu).2
      simp only [Option.bind_some, hkinds u hne]

omit [LawfulScalar α] in
/-- A set that is read off a column finds room in the copy. -/
theorem copied_addSingle {v : VariableIndex} {r : VariableRecord α} {col : Column α} {k : Kind}
    (hcoherent : r.Coherent) (hr : L.vars v = some r) (hcol : m.column? v = some col)
    (hk : r.carries k = true) (hnew : (⟨.singleVariable, k, v.value⟩ : ConstraintIndex) ∉ ss) :
    (L.copied m L.variableIndices as ss).addConstraint (.single (recount L.variableIndices v))
        (.set (col.set k)) =
      .ok (⟨.singleVariable, k, (recount L.variableIndices v).value⟩,
        L.copied m L.variableIndices as (ss ++ [⟨.singleVariable, k, v.value⟩])) := by
  have hv : v ∈ L.variableIndices := h.mem_variableIndices.2 (by rw [hr]; rfl)
  have hvars := copied_vars hv hr hcol as ss
  have hnext := copied_setVariable h as ss (k := k) hr hcol
  have hkind : (col.set k).kind = k := by
    obtain ⟨s, rfl⟩ := VariableRecord.exists_of_carries hk
    exact col.kind_set s
  generalize hp : (fun k' => decide ((⟨.singleVariable, k', v.value⟩ : ConstraintIndex) ∈ ss)) = p
    at hvars hnext
  have hroom : p (col.set k).kind = false := by
    rw [← hp, hkind]
    exact decide_eq_false hnew
  have howner : (L.copied m L.variableIndices as ss).owner (.var (recount L.variableIndices v)) =
      .ok (recount L.variableIndices v, (r.only p).read col) := by
    simp only [Ledger.owner, Option.bind_some, hvars, Option.map_some]
  rw [← hkind] at hk
  rw [Ledger.addConstraint, Ledger.addSingle, howner, bind_ok]
  cases ht : (col.set k).type? with
  | some t =>
    have htype := hcoherent.retype_only hk ht p col
    simp only [hcoherent.free_only hk ht hroom col, ne_eq, not_true_eq_false, if_false,
      pure_except, htype, hkind, hnext]
  | none =>
    have hbound : (col.set k).kind.isBound = true := by
      cases hs : col.set k <;> rw [hs] at ht <;> first | rfl | cases ht
    have hwrite := hcoherent.write_only hk hbound p (c := col) (by rw [hkind])
    simp only [hcoherent.conflict?_only hk hroom col, pure_except, hwrite, hkind, hnext]

/-- One more constraint is copied, when the ledger of the copy takes it. -/
theorem Copying.copyConstraint {as' ss' : List ConstraintIndex} {map : IndexMap} {m' : Model α}
    (hc : Copying m L L.variableIndices as ss map m') (hl : L.Lists as' ss')
    (ha : as.Sublist as') (hss : ss.Sublist ss') {c d : ConstraintIndex} {f : Function α}
    {s : ScalarSet α} (hvalid : m.isValid (.constraint c) = true)
    (hf : m.constraintFunction (.constraint c) = .ok f) (hvars : ∀ v ∈ f.vars, v ∈ L.variableIndices)
    (hs : m.constraintSet (.constraint c) = .ok s)
    (hnumbers : ∀ x ∈ (Edit.addConstraint (f.rename (recount L.variableIndices)).argument
      (.set s)).values, Scalar.isNaN x = false)
    (hadd : (L.copied m L.variableIndices as ss).addConstraint
      (f.rename (recount L.variableIndices)).argument (.set s) =
        .ok (d, L.copied m L.variableIndices as' ss'))
    (hcopies : copies L.variableIndices as' ss' = copies L.variableIndices as ss ++ [(c, d)]) :
    ∃ map' m'', Modelling.copyConstraint m map c m' = .ok map' m'' ∧
      Copying m L L.variableIndices as' ss' map' m'' := by
  have hfunction := IndexMap.function_eq hc.vars hvars
  have hagrees := hc.represents.addConstraint _ hnumbers
  rw [hadd] at hagrees
  cases hrun : Modelling.addConstraint (f.rename (recount L.variableIndices)).argument (.set s) m' with
  | error e m₁ =>
    rw [hrun] at hagrees
    cases hagrees
  | ok b m₁ =>
    rw [hrun] at hagrees
    cases hagrees with
    | ok hrepr =>
      have hkeeps := hc.named.addConstraint (f.rename (recount L.variableIndices)).argument (.set s)
      rw [after_ok hrun] at hkeeps
      -- the identity is new, so it is live now, was dead before and has no name
      have hnew := nodup_copies h hl
      rw [hcopies, List.map_append, List.nodup_append'] at hnew
      have hfresh : ∀ e ∈ copies L.variableIndices as ss, e.2 ≠ d := by
        rintro e he rfl
        exact hnew.2.2 (List.mem_map_of_mem he) List.mem_cons_self
      have hlive : m₁.isValid (.constraint d) = true := by
        rw [hrepr.isValid, isValid_copied h hl]
        exact ⟨(c, d), by simp [hcopies], rfl⟩
      have hfree : m₁.nameOfConstraint d = "" := by
        by_contra hne
        rw [hkeeps.ofConstraint] at hne
        have hold := Model.isValid_of_nameOfConstraint hne
        rw [hc.represents.isValid, isValid_copied h (hl.sublist ha hss)] at hold
        obtain ⟨e, he, heq⟩ := hold
        exact hfresh e he heq
      obtain ⟨m'', hname, hnamed, hrepr, hvariables, hnames⟩ :=
        hkeeps.named.nameConstraint hrepr hlive hfree (m.nameOfConstraint c)
      have holds := Model.constraintName_eq hvalid
      refine ⟨{ map with constraints := map.constraints ++ [(c, d)] }, m'', ?_, hnamed, hrepr,
        hc.vars, by rw [hcopies, ← hc.constraints], fun v hv => ?_, fun e he => ?_⟩
      · by_cases hempty : m.nameOfConstraint c = ""
        · simp only [hempty, ne_eq, not_true_eq_false, if_false, pure_run] at hname holds
          cases hname
          simp only [Modelling.copyConstraint, bind_run, hf, hfunction, hs, hrun, holds,
            Modelling.ofExcept_ok, pure_run, ne_eq, not_true_eq_false, if_false]
        · simp only [ne_eq, hempty, not_false_eq_true, if_true] at hname
          simp only [Modelling.copyConstraint, bind_run, hf, hfunction, hs, hrun, holds,
            Modelling.ofExcept_ok, pure_run, ne_eq, hempty, not_false_eq_true, if_true, hname]
      · rw [hvariables, hkeeps.ofVariable, hc.variableName v hv]
      · rw [hnames]
        rw [hcopies] at he
        rcases List.mem_append.1 he with he | he
        · rw [if_neg (hfresh e he), hkeeps.ofConstraint, hc.constraintName e he]
        · rw [List.mem_singleton.1 he, if_pos rfl]

theorem Copying.copyAffine {map : IndexMap} {m' : Model α} {c : ConstraintIndex}
    (hc : Copying m L L.variableIndices as [] map m') (hl : L.Lists (as ++ [c]) []) :
    ∃ map' m'', Modelling.copyConstraint m map c m' = .ok map' m'' ∧
      Copying m L L.variableIndices (as ++ [c]) [] map' m'' := by
  obtain ⟨hfunction, hlive⟩ := hl.affine c (List.mem_append_right _ List.mem_cons_self)
  obtain ⟨r, hr, hk, hf, hs⟩ := h.affine_of_isValid hfunction hlive
  refine hc.copyConstraint h hl (List.sublist_append_left _ _) (.refl _)
    (by rw [h.isValid, hlive]) hf ?_ hs ?_ (copied_addAffine h hr hk) ?_
  · intro v hv
    obtain ⟨t, ht, rfl⟩ := List.mem_map.1 hv
    exact (Ledger.mem_list.1 ht).1
  · intro x hx
    cases hx
  · simp [copies, List.zipIdx_append]

theorem Copying.copySingle {map : IndexMap} {m' : Model α} {c : ConstraintIndex}
    (hcoherent : ∀ v r, L.vars v = some r → r.Coherent)
    (hc : Copying m L L.variableIndices as ss map m') (hl : L.Lists as (ss ++ [c])) :
    ∃ map' m'', Modelling.copyConstraint m map c m' = .ok map' m'' ∧
      Copying m L L.variableIndices as (ss ++ [c]) map' m'' := by
  obtain ⟨hfunction, hlive⟩ := hl.single c (List.mem_append_right _ List.mem_cons_self)
  have hnew : c ∉ ss := (List.nodup_append'.1 hl.nodupSingle).2.2.symm List.mem_cons_self
  obtain ⟨function, kind, value⟩ := c
  cases hfunction
  obtain ⟨r, col, hr, hcol, hk, hf, hs⟩ := h.single_of_isValid hlive
  refine hc.copyConstraint h hl (.refl _) (List.sublist_append_left _ _)
    (by rw [h.isValid, hlive]) hf ?_ hs ?_
    (copied_addSingle h (hcoherent _ _ hr) hr hcol hk hnew) ?_
  · intro v hv
    rw [List.mem_singleton.1 hv]
    exact h.mem_variableIndices.2 (by rw [hr]; rfl)
  · obtain ⟨hlower, hupper⟩ := (h.holds hr hcol).numbers
    intro x hx
    have hin : x = col.lower ∨ x = col.upper := by
      revert hx
      cases kind <;> simp [Edit.values, Edit.bound?, Function.rename, Function.argument,
        Column.set, ScalarSet.values] <;> tauto
    rcases hin with rfl | rfl
    · exact hlower
    · exact hupper
  · simp [copies]

/-! ### All of them -/

omit [LawfulScalar α] h in
theorem Copying.start (m' : Model α) : Copying m L [] [] [] {} m'.emptied where
  named := .emptied m'
  represents := by
    have hempty : L.copied m [] [] [] = {} := by
      refine Ledger.ext rfl ?_ rfl ?_ rfl rfl rfl <;> funext k <;> simp [Ledger.copied, nth?]
    rw [hempty]
    exact .emptied m'
  vars := rfl
  constraints := rfl
  variableName v hv := by cases hv
  constraintName e he := by cases he

omit [LawfulScalar α] in
theorem Ledger.lists_listed : L.Lists (L.listed .scalarAffine) (L.listed .singleVariable) where
  affine _ hc := h.mem_listed.1 hc
  single _ hc := h.mem_listed.1 hc
  nodupAffine := L.nodup_listed _
  nodupSingle := L.nodup_listed _

/-- All variables and all constraints are copied. -/
theorem copyAll_run (hm : m.Named) (hcoherent : ∀ v r, L.vars v = some r → r.Coherent)
    (m' : Model α) : ∃ map₁ m₁ map₂ m₂,
      m.variableIndices.foldlM (Modelling.copyVariable m) {} m'.emptied = .ok map₁ m₁ ∧
      m.allConstraints.foldlM (Modelling.copyConstraint m) map₁ m₁ = .ok map₂ m₂ ∧
      Copying m L L.variableIndices (L.listed .scalarAffine) (L.listed .singleVariable)
        map₂ m₂ := by
  have hlists := Ledger.lists_listed h
  obtain ⟨map₁, m₁, hvars, h₁⟩ := foldlM_run L.variableIndices
    (fun done map m' => Copying m L done [] [] map m')
    (fun done v rest hxs map m' hc => by
      have hmem : v ∈ L.variableIndices := hxs ▸ by simp
      have hnodup := hxs ▸ L.nodup_variableIndices
      refine hc.copyVariable hm h ?_ ?_
      · rw [h.isValid]
        exact h.mem_variableIndices.1 hmem
      · exact (List.nodup_append'.1 hnodup).2.2.symm List.mem_cons_self)
    (Copying.start m')
  obtain ⟨map₂, m₂, haffine, h₂⟩ := foldlM_run (L.listed .scalarAffine)
    (fun done map m' => Copying m L L.variableIndices done [] map m')
    (fun done c rest hxs map m' hc => by
      refine hc.copyAffine h (hlists.sublist ?_ (List.nil_sublist _))
      rw [hxs]
      exact (List.Sublist.refl done).append (List.singleton_sublist.2 List.mem_cons_self))
    h₁
  obtain ⟨map₃, m₃, hsingle, h₃⟩ := foldlM_run (L.listed .singleVariable)
    (fun done map m' => Copying m L L.variableIndices (L.listed .scalarAffine) done map m')
    (fun done c rest hxs map m' hc => by
      refine hc.copySingle h hcoherent (hlists.sublist (.refl _) ?_)
      rw [hxs]
      exact (List.Sublist.refl done).append (List.singleton_sublist.2 List.mem_cons_self))
    h₂
  refine ⟨map₁, m₁, map₃, m₃, by rw [h.variableIndices, hvars], ?_, h₃⟩
  rw [h.allConstraints, List.foldlM_append, bind_run, haffine, ← hsingle]

end Steps

end MixedInteger
