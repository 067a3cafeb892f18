import MixedInteger.Job.Outcome
import MixedInteger.Proofs.Job.Rows
import MixedInteger.Proofs.Model.Certificates
import MixedInteger.Proofs.Model.Listing
import MixedInteger.Proofs.Model.ReturnCodes
import MixedInteger.Proofs.Parameter.Updates
import MixedInteger.Proofs.Search.Carried

/-! The duals of an outcome. Once a solve of a model from a description has ended with a promise of
duals, the outcome can be told, and every entry for a constraint has a dual. The outcome has it
under the name of the entry, as long as no entry of the same name comes later in the order of
kinds of sets. Names of variables have to differ, but those of constraints need not, and then a
dual is lost. -/

namespace MixedInteger

variable {α σ : Type} [Scalar α]

/-! ### The order of rows -/

namespace Outcome

variable {m : Model α} {c : ConstraintIndex}

theorem mem_constraintIndices {f s : Kind} (hc : c ∈ m.constraintIndices f s) :
    c.function = f ∧ c.set = s := by
  obtain ⟨k, -, rfl⟩ := List.mem_map.1 hc
  exact ⟨rfl, rfl⟩

theorem rows_eq (m : Model α) :
    rows m = setKinds.flatMap (m.constraintIndices .scalarAffine) := by
  rw [rows, Model.allConstraints_eq, List.filter_append, List.filter_eq_self.2,
    List.filter_eq_nil_iff.2, List.append_nil]
  · intro c hc
    obtain ⟨s, -, hc⟩ := List.mem_flatMap.1 hc
    simp [(mem_constraintIndices hc).1]
  · intro c hc
    obtain ⟨s, -, hc⟩ := List.mem_flatMap.1 hc
    simp [(mem_constraintIndices hc).1]

/-- The rows are the affine constraints. -/
theorem mem_rows : c ∈ rows m ↔ ∃ e ∈ m.affine.entries,
    c = ⟨.scalarAffine, e.2.set.kind, e.1⟩ := by
  simp only [rows_eq, List.mem_flatMap, Model.constraintIndices, List.mem_map, List.mem_mergeSort,
    List.mem_filter, decide_eq_true_eq]
  constructor
  · rintro ⟨s, -, _, ⟨e, ⟨he, rfl⟩, rfl⟩, rfl⟩
    exact ⟨e, he, rfl⟩
  · rintro ⟨e, he, rfl⟩
    exact ⟨_, e.2.set.kind_mem, _, ⟨e, ⟨he, rfl⟩, rfl⟩, rfl⟩

theorem pairwise_rows (hm : m.WellFormed) : (rows m).Pairwise ConstraintIndex.before := by
  have hranks : setKinds.Pairwise fun s t => setKinds.idxOf s < setKinds.idxOf t := by decide
  rw [rows_eq]
  refine List.pairwise_flatMap.2 ⟨fun s _ => ?_, ?_⟩
  · have hsorted : ((m.affine.entries.filter fun e => e.2.set.kind = s).map (·.1)).Pairwise
        (· < ·) := hm.affine.sorted.sublist (List.filter_sublist.map _)
    unfold Model.constraintIndices
    dsimp only
    rw [List.mergeSort_of_pairwise (hsorted.imp fun h => by simpa using Nat.le_of_lt h),
      List.pairwise_map]
    exact hsorted.imp fun h => .inr ⟨rfl, Int.ofNat_lt.2 h⟩
  · refine hranks.imp fun {s t} hst c hc d hd => .inl ?_
    rwa [(mem_constraintIndices hc).2, (mem_constraintIndices hd).2]

/-! ### Duals by name -/

/-- The dual of one more row is put under its name, if it has one. -/
def putDual (m : Model α) (found : List (String × α)) (c : ConstraintIndex) :
    Except (Fault α) (List (String × α)) := do
  let name ← m.constraintName (.constraint c)
  if name.isEmpty then return found
  return setEntry name (← m.constraintDual (.constraint c)) found

/-- Rows with names and duals; what is under other names stays. -/
theorem foldlM_putDual : ∀ (cs : List ConstraintIndex) (found : List (String × α)),
    (∀ c ∈ cs, ∃ s x, m.constraintName (.constraint c) = .ok s ∧
      m.constraintDual (.constraint c) = .ok x) →
    ∃ duals, cs.foldlM (putDual m) found = .ok duals ∧
      ∀ label, (∀ c ∈ cs, m.constraintName (.constraint c) ≠ .ok label) →
        duals.lookup label = found.lookup label
  | [], found, _ => ⟨found, rfl, fun _ _ => rfl⟩
  | c :: cs, found, hall => by
    obtain ⟨hc, hcs⟩ := List.forall_mem_cons.1 hall
    obtain ⟨s, x, hname, hdual⟩ := hc
    have hput : putDual m found c = .ok (if s.isEmpty then found else setEntry s x found) := by
      rw [putDual, hname, bind_ok]
      split_ifs
      · rfl
      · rw [hdual]
        rfl
    obtain ⟨duals, hrun, hother⟩ := foldlM_putDual cs _ hcs
    refine ⟨duals, by rw [List.foldlM_cons, hput, bind_ok, hrun], fun label hlabel => ?_⟩
    obtain ⟨hne, hrest⟩ := List.forall_mem_cons.1 hlabel
    rw [hother label hrest]
    split_ifs
    · rfl
    · rw [lookup_setEntry, if_neg]
      rintro rfl
      exact hne hname

/-- The last row of a name has its dual under it. -/
theorem lookup_foldlM_putDual {cs : List ConstraintIndex}
    (hsorted : cs.Pairwise ConstraintIndex.before)
    (hall : ∀ c ∈ cs, ∃ s x, m.constraintName (.constraint c) = .ok s ∧
      m.constraintDual (.constraint c) = .ok x)
    {duals : List (String × α)} (hrun : cs.foldlM (putDual m) [] = .ok duals) (hc : c ∈ cs)
    {label : String} (hname : m.constraintName (.constraint c) = .ok label) (hne : label ≠ "")
    (hlast : ∀ d ∈ cs, m.constraintName (.constraint d) = .ok label → ¬c.before d) {x : α}
    (hdual : m.constraintDual (.constraint c) = .ok x) : duals.lookup label = some x := by
  obtain ⟨bs, as, rfl⟩ := List.append_of_mem hc
  rw [List.foldlM_append] at hrun
  obtain ⟨found, -, hrun⟩ := except_bind_eq_ok.1 hrun
  have hput : putDual m found c = .ok (setEntry label x found) := by
    rw [putDual, hname, bind_ok, if_neg (by simpa [String.isEmpty_iff] using hne), hdual]
    rfl
  rw [List.foldlM_cons, hput, bind_ok] at hrun
  obtain ⟨duals', hrun', hother⟩ := foldlM_putDual as (setEntry label x found)
    fun d hd => hall d (by simp [hd])
  cases hrun.symm.trans hrun'
  rw [hother label fun d hd hd' => hlast d (by simp [hd]) hd' ?_, lookup_setEntry, if_pos rfl]
  exact (List.pairwise_cons.1 (List.pairwise_append.1 hsorted).2.1).1 d hd

end Outcome

/-! ### The rows of a description -/

namespace Model

open Description

variable {m : Model α} {declared : Declared} {items : List (Value α)}

/-- The index of an entry is that of a row, which has its name. -/
theorem Lists.constraintAt (h : m.Lists items) (hm : m.WellFormed) {i : Nat} {item : Value α}
    (hi : items[i]? = some item) : m.isValid (.constraint (constraintAt i item)) = true ∧
      m.constraintName (.constraint (constraintAt i item)) = .ok (labelOf item) := by
  obtain ⟨info, hentry, hkind, hname⟩ := h.entry hi
  have hget : m.affine.get? (Description.constraintAt i item).value = some info :=
    hm.affine.get?_of_getElem hentry
  have hset : info.set.kind = (Description.constraintAt i item).set := hkind
  have hinfo : m.affineInfo (Description.constraintAt i item) = .ok info := by
    rw [affineInfo_eq, if_pos (by rfl), hget, Option.filter_some_pos (by simpa using hset)]
  refine ⟨?_, ?_⟩
  · show ((m.affine.get? (Description.constraintAt i item).value).map _).getD false = true
    rw [hget]
    simpa using hset
  · rw [constraintName, IndexArg.constraint?, bind_ok, if_neg Kind.noConfusion, hinfo, bind_ok,
      pure_except, hname]

/-- The dual of an entry is that of the row at its place. -/
theorem Lists.constraintDual (h : m.Lists items) (hm : m.WellFormed) {i : Nat} {item : Value α}
    (hi : items[i]? = some item) :
    m.constraintDual (.constraint (Description.constraintAt i item)) = m.rowDual (i + 1) := by
  obtain ⟨info, hentry, hkind, -⟩ := h.entry hi
  obtain ⟨r, hat⟩ := hm.rowAt_of_getElem hentry
  have hget : m.affine.get? (Description.constraintAt i item).value = some info :=
    hm.affine.get?_of_getElem hentry
  have hset : info.set.kind = (Description.constraintAt i item).set := hkind
  rw [Model.constraintDual, IndexArg.constraint?, bind_ok, if_pos (by rfl), affineInfo_eq,
    if_pos (by rfl), hget, Option.filter_some_pos (by simpa using hset), bind_ok, hat.number]

/-- Every row is that of an entry. -/
theorem Lists.exists_entry (h : m.Lists items) {c : ConstraintIndex} (hc : c ∈ Outcome.rows m) :
    ∃ (i : Nat) (item : Value α), items[i]? = some item ∧ c = Description.constraintAt i item := by
  obtain ⟨e, he, rfl⟩ := Outcome.mem_rows.1 hc
  obtain ⟨i, hi⟩ := List.mem_iff_getElem?.1 he
  have hlt : i < items.length := h.count ▸ (List.getElem?_eq_some_iff.1 hi).1
  obtain ⟨info, hentry, hkind, -⟩ := h.entry (List.getElem?_eq_getElem hlt)
  cases hi.symm.trans hentry
  exact ⟨i, _, List.getElem?_eq_getElem hlt, by rw [Description.constraintAt, hkind]⟩

theorem Lists.mem_rows (h : m.Lists items) {i : Nat} {item : Value α}
    (hi : items[i]? = some item) : Description.constraintAt i item ∈ Outcome.rows m := by
  obtain ⟨info, hentry, hkind, -⟩ := h.entry hi
  exact Outcome.mem_rows.2 ⟨_, List.mem_of_getElem? hentry, by rw [Description.constraintAt, hkind]⟩

/-! ### Solves with duals -/

/-- The last solve was none by search and promises duals, and what it says can be told. -/
structure GivesDuals (m : Model α) : Prop where
  bySearch : m.last.bySearch = false
  ray : m.last.ray = none
  certificate : ∀ y, m.last.certificate = some y → y.length = m.problem.rowCount
  known : m.solution.status.verdict?.isSome = true
  promise : m.dualStatus = .ok .feasiblePoint ∨ m.dualStatus = .ok .certificate

/-- Every affine constraint has a dual. -/
theorem GivesDuals.exists_dual (h : m.GivesDuals) (hm : m.WellFormed) {c : ConstraintIndex}
    (hc : c.function = .scalarAffine) (hlive : m.isValid (.constraint c) = true) :
    ∃ x, m.constraintDual (.constraint c) = .ok x := by
  cases hcertificate : m.last.certificate with
  | none => exact hm.answers.dual hcertificate h.bySearch c hc hlive
  | some y =>
    obtain ⟨i, k, info, r, -, hinfo, hat⟩ := hm.exists_rowAt hc hlive
    have hi : i < y.length := by
      rw [h.certificate y hcertificate]
      exact hat.place_lt
    refine ⟨y[i], ?_⟩
    rw [hat.constraintDual hc hinfo (fun hnone => nomatch hcertificate.symm.trans hnone),
      hcertificate]
    exact component_of_getElem (List.getElem?_eq_getElem hi)

/-- Every declared variable has a value. -/
theorem GivesDuals.exists_values (h : m.GivesDuals) (hm : m.Holds declared items)
    (primal : ResultStatus) : ∃ values, Outcome.valuesOf m declared primal = .ok values := by
  have hvalue : ∀ e ∈ declared, ∃ x, m.variablePrimal (.var e.2) = .ok x := by
    intro e he
    obtain ⟨k, hk, hmem⟩ := hm.live e he
    refine hm.wf.answers.value h.ray e.2 ?_
    rw [hk, isValid, hm.wf.vars.contains_eq]
    exact hm.wf.vars.mem_keys.1 hmem
  unfold Outcome.valuesOf
  split_ifs
  · exact ⟨[], rfl⟩
  · have hentry : ∀ e ∈ declared, ∃ y : String × α,
        (do return (e.1, ← m.variablePrimal (.var e.2)) : Except (Fault α) (String × α)) = .ok y ∧
          True := fun e he => by
      obtain ⟨x, hx⟩ := hvalue e he
      exact ⟨(e.1, x), by rw [hx]; rfl, trivial⟩
    obtain ⟨values, hvalues, -⟩ := exists_mapM hentry
    exact ⟨values, hvalues⟩

/-- The outcome can be told. -/
theorem GivesDuals.collect (h : m.GivesDuals) (hm : m.Holds declared items) :
    ∃ o, Outcome.collect m declared = .ok o ∧
      (Outcome.rows m).foldlM (Outcome.putDual m) [] = .ok o.duals := by
  obtain ⟨p, d, hp, hd, -⟩ := exists_statuses h.known
  obtain ⟨t, raw, ht, hraw⟩ : ∃ t raw, m.terminationStatus = .ok t ∧ m.rawStatus = .ok raw := by
    obtain ⟨v, hv⟩ := Option.isSome_iff_exists.1 h.known
    unfold terminationStatus rawStatus verdict solutionVerdict
    rw [hv]
    split_ifs <;> exact ⟨_, _, rfl, rfl⟩
  obtain ⟨values, hvalues⟩ := h.exists_values hm p
  obtain ⟨duals, hduals, -⟩ := Outcome.foldlM_putDual (Outcome.rows m) []
    fun c hc => by
      obtain ⟨i, item, hi, rfl⟩ := hm.lists.exists_entry hc
      obtain ⟨hlive, hname⟩ := hm.lists.constraintAt hm.wf hi
      obtain ⟨x, hx⟩ := h.exists_dual hm.wf rfl hlive
      exact ⟨_, x, hname, hx⟩
  have hpromise : d = .feasiblePoint ∨ d = .certificate :=
    h.promise.imp (fun hpoint => Except.ok.inj (hd.symm.trans hpoint))
      fun hcertificate => Except.ok.inj (hd.symm.trans hcertificate)
  have hdualsOf : Outcome.dualsOf m d = .ok duals := by
    rw [Outcome.dualsOf, if_pos hpromise]
    exact hduals
  unfold Outcome.collect
  rw [hp, hd, ht, hraw]
  simp only [bind_ok, hvalues, h.bySearch, hdualsOf]
  exact ⟨_, rfl, hduals⟩

end Model

namespace Solving

variable {w : Workbench α σ} {host : Host α σ} {callback : Option (Callback α σ)} {fuel : Nat}

/-- A solve that ends with a promise of duals leaves the entries of the model alone. -/
theorem optimize_gives_duals {declared : Declared} {items : List (Value α)}
    (h : w.model.Holds declared items) : Runs (optimize host callback fuel) w
      (fun _ w' => w'.model.dualStatus = .ok .feasiblePoint ∨
        w'.model.dualStatus = .ok .certificate →
          w'.model.Holds declared items ∧ w'.model.GivesDuals) fun _ => True := by
  by_cases hmixed : w.model.IsMixed
  · refine (optimize_tells_mixed hmixed).imp fun _ w' hsearch hdual => ?_
    have hby : w'.model.last.bySearch = true := by
      have halgorithm := hsearch.1
      unfold Model.algorithm at halgorithm
      split_ifs at halgorithm with hby
      · exact hby
      · cases hm : w'.model.method <;> rw [hm] at halgorithm <;> cases halgorithm
    rw [Model.dualStatus, hby] at hdual
    obtain hdual | hdual := hdual <;> cases hdual
  have hattempt : ∀ s, Runs (w.model.attempt host) s (fun r _ => ∃ b, r.1 = w.model.place b ∧
      r.2.Agrees b.status) fun _ => True := by
    intro s
    refine (((w.model.attempt_stores (offers_anything host _)).runs s).and
      (w.model.attempt_agrees host s)).imp ?_ |>.weaken fun _ _ => trivial
    rintro r _ ⟨⟨b, hb, -⟩, hagrees⟩
    exact ⟨b, hb, hagrees b hb⟩
  refine (optimize_settles hmixed (S := fun code b => code.Agrees b.status) hattempt
    (R := fun _ => True) (C := fun y => y.length = w.model.problem.rowCount)
    (fun _ _ _ _ _ => .anything) fun code b _ _ s => ?_).imp ?_
  · have hrows : (w.model.place b).rowCount = w.model.problem.rowCount := by
      unfold Model.place
      cases w.model.method <;> rfl
    rw [← hrows]
    exact (infeasibilityRay_keeps host _).runs s
  rintro _ w' ⟨code, b, ray, certificate, seconds, hagrees, hray, hcertificate, hw'⟩ hdual
  have hsolution : (w.model.settled code b ray certificate seconds).solution = b :=
    Model.solution_place b rfl
  have hknown : w'.model.solution.status.verdict?.isSome = true := by
    rw [hw', hsolution]
    exact hagrees.known
  have hproblem : (w.model.place b).columns = w.model.problem.columns ∧
      (w.model.place b).rows = w.model.problem.rows := by
    unfold Model.place
    cases w.model.method <;> exact ⟨rfl, rfl⟩
  -- a promise of duals and one of a ray do not go together
  have hnoray : ray = none := by
    obtain ⟨p, d, hp, hd, -, -, hpoint, hapart⟩ := Model.exists_statuses hknown
    rw [← Option.not_isSome_iff_eq_none, hray.isSome, hp]
    rintro ⟨⟩
    rw [hd] at hdual
    obtain ⟨⟨⟩⟩ | ⟨⟨⟩⟩ := hdual
    · cases (hpoint rfl).2
    · exact hapart ⟨rfl, rfl⟩
  subst hnoray
  refine ⟨h.congr ?_ ?_, ⟨?_, ?_, ?_, hknown, hdual⟩⟩
  · rw [hw']
    exact h.wf.congr rfl rfl (congrArg List.length hproblem.1) hproblem.2
  · rw [hw']
    exact ⟨rfl, rfl⟩
  · rw [hw']
    rfl
  · rw [hw']
    rfl
  · rw [hw']
    intro y hy
    rw [hcertificate.holds y hy]
    exact congrArg List.length hproblem.2.symm

end Solving

open Description

/-- The outcome can be told, with the duals of entries under their names. -/
theorem Model.GivesDuals.exists_outcome {m : Model α} {declared : Declared} {items : List (Value α)}
    (h : m.GivesDuals) (hm : m.Holds declared items) : ∃ o, Outcome.collect m declared = .ok o ∧
      (∀ (i : Nat) (item : Value α), items[i]? = some item → labelOf item ≠ "" →
        ∃ x, m.constraintDual (.constraint (constraintAt i item)) = .ok x ∧
          ((∀ (j : Nat) (other : Value α), items[j]? = some other →
            labelOf other = labelOf item →
              ¬(constraintAt i item).before (constraintAt j other)) →
            o.duals.lookup (labelOf item) = some x)) ∧
      ∀ label, (∀ item ∈ items, labelOf item ≠ label) → o.duals.lookup label = none := by
  obtain ⟨o, ho, hduals⟩ := h.collect hm
  have hname : ∀ {i : Nat} {item : Value α}, items[i]? = some item →
      m.constraintName (.constraint (constraintAt i item)) = .ok (labelOf item) :=
    fun hi => (hm.lists.constraintAt hm.wf hi).2
  have hdual : ∀ {i : Nat} {item : Value α}, items[i]? = some item →
      ∃ x, m.constraintDual (.constraint (constraintAt i item)) = .ok x :=
    fun hi => h.exists_dual hm.wf rfl (hm.lists.constraintAt hm.wf hi).1
  have hall : ∀ c ∈ Outcome.rows m, ∃ s x, m.constraintName (.constraint c) = .ok s ∧
      m.constraintDual (.constraint c) = .ok x := by
    intro c hc
    obtain ⟨i, item, hi, rfl⟩ := hm.lists.exists_entry hc
    obtain ⟨x, hx⟩ := hdual hi
    exact ⟨_, x, hname hi, hx⟩
  refine ⟨o, ho, fun i item hi hne => ?_, fun label hlabel => ?_⟩
  · obtain ⟨x, hx⟩ := hdual hi
    refine ⟨x, hx, fun hlast => ?_⟩
    refine Outcome.lookup_foldlM_putDual (Outcome.pairwise_rows hm.wf) hall hduals
      (hm.lists.mem_rows hi) (hname hi) hne (fun d hd hd' => ?_) hx
    obtain ⟨j, other, hj, rfl⟩ := hm.lists.exists_entry hd
    exact hlast j other hj (Except.ok.inj ((hname hj).symm.trans hd'))
  · obtain ⟨duals, hduals', hother⟩ := Outcome.foldlM_putDual _ [] hall
    cases hduals.symm.trans hduals'
    refine hother label fun c hc hlabel' => ?_
    obtain ⟨j, other, hj, rfl⟩ := hm.lists.exists_entry hc
    exact hlabel other (List.mem_of_getElem? hj) (Except.ok.inj ((hname hj).symm.trans hlabel'))

/-- Once a solve of a model that was built from a description ends with a promise of duals, its
outcome can be told. Every entry for a constraint has a dual, and the outcome has it under the name
of the entry, when no entry of that name comes after it in the order of kinds and places. Under what
is no name of an entry there is nothing. -/
theorem duals_by_name [OrderedScalar α] {v : Value α} {m₀ m : Model α} {declared : Declared}
    (hbuild : build v m₀ = .ok declared m) {host : Host α σ} {callback : Option (Callback α σ)}
    {fuel : Nat} {session : Session α σ} {w : Workbench α σ}
    (hrun : Solving.optimize host callback fuel ⟨session, m⟩ = .ok () w)
    (hdual : w.model.dualStatus = .ok .feasiblePoint ∨ w.model.dualStatus = .ok .certificate) :
    ∃ o, Outcome.collect w.model declared = .ok o ∧
      (∀ (i : Nat) (item : Value α), (entriesUnder v "constraints")[i]? = some item →
        labelOf item ≠ "" →
        ∃ x, w.model.constraintDual (.constraint (constraintAt i item)) = .ok x ∧
          ((∀ (j : Nat) (other : Value α), (entriesUnder v "constraints")[j]? = some other →
            labelOf other = labelOf item →
              ¬(constraintAt i item).before (constraintAt j other)) →
            o.duals.lookup (labelOf item) = some x)) ∧
      ∀ label, (∀ item ∈ entriesUnder v "constraints", labelOf item ≠ label) →
        o.duals.lookup label = none := by
  have hbuilt : m.Holds declared (entriesUnder v "constraints") := (build_holds v m₀).ok hbuild
  obtain ⟨hm, hgives⟩ := (Solving.optimize_gives_duals (w := ⟨session, m⟩) hbuilt).ok hrun hdual
  exact hgives.exists_outcome hm

/-! ### Two rows of one name -/

namespace Description

/-- Building, part by part. -/
theorem build_run {m₀ : Model α} (m₁ m₂ : Model α) {m₃ : Model α} {v : Value α}
    {es : List (Value α × Value α)} (hv : v = .map es)
    {xs cs : List (Value α)} (hxs : ∀ m : Model α, entries (v.field "variables") m = .ok xs m)
    (hcs : ∀ m : Model α, entries (v.field "constraints") m = .ok cs m) {declared : Declared}
    (hdeclare : xs.zipIdx.foldlM (fun declared e => declare declared e.2 e.1) []
      { m₀.emptied with problem :=
        { m₀.emptied.problem with name := (v.fieldOr "name" (.text "")).shown } } =
          .ok declared m₁)
    (hrows : (ForIn.forIn cs.zipIdx PUnit.unit (fun (item, i) _ => do
        addRow declared i item
        pure (ForInStep.yield PUnit.unit)) : Modelling α PUnit) m₁ = .ok () m₂)
    (hobjective : buildObjective declared v m₂ = .ok () m₃) : build v m₀ = .ok declared m₃ := by
  subst hv
  simp only [build, bind_run, modify_run, hxs, hdeclare, hcs, hrows, hobjective, pure_run]

open Modelling Extended

/-- A comparison of the variable, under the one name. -/
def compared (sense : String) (rhs : Int) : List (Value Extended × Value Extended) :=
  [(.text "name", .text "c"), (.text "terms", .map [(.text "x", .int 1)]),
    (.text "sense", .text sense), (.text "rhs", .int rhs)]

/-- The least value that is at least one and at most five. -/
def squeezed : Value Extended := .map [
  (.text "variables", .list [.map [(.text "name", .text "x")]]),
  (.text "constraints", .list [.map (compared ">=" 1), .map (compared "<=" 5)]),
  (.text "objective", .map [(.text "terms", .map [(.text "x", .int 1)])])]

/-- The variable. -/
def named : Model Extended := lone.withVariableName 0 1 { index := ⟨1⟩, column := 1 } "x"

/-- With one more row over it, after `i` others. -/
def walled (m : Model Extended) (i : Nat) (s : ScalarSet Extended)
    (b : BoundKind × Extended × Extended) : Model Extended :=
  (m.withRow s (({ coefs := [(1, 1)] } : Row Extended).within b)).withRowName i (i + 1)
    ⟨i + 1, s, ""⟩ "c"

theorem setVariableName_lone : setVariableName (.var ⟨1⟩) "x" lone = .ok () named :=
  setVariableName_run lone_wellFormed (i := 0) (k := 1) (c := {}) ⟨rfl, rfl, rfl, rfl⟩ "x"

theorem named_wellFormed : named.WellFormed :=
  (lone_wellFormed.setVariableName_atomic (.var ⟨1⟩) "x").ok setVariableName_lone

theorem named_info : named.vars.get? 1 = some { index := ⟨1⟩, column := 1, name := "x" } := by
  have hinfo : lone.vars.get? 1 = some { index := ⟨1⟩, column := 1 } :=
    lone_wellFormed.vars.get?_of_getElem (i := 0) rfl
  exact (lone_wellFormed.vars.get?_modify 1 _ 1).trans (by rw [if_pos rfl, hinfo]; rfl)

theorem declare_squeezed :
    declare [] 0 (.map [(.text "name", .text "x")]) (Model.emptied {}) =
      .ok [("x", ⟨1⟩)] named := by
  have hadd : addVariable (Model.emptied {}) = .ok ⟨1⟩ lone :=
    addVariable_run (Model.WellFormed.emptied ({} : Model Extended))
  show (do
    let v ← addVariable
    setVariableName (.var v) "x"
    addBounds v (.map [(.text "name", .text "x")])
    return [("x", v)] : Modelling Extended Declared) (Model.emptied {}) = _
  simp only [bind_run, hadd, setVariableName_lone]
  rfl

/-- An entry over the variable becomes a row. -/
theorem addRow_squeezed {m : Model Extended} (hm : m.WellFormed) (hvars : m.vars = named.vars)
    {i : Nat} (hsize : m.affine.size = i) (hlast : m.affine.last = i)
    (es : List (Value Extended × Value Extended)) (set : Extended → ScalarSet Extended)
    {x : Extended} {b : BoundKind × Extended × Extended}
    (hset : rowSet? ((Value.map es).fieldOr "sense" (.text "<=")).shown = some set)
    (hterms : (Value.map es).field "terms" = .map [(.text "x", .int 1)])
    (hrhs : number ((Value.map es).fieldOr "rhs" (.real 0)) m = .ok x m)
    (hname : (Value.map es).field "name" = .text "c")
    (hrow : (set x).isRow = true) (hb : (set x).rowBound? = some b) :
    addRow [("x", ⟨1⟩)] i (.map es) m = .ok () (walled m i (set x) b) ∧
      (walled m i (set x) b).WellFormed ∧ (walled m i (set x) b).affine.size = i + 1 ∧
        (walled m i (set x) b).affine.last = i + 1 := by
  have hread : terms [("x", ⟨1⟩)] (.constraint ((Value.map es).fieldOr "name" (.text s!"#{i}")))
      (.map [(.text "x", .int 1)]) m = .ok [⟨1, ⟨1⟩⟩] m := rfl
  have hcanonical : (⟨[⟨1, ⟨1⟩⟩], 0⟩ : AffineFunction Extended).canonical.terms = [⟨1, ⟨1⟩⟩] :=
    AffineFunction.canonical_single rfl _ _
  have hlive : m.firstDead (⟨[⟨1, ⟨1⟩⟩], 0⟩ : AffineFunction Extended).canonical.terms = none := by
    rw [hcanonical]
    simp [Model.firstDead, hvars, named_info]
  have hcoefs : m.coefsOf ⟨[⟨1, ⟨1⟩⟩], 0⟩ = [(1, 1)] := by
    simp [Model.coefsOf, hcanonical, hvars, named_info]
  have hadd := addAffineConstraint_run hm (f := ⟨[⟨1, ⟨1⟩⟩], 0⟩) rfl hlive hb
  have hfits := hm.fits_coefsOf (⟨[⟨1, ⟨1⟩⟩], 0⟩ : AffineFunction Extended) {}
  have hwf : (m.withRow (set x) (({ coefs := m.coefsOf ⟨[⟨1, ⟨1⟩⟩], 0⟩ } : Row Extended).within
      b)).WellFormed := hm.withRow hb ⟨hfits.nodup, hfits.range, hfits.nonzero⟩
  rw [hcoefs] at hadd hwf
  have hentry : (m.withRow (set x) (({ coefs := [(1, 1)] } : Row Extended).within
      b)).affine.entries[i]? = some (i + 1, ⟨i + 1, set x, ""⟩) := by
    simp [Model.withRow, Registry.add, hlast, hsize, ← show m.affine.entries.length = i from hsize]
  obtain ⟨row, hat⟩ := hwf.rowAt_of_getElem hentry
  have hsetname := setConstraintName_affine_run hwf hat "c"
  have haffine : (walled m i (set x) b).affine = (m.affine.add ⟨i + 1, set x, "c"⟩).1 := by
    have hnamed := hm.affine.modify_add ⟨i + 1, set x, ""⟩ fun info => { info with name := "c" }
    rw [hlast] at hnamed
    simpa only [walled, Model.withRowName, Model.withConstraint, Model.withRowAt, Model.withRow,
      hsize] using hnamed
  refine ⟨?_, hwf.withRowName hat "c", ?_, ?_⟩
  · rw [addRow_map]
    rw [hlast] at hadd
    simp only [hset, hterms, bind_run, hread, hrhs, addConstraint, hrow, if_true, hadd, hname]
    exact hsetname
  · rw [haffine, Registry.add, Registry.size, List.length_append, ← hsize]
    rfl
  · rw [haffine, ← hlast]
    rfl

/-- The model of the description, without its objective. -/
def between : Model Extended :=
  walled (walled named 0 (.greaterThan (rat 1)) (.lower, rat 1, top)) 1 (.lessThan (rat 5))
    (.upper, bottom, rat 5)

def twin : Model Extended :=
  (between.withObjective ⟨[⟨1, ⟨1⟩⟩], 0⟩ .scalarAffine).withSense .minimize

theorem build_squeezed : build squeezed (Model.emptied {}) = .ok [("x", ⟨1⟩)] twin := by
  obtain ⟨hfirst, hwf, hsize, hlast⟩ := addRow_squeezed named_wellFormed rfl (i := 0) rfl rfl
    (compared ">=" 1) .greaterThan (x := rat 1) (b := (.lower, rat 1, top)) rfl rfl rfl rfl rfl rfl
  obtain ⟨hsecond, hwf, -⟩ := addRow_squeezed hwf rfl (i := 1) hsize hlast
    (compared "<=" 5) .lessThan (x := rat 5) (b := (.upper, bottom, rat 5)) rfl rfl rfl rfl rfl rfl
  have hlive : between.firstDead [⟨1, ⟨1⟩⟩] = none := by
    simp [Model.firstDead, show between.vars = named.vars from rfl, named_info]
  have hobjective : setObjective (.affine ⟨[⟨1, ⟨1⟩⟩], 0⟩) between = .ok () _ :=
    setAffineObjective_run hwf (f := ⟨[⟨1, ⟨1⟩⟩], 0⟩) hlive .scalarAffine
  have hlast : buildObjective [("x", ⟨1⟩)] squeezed between = .ok () twin := by
    show (do
      setObjective (.affine ⟨[⟨1, ⟨1⟩⟩], 0⟩)
      setObjectiveSense .minimize : Modelling Extended Unit) between = _
    rw [bind_run, hobjective]
    rfl
  refine build_run named between rfl (fun _ => rfl) (fun _ => rfl) ?_ ?_ hlast
  · show (declare [] 0 (.map [(.text "name", .text "x")]) >>= pure) (Model.emptied {}) = _
    rw [bind_run, declare_squeezed]
    rfl
  · simp only [List.zipIdx_cons, List.zipIdx_nil, Nat.zero_add, List.forIn_cons, List.forIn_nil,
      bind_run, pure_run, hfirst, hsecond]
    rfl

/-- The same model, with its costs written out. -/
def priced : Model Extended :=
  { twin with problem := { between.problem with
      columns := List.zipWith (fun c cost => { c with cost := cost }) between.problem.columns
        [(⟨[⟨1, ⟨1⟩⟩], 0⟩ : AffineFunction Extended).coefficient ⟨1⟩]
      constant := 0
      direction := .minimize } }

theorem twin_eq : twin = priced := by
  have hkeys : between.vars.keys = [1] := Registry.keys_modify lone.vars 1 _
  unfold priced twin Model.withObjective
  rw [hkeys]
  rfl

/-- The least value is one, and only the first row keeps it from falling. -/
def atOne : Answer Extended where
  point := [rat 1]
  value := rat 1
  ubMarginals := [rat (-1), rat 0]
  eqMarginals := []
  lowerMarginals := [rat 0]
  upperMarginals := [rat 0]

/-- The answer is found, and the rows have different duals. -/
theorem optimize_twin : ∃ w, Solving.optimize (Host.steady atOne) none 0 ⟨⟨(), #[]⟩, twin⟩ =
    .ok () w ∧ w.model.dualStatus = .ok .feasiblePoint ∧ w.model.rowDual 1 ≠ w.model.rowDual 2 := by
  rw [twin_eq]
  obtain ⟨_, w, hrun, -⟩ := exists_of_passes
    (x := Solving.optimize (Host.steady (σ := Unit) atOne) none 0) (s := ⟨⟨(), #[]⟩, priced⟩)
    (fun _ => true) (by decide +kernel)
  have hstatus : (after (Solving.optimize (Host.steady (σ := Unit) atOne) none 0)
      ⟨⟨(), #[]⟩, priced⟩).model.dualStatus.toOption = some .feasiblePoint := by decide +kernel
  have hduals : ((after (Solving.optimize (Host.steady (σ := Unit) atOne) none 0)
      ⟨⟨(), #[]⟩, priced⟩).model.rowDual 1).toOption.map (·.value) ≠
    ((after (Solving.optimize (Host.steady (σ := Unit) atOne) none 0)
      ⟨⟨(), #[]⟩, priced⟩).model.rowDual 2).toOption.map (·.value) := by decide +kernel
  rw [after_ok hrun] at hstatus hduals
  exact ⟨w, hrun, ok_of_toOption hstatus, fun hsame => hduals (by rw [hsame])⟩

/-- At most five comes after at least one. -/
theorem squeezed_last {j : Nat} {other : Value Extended}
    (hj : (entriesUnder squeezed "constraints")[j]? = some other) :
    ¬(constraintAt 1 (.map (compared "<=" 5))).before (constraintAt j other) := by
  match j, hj with
  | 0, hj =>
    cases hj
    rintro (h | ⟨h, -⟩)
    · exact absurd h (by decide)
    · exact absurd h (by decide)
  | 1, hj =>
    cases hj
    exact ConstraintIndex.before_irrefl _
  | _ + 2, hj => cases hj

end Description

/-- The second entry is told. -/
theorem duals_by_name_squeezed : ∃ declared m w o,
    build squeezed (Model.emptied {}) = .ok declared m ∧
      Solving.optimize (Host.steady atOne) none 0 ⟨⟨(), #[]⟩, m⟩ = .ok () w ∧
      Outcome.collect w.model declared = .ok o ∧
      ∃ x, w.model.constraintDual (.constraint (constraintAt 1 (.map (compared "<=" 5)))) = .ok x ∧
        o.duals.lookup "c" = some x := by
  obtain ⟨w, hrun, hdual, -⟩ := optimize_twin
  obtain ⟨o, ho, hentries, -⟩ := duals_by_name build_squeezed hrun (.inl hdual)
  obtain ⟨x, hx, hlast⟩ := hentries 1 (.map (compared "<=" 5)) rfl (by decide)
  exact ⟨_, _, w, o, build_squeezed, hrun, ho, x, hx, hlast fun j other hj _ => squeezed_last hj⟩

/-- The first entry is lost. -/
theorem dual_lost : ∃ declared m w o,
    build squeezed (Model.emptied {}) = .ok declared m ∧
      Solving.optimize (Host.steady atOne) none 0 ⟨⟨(), #[]⟩, m⟩ = .ok () w ∧
      w.model.dualStatus = .ok .feasiblePoint ∧ Outcome.collect w.model declared = .ok o ∧
      ∃ i item x, (entriesUnder squeezed "constraints")[i]? = some item ∧ labelOf item ≠ "" ∧
        w.model.constraintDual (.constraint (constraintAt i item)) = .ok x ∧
        o.duals.lookup (labelOf item) ≠ some x := by
  obtain ⟨w, hrun, hdual, hne⟩ := optimize_twin
  have hbuilt := (build_holds squeezed (Model.emptied {})).ok build_squeezed
  obtain ⟨hm, hgives⟩ := (Solving.optimize_gives_duals (w := ⟨⟨(), #[]⟩, twin⟩) hbuilt).ok hrun
    (.inl hdual)
  obtain ⟨o, ho, hentries, -⟩ := hgives.exists_outcome hm
  obtain ⟨x, hx, -⟩ := hentries 0 (.map (compared ">=" 1)) rfl (by decide)
  obtain ⟨y, hy, hlast⟩ := hentries 1 (.map (compared "<=" 5)) rfl (by decide)
  have hlookup : o.duals.lookup "c" = some y := hlast fun j other hj _ => squeezed_last hj
  refine ⟨_, _, w, o, build_squeezed, hrun, hdual, ho, 0, _, x, rfl, by decide, hx, ?_⟩
  intro hfound
  cases hlookup.symm.trans hfound
  rw [hm.lists.constraintDual hm.wf rfl] at hx hy
  exact hne (hx.trans hy.symm)

end MixedInteger
