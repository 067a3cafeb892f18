import MixedInteger.Proofs.Model.Reachable

/-! The kind of the objective. A model remembers as what kind its objective was set and tells that
kind ever after, while the function itself is read off its columns. A single variable stays one as
long as nothing else touches it: a coefficient, the constant or the deletion of the variable can
make it an affine function, which is still told as a single variable. -/

namespace MixedInteger

variable {α : Type} [Scalar α]

/-! ### Objectives of ledgers -/

/-- One variable with a coefficient, and no other. -/
def Terms.lone (v : VariableIndex) (x : α) : Terms α := Function.update (fun _ => none) v (some x)

namespace Ledger

/-- What is optimized, and as what it was set. -/
def objectiveParts (L : Ledger α) : Terms α × α × ObjectiveKind :=
  (L.cost, L.constant, L.objectiveKind)

variable {L L' : Ledger α}

theorem list_lone {v : VariableIndex} (hv : v ∈ L.variableIndices) (x : α) :
    L.list (Terms.lone v x) = [⟨x, v⟩] := by
  have hnodup : (L.list (Terms.lone v x)).Nodup := (L.nodup_vars_list _).of_map _
  refine List.perm_singleton.1 ((List.perm_ext_iff_of_nodup hnodup (List.nodup_singleton _)).2 ?_)
  intro t
  rw [mem_list, List.mem_singleton]
  constructor
  · rintro ⟨-, ht⟩
    by_cases heq : t.var = v
    · rw [Terms.lone, heq, Function.update_self] at ht
      cases ht
      cases heq
      rfl
    · rw [Terms.lone, Function.update_of_ne heq] at ht
      cases ht
  · rintro rfl
    exact ⟨hv, Function.update_self ..⟩

theorem objectiveParts_addConstraint {f : FunctionArg α} {s : SetArg α} {c : ConstraintIndex}
    (h : L.addConstraint f s = .ok (c, L')) : L'.objectiveParts = L.objectiveParts := by
  have hsingle : ∀ {v s}, L.addSingle v s = .ok (c, L') → L'.objectiveParts = L.objectiveParts := by
    intro v s h
    obtain ⟨p, -, h⟩ := except_bind_eq_ok.1 h
    simp only at h
    split at h
    · split_ifs at h
      cases h
      rfl
    · split at h <;> cases h
      rfl
  cases s with
  | raw x => cases f <;> cases h
  | set s =>
    cases f with
    | raw x => cases h
    | var v => exact hsingle h
    | single v => exact hsingle h
    | affine f =>
      simp only [addConstraint, addAffine] at h
      split_ifs at h
      obtain ⟨-, -, h⟩ := except_bind_eq_ok.1 h
      cases h
      rfl

theorem objectiveParts_delete {c : ConstraintIndex} (h : L.delete (.constraint c) = .ok L') :
    L'.objectiveParts = L.objectiveParts := by
  obtain ⟨function, kind, value⟩ := c
  cases function
  case singleVariable =>
    obtain ⟨r, -, h⟩ := except_bind_eq_ok.1 h
    cases h
    rfl
  case scalarAffine =>
    obtain ⟨r, -, h⟩ := except_bind_eq_ok.1 h
    cases h
    rfl
  all_goals cases h

theorem objectiveParts_setConstraintSet {i : IndexArg α} {s : SetArg α}
    (h : L.setConstraintSet i s = .ok L') : L'.objectiveParts = L.objectiveParts := by
  obtain ⟨c, -, h⟩ := except_bind_eq_ok.1 h
  split_ifs at h
  all_goals
    obtain ⟨r, -, h⟩ := except_bind_eq_ok.1 h
    cases s <;> cases h <;> rfl

theorem objectiveParts_setConstraintFunction {i : IndexArg α} {f : FunctionArg α}
    (h : L.setConstraintFunction i f = .ok L') : L'.objectiveParts = L.objectiveParts := by
  obtain ⟨c, -, h⟩ := except_bind_eq_ok.1 h
  split_ifs at h
  cases f with
  | affine f =>
    simp only at h
    split_ifs at h
    obtain ⟨r, -, h⟩ := except_bind_eq_ok.1 h
    obtain ⟨-, -, h⟩ := except_bind_eq_ok.1 h
    cases h
    rfl
  | _ => cases h

theorem objectiveParts_modifyCoefficient {i v : IndexArg α} {x : α}
    (h : L.modifyCoefficient i v x = .ok L') : L'.objectiveParts = L.objectiveParts := by
  obtain ⟨c, -, h⟩ := except_bind_eq_ok.1 h
  obtain ⟨r, -, h⟩ := except_bind_eq_ok.1 h
  obtain ⟨p, -, h⟩ := except_bind_eq_ok.1 h
  cases h
  rfl

theorem setObjective_ok {f : FunctionArg α} (h : L.setObjective f = .ok L') :
    (∃ v, (f = .var v ∨ f = .single v) ∧
      L'.objectiveParts = ((⟨[⟨1, v⟩], 0⟩ : AffineFunction α).term?, 0, .singleVariable)) ∨
    ∃ g, f = .affine g ∧ L'.objectiveParts = (g.term?, g.constant, .scalarAffine) := by
  have hset : ∀ {kind : ObjectiveKind} {g : AffineFunction α},
      L.setAffineObjective kind g = .ok L' → L'.objectiveParts = (g.term?, g.constant, kind) := by
    intro kind g hg
    obtain ⟨-, -, hg⟩ := except_bind_eq_ok.1 hg
    cases hg
    rfl
  cases f with
  | raw x => cases h
  | var v => exact .inl ⟨v, .inl rfl, hset h⟩
  | single v => exact .inl ⟨v, .inr rfl, hset h⟩
  | affine g => exact .inr ⟨g, rfl, hset h⟩

end Ledger

/-- A single variable is answered where it is the only one, with one for its coefficient and
without a constant, and was set as such. -/
theorem Represents.objective_single_iff {m : Model α} {L : Ledger α} (h : Represents m L)
    {v : VariableIndex} : m.objective = .single v ↔ L.objectiveKind = .singleVariable ∧
      (L.constant == 0) = true ∧ ∃ x, (x == 1) = true ∧ L.cost = Terms.lone v x := by
  have hlive : ∀ {u x}, L.cost u = some x → u ∈ L.variableIndices := by
    intro u x hu
    rw [h.cost] at hu
    obtain ⟨c, hc, -⟩ := Option.bind_eq_some_iff.1 hu
    obtain ⟨r, hr⟩ := h.vars_of_column hc
    exact h.mem_variableIndices.2 (by rw [hr]; rfl)
  rw [h.objective]
  constructor
  · intro hv
    obtain ⟨hkind, hconstant, x, hlist, hone⟩ := Ledger.of_objective_single hv
    refine ⟨hkind, hconstant, x, hone, funext fun u => ?_⟩
    have hterm : ∀ y, L.cost u = some y ↔ y = x ∧ u = v := fun y => by
      have hmem := L.mem_list (c := L.cost) (t := ⟨y, u⟩)
      rw [hlist, List.mem_singleton, Term.mk.injEq] at hmem
      exact ⟨fun hy => hmem.2 ⟨hlive hy, hy⟩, fun hy => (hmem.1 hy).2⟩
    by_cases hu : u = v
    · rw [hu, Terms.lone, Function.update_self, ← hu]
      exact (hterm x).2 ⟨rfl, hu⟩
    · rw [Terms.lone, Function.update_of_ne hu, Option.eq_none_iff_forall_ne_some]
      exact fun y hy => hu ((hterm y).1 hy).2
  · rintro ⟨hkind, hconstant, x, hone, hcost⟩
    have hv : v ∈ L.variableIndices :=
      hlive (x := x) (by rw [hcost, Terms.lone, Function.update_self])
    rw [Ledger.objective, hkind, hcost, Ledger.list_lone hv]
    exact if_pos (by rw [hone, hconstant]; rfl)

/-! ### Where an objective comes from -/

/-- As what kind an objective was set, and whether it was changed since without being set. -/
structure Origin where
  kind : ObjectiveKind := .scalarAffine
  changed : Bool := false
deriving DecidableEq, Repr

def FunctionArg.objectiveKind : FunctionArg α → ObjectiveKind
  | .var _ | .single _ => .singleVariable
  | _ => .scalarAffine

/-- The origin of an objective after an edit that succeeds. -/
def Origin.edited (f : Function α) (o : Origin) : Edit α → Origin
  | .setObjective f => ⟨f.objectiveKind, false⟩
  | .modifyObjectiveCoefficient .. | .modifyObjectiveConstant _ => { o with changed := true }
  | .delete (.var v) => { o with changed := o.changed || v ∈ f.vars }
  | _ => o

/-- The origin after any edit: a fault changes nothing. -/
def Origin.next (m : Model α) (o : Origin) (e : Edit α) : Origin :=
  match e.run m with
  | .ok .. => o.edited m.objective e
  | .error .. => o

/-- The origin after a history of edits. -/
def Origin.nextAll : List (Edit α) → Model α → Origin → Origin
  | [], _, o => o
  | e :: es, m, o => nextAll es (after e.run m) (o.next m e)

/-- The same, from what the history said. -/
def Origin.said : List (Edit α) → Ledger α → Origin → Origin
  | [], _, o => o
  | e :: es, L, o =>
    match L.run e with
    | .ok (_, L') => said es L' (o.edited L.objective e)
    | .error _ => said es L o

/-- A reachable model and the origin of its objective. A copy takes over the origin from its
source. -/
inductive Model.ObjectiveFrom : Model α → Origin → Prop
  | emptied (m : Model α) : m.emptied.ObjectiveFrom {}
  | edit {m : Model α} {o : Origin} (h : m.ObjectiveFrom o) {e : Edit α} (he : e.InRange) :
      ObjectiveFrom (after e.run m) (o.next m e)
  | naming {m : Model α} {o : Origin} (h : m.ObjectiveFrom o) {c : Call α} (hc : c.edit? = none) :
      (Call.after m c).ObjectiveFrom o
  | sense {m : Model α} {o : Origin} (h : m.ObjectiveFrom o) (s : ObjectiveSense) :
      (m.withSense s).ObjectiveFrom o
  | named {m : Model α} {o : Origin} (h : m.ObjectiveFrom o) (name : String) :
      ObjectiveFrom { m with problem := { m.problem with name := name } } o
  | settings {m : Model α} {o : Origin} (h : m.ObjectiveFrom o) (presolve : Bool) (method : Method)
      (stores : Parameter.Stores α) (given : List (String × Value α)) (silent : Bool) :
      ObjectiveFrom { m with
        presolve := presolve, method := method, stores := stores, given := given,
        silent := silent } o
  | basis {m : Model α} {o : Origin} (h : m.ObjectiveFrom o) (s : Solution α) :
      ObjectiveFrom { m with problem := m.problem.withBasic s } o
  | solved {m : Model α} {o : Origin} (h : m.ObjectiveFrom o) {σ : Type} (host : Host α σ)
      (callback : Option (Callback α σ)) (fuel : Nat) (session : Session α σ) :
      (after (Solving.optimize host callback fuel) ⟨session, m⟩).model.ObjectiveFrom o
  | copied {source m m' : Model α} {o : Origin} (h : source.ObjectiveFrom o) {map : IndexMap}
      (hrun : Modelling.copyFrom source m = .ok map m') : m'.ObjectiveFrom o

namespace Model.ObjectiveFrom

variable {m : Model α} {o : Origin}

theorem reachable (h : m.ObjectiveFrom o) : m.Reachable := by
  induction h with
  | emptied m => exact .emptied m
  | @edit m o _ e he ih =>
    exact ih.call (c := .edit e) fun e' he' => Option.some.inj he' ▸ he
  | naming _ hc ih => exact ih.call fun e he => by simp [hc] at he
  | sense _ s ih => exact ih.sense s
  | named _ name ih => exact ih.named name
  | settings _ presolve method stores given silent ih =>
    exact ih.settings presolve method stores given silent
  | basis _ s ih => exact ih.basis s
  | solved _ host callback fuel session ih => exact ih.solved host callback fuel session
  | copied _ hrun ih => exact ih.copied hrun

theorem edits : ∀ {es : List (Edit α)} {m : Model α} {o : Origin}, m.ObjectiveFrom o →
    (∀ e ∈ es, e.InRange) → (Edit.runAll es m).2.ObjectiveFrom (o.nextAll es m)
  | [], _, _, h, _ => h
  | e :: es, m, o, h, hes => by
    have hrest := (h.edit (hes e List.mem_cons_self)).edits fun e' he' =>
      hes e' (List.mem_cons_of_mem _ he')
    have hafter : (Edit.runAll (e :: es) m).2 = (Edit.runAll es (after e.run m)).2 := by
      rw [Edit.runAll, after]
      cases e.run m <;> rfl
    rw [hafter]
    exact hrest

end Model.ObjectiveFrom

/-- What is known of an objective by its origin. -/
structure Origin.Explains (o : Origin) (m : Model α) : Prop where
  kind : m.objectiveKind = o.kind
  single : o.kind = .singleVariable → o.changed = false → ∃ v, m.objective = .single v

/-- An edit agrees with the ledger, or has failed and changed nothing. -/
theorem Represents.run_cases [OrderedScalar α] {m : Model α} {L : Ledger α} (h : Represents m L)
    {e : Edit α} (he : e.InRange) :
    (∃ f, e.run m = .error f m ∧ L.run e = .error f) ∨
      ∃ a m' L', e.run m = .ok a m' ∧ L.run e = .ok (a, L') ∧ Represents m' L' := by
  have hagrees := h.run e he.isNaN
  generalize e.run m = x at hagrees
  generalize L.run e = y at hagrees
  cases hagrees with
  | error f => exact .inl ⟨f, rfl, rfl⟩
  | ok h' => exact .inr ⟨_, _, _, rfl, rfl, h'⟩

theorem Origin.nextAll_eq [OrderedScalar α] : ∀ {es : List (Edit α)} {m : Model α} {L : Ledger α}
    {o : Origin}, Represents m L → (∀ e ∈ es, e.InRange) → o.nextAll es m = o.said es L
  | [], _, _, _, _, _ => rfl
  | e :: es, m, L, o, h, hes => by
    have hrest : ∀ e' ∈ es, e'.InRange := fun e' he' => hes e' (List.mem_cons_of_mem _ he')
    rw [nextAll, said, next]
    obtain ⟨f, hrun, hledger⟩ | ⟨a, m', L', hrun, hledger, h'⟩ :=
      h.run_cases (hes e List.mem_cons_self)
    · simp only [after_error hrun, hrun, hledger]
      exact nextAll_eq h hrest
    · simp only [after_ok hrun, hrun, hledger, h.objective]
      exact nextAll_eq h' hrest

namespace Origin.Explains

theorem congr {o : Origin} {m m' : Model α} (h : o.Explains m)
    (hkind : m'.objectiveKind = m.objectiveKind) (hobjective : m'.objective = m.objective) :
    o.Explains m' where
  kind := hkind.trans h.kind
  single hk hc := hobjective ▸ h.single hk hc

variable [LawfulScalar α]

theorem term?_one (hone : ((1 : α) == 0) = false) (v : VariableIndex) :
    (⟨[⟨1, v⟩], 0⟩ : AffineFunction α).term? = Terms.lone v 1 := by
  funext u
  have hterm := AffineFunction.term?_eq (f := (⟨[⟨1, v⟩], 0⟩ : AffineFunction α))
    (List.nodup_singleton v) (by simpa using hone) u
  rw [hterm, termIn_cons, termIn_nil]
  by_cases hu : v = u
  · rw [if_pos hu, ← hu, Terms.lone, Function.update_self]
  · rw [if_neg hu, Terms.lone, Function.update_of_ne (Ne.symm hu)]

theorem edited (hone : ((1 : α) == 0) = false) {o : Origin} {m m' : Model α} {L L' : Ledger α}
    (hL : Represents m L) (hL' : Represents m' L') (h : o.Explains m) {e : Edit α} {a : Reply}
    (hrun : L.run e = .ok (a, L')) : (o.edited m.objective e).Explains m' := by
  have hkept (hparts : L'.objectiveParts = L.objectiveParts) : o.Explains m' := by
    obtain ⟨hcost, hconstant, hkind⟩ : L'.cost = L.cost ∧ L'.constant = L.constant ∧
        L'.objectiveKind = L.objectiveKind := by simpa [Ledger.objectiveParts] using hparts
    refine ⟨?_, fun hk hc => ?_⟩
    · rw [← hL'.objectiveKind, hkind, hL.objectiveKind, h.kind]
    · obtain ⟨v, hv⟩ := h.single hk hc
      refine ⟨v, hL'.objective_single_iff.2 ?_⟩
      rw [hcost, hconstant, hkind]
      exact hL.objective_single_iff.1 hv
  have hchanged (hkind : L'.objectiveKind = L.objectiveKind) :
      ({ o with changed := true } : Origin).Explains m' := by
    refine ⟨?_, fun _ hc => by cases hc⟩
    rw [← hL'.objectiveKind, hkind, hL.objectiveKind, h.kind]
  cases e with
  | addVariable =>
    cases hrun
    exact hkept rfl
  | addVariables n =>
    cases hrun
    exact hkept rfl
  | addConstraint f s =>
    obtain ⟨p, hp, heq⟩ := except_map_eq_ok.1 hrun
    cases heq
    exact hkept (Ledger.objectiveParts_addConstraint hp)
  | delete i =>
    obtain ⟨p, hp, heq⟩ := except_map_eq_ok.1 hrun
    cases heq
    cases i with
    | raw x => cases hp
    | constraint c => exact hkept (Ledger.objectiveParts_delete hp)
    | var v =>
      obtain ⟨q, -, hp⟩ := except_bind_eq_ok.1 hp
      cases hp
      refine ⟨?_, fun hk hc => ?_⟩
      · rw [← hL'.objectiveKind]
        exact hL.objectiveKind.trans h.kind
      · -- the variable of the objective is another one, so its cost stays
        simp only [Origin.edited, Bool.or_eq_false_iff, decide_eq_false_iff_not] at hc
        obtain ⟨w, hw⟩ := h.single hk hc.1
        have hne : w ≠ v := fun heq => hc.2 (by simp [hw, Function.vars, heq])
        obtain ⟨hkind, hconstant, x, hone, hcost⟩ := hL.objective_single_iff.1 hw
        refine ⟨w, hL'.objective_single_iff.2 ⟨hkind, hconstant, x, hone, ?_⟩⟩
        show Function.update L.cost v none = Terms.lone w x
        rw [hcost, Function.update_eq_self_iff, Terms.lone, Function.update_of_ne hne.symm]
  | setConstraintSet i s =>
    obtain ⟨p, hp, heq⟩ := except_map_eq_ok.1 hrun
    cases heq
    exact hkept (Ledger.objectiveParts_setConstraintSet hp)
  | setConstraintFunction i f =>
    obtain ⟨p, hp, heq⟩ := except_map_eq_ok.1 hrun
    cases heq
    exact hkept (Ledger.objectiveParts_setConstraintFunction hp)
  | modifyCoefficient i v x =>
    obtain ⟨p, hp, heq⟩ := except_map_eq_ok.1 hrun
    cases heq
    exact hkept (Ledger.objectiveParts_modifyCoefficient hp)
  | setObjective f =>
    obtain ⟨p, hp, heq⟩ := except_map_eq_ok.1 hrun
    cases heq
    obtain ⟨v, hf, hparts⟩ | ⟨g, rfl, hparts⟩ := Ledger.setObjective_ok hp
    all_goals
      simp only [Ledger.objectiveParts, Prod.mk.injEq] at hparts
      obtain ⟨hcost, hconstant, hkind⟩ := hparts
    · have hk : (o.edited m.objective (.setObjective f)).kind = .singleVariable := by
        rcases hf with rfl | rfl <;> rfl
      refine ⟨?_, fun _ _ => ⟨v, hL'.objective_single_iff.2 ⟨hkind, ?_, 1, ?_, ?_⟩⟩⟩
      · rw [hk, ← hL'.objectiveKind, hkind]
      · rw [hconstant]
        exact OrderedScalar.beq_refl OrderedScalar.isNaN_zero
      · exact OrderedScalar.beq_refl LawfulScalar.isNaN_one
      · rw [hcost, term?_one hone]
    · refine ⟨?_, fun hk => by cases hk⟩
      rw [← hL'.objectiveKind, hkind]
      rfl
  | modifyObjectiveCoefficient v x =>
    obtain ⟨p, hp, heq⟩ := except_map_eq_ok.1 hrun
    cases heq
    obtain ⟨q, -, hp⟩ := except_bind_eq_ok.1 hp
    cases hp
    exact hchanged rfl
  | modifyObjectiveConstant x =>
    cases hrun
    exact hchanged rfl

theorem edit (hone : ((1 : α) == 0) = false) {o : Origin} {m : Model α} (hm : m.Sound)
    (h : o.Explains m) {e : Edit α} (he : e.InRange) : (o.next m e).Explains (after e.run m) := by
  obtain ⟨L, hL, -⟩ := hm.ledger
  obtain ⟨f, hrun, -⟩ | ⟨a, m', L', hrun, hledger, hL'⟩ := hL.run_cases he
  · simp only [Origin.next, after_error hrun, hrun]
    exact h
  · simp only [Origin.next, after_ok hrun, hrun]
    exact h.edited hone hL hL' hledger

omit [LawfulScalar α] in
/-- A single variable stays one in a copy, with another identity. -/
theorem copied {o : Origin} {source copy : Model α} {map : IndexMap} (h : o.Explains source)
    (hcopy : IsCopy source copy map) : o.Explains copy where
  kind := hcopy.objectiveKind.trans h.kind
  single hk hc := by
    obtain ⟨v, hv⟩ := h.single hk hc
    have hobjective := hcopy.objective
    rw [hv, IndexMap.function] at hobjective
    obtain ⟨w, -, hw⟩ := except_bind_eq_ok.1 hobjective
    cases hcopied : copy.objective with
    | single u => exact ⟨u, rfl⟩
    | affine f =>
      rw [hcopied] at hw
      cases hw

end Origin.Explains

namespace Model.ObjectiveFrom

variable [LawfulScalar α] {m : Model α} {o : Origin}

theorem explains (hone : ((1 : α) == 0) = false) (h : m.ObjectiveFrom o) : o.Explains m := by
  induction h with
  | emptied m => exact ⟨rfl, fun hk => by cases hk⟩
  | edit h he ih => exact ih.edit hone h.reachable.sound he
  | @naming m o h c hc ih =>
    obtain ⟨L, hL, -⟩ := h.reachable.sound.ledger
    have hL' := hL.naming h.reachable.sound.named hc
    exact ih.congr (hL'.objectiveKind.symm.trans hL.objectiveKind)
      (hL'.objective.trans hL.objective.symm)
  | sense _ s ih => exact ih.congr rfl rfl
  | named _ name ih => exact ih.congr rfl rfl
  | settings _ presolve method stores given silent ih => exact ih.congr rfl rfl
  | basis _ s ih => exact ih.congr rfl rfl
  | solved h host callback fuel session ih =>
    have hsame := optimize_untouched h.reachable host callback fuel session
    exact ih.congr (congrArg (fun m => m.objectiveKind) hsame.rest) hsame.objective
  | copied h hrun ih =>
    obtain ⟨map, copy, hrun', hcopy, -⟩ := copyFrom_isCopy h.reachable _
    cases hrun.symm.trans hrun'
    exact ih.copied hcopy

end Model.ObjectiveFrom

/-! ### What is told and what is there -/

/-- The function that is answered is of the kind that is told, unless that is a single variable
and something else is left. -/
theorem Model.objective_kind_iff (m : Model α) :
    m.objective.argument.kind = m.objectiveKind.kind ↔ (m.objectiveKind = .singleVariable →
      ∃ x v, m.affineObjective.terms = [⟨x, v⟩] ∧ (x == 1) = true ∧
        (m.affineObjective.constant == 0) = true) := by
  rw [Model.objective]
  cases m.objectiveKind with
  | scalarAffine => simp [Function.argument, FunctionArg.kind, ObjectiveKind.kind]
  | singleVariable =>
    rcases m.affineObjective.terms with _ | ⟨⟨x, v⟩, _ | ⟨t, ts⟩⟩
    · simp [Function.argument, FunctionArg.kind, ObjectiveKind.kind]
    · by_cases hone : (x == 1 && m.affineObjective.constant == 0) = true
      · have hparts := Bool.and_eq_true_iff.1 hone
        simp [hparts, Function.argument, FunctionArg.kind, ObjectiveKind.kind]
      · simp only [if_neg hone]
        refine iff_of_false (by simp [Function.argument, FunctionArg.kind, ObjectiveKind.kind]) ?_
        intro hright
        obtain ⟨x', v', heq, hx, hconstant⟩ := hright trivial
        cases heq
        exact hone (Bool.and_eq_true_iff.2 ⟨hx, hconstant⟩)
    · simp [Function.argument, FunctionArg.kind, ObjectiveKind.kind]

/-- In every reachable model the kind that is told is that of the function that was set last, also
through copies. The function that is answered is of this kind if nothing has changed it since;
otherwise it is exactly if it was set as an affine function, or is one variable with one for its
coefficient and without a constant. -/
theorem objectiveKind_told [LawfulScalar α] (hone : ((1 : α) == 0) = false) {m : Model α}
    {o : Origin} (h : m.ObjectiveFrom o) :
    m.objectiveKind = o.kind ∧
      (o.changed = false → m.objective.argument.kind = m.objectiveKind.kind) ∧
      (m.objective.argument.kind = m.objectiveKind.kind ↔ (o.kind = .singleVariable →
        ∃ x v, m.affineObjective.terms = [⟨x, v⟩] ∧ (x == 1) = true ∧
          (m.affineObjective.constant == 0) = true)) := by
  have hexplains := h.explains hone
  have hiff := m.objective_kind_iff
  refine ⟨hexplains.kind, fun hc => ?_, hexplains.kind ▸ hiff⟩
  by_cases hk : o.kind = .singleVariable
  · obtain ⟨v, hv⟩ := hexplains.single hk hc
    rw [hv, hexplains.kind, hk]
    rfl
  · exact hiff.2 fun hsingle => absurd (hexplains.kind ▸ hsingle) hk

/-- A single variable as objective that moves to the place of a deleted one. -/
def movedEdits : List (Edit Float) :=
  [.addVariables 2, .setObjective (.single ⟨2⟩), .delete (.var ⟨1⟩)]

theorem objectiveKind_told_moved : ((1 : Float) == 0) = false ∧
    (Edit.runAll movedEdits (Model.emptied {})).2.ObjectiveFrom ⟨.singleVariable, false⟩ ∧
    (Edit.runAll movedEdits (Model.emptied {})).2.objectiveKind = .singleVariable := by
  have hone : ((1 : Float) == 0) = false := by decide +kernel
  have hrange : ∀ e ∈ movedEdits, e.InRange := by decide +kernel
  have h := (Model.ObjectiveFrom.emptied {}).edits hrange
  have hsaid : Origin.said movedEdits {} {} = ⟨.singleVariable, false⟩ := by decide +kernel
  rw [Origin.nextAll_eq (.emptied {}) hrange, hsaid] at h
  exact ⟨hone, h, (objectiveKind_told hone h).1⟩

/-- A single variable as objective, taken twice. -/
def doubledEdits : List (Edit Float) :=
  [.addVariable, .setObjective (.single ⟨1⟩), .modifyObjectiveCoefficient (.var ⟨1⟩) 2]

/-- Twice a variable is told as a single variable and answered as an affine function. -/
theorem objective_kind_doubled :
    (Edit.runAll doubledEdits (Model.emptied {})).2.objectiveKind.kind = .singleVariable ∧
      (Edit.runAll doubledEdits (Model.emptied {})).2.objective.argument.kind = .scalarAffine := by
  have hrange : ∀ e ∈ doubledEdits, e.InRange := by decide +kernel
  have hdoubled := (Represents.runAll doubledEdits (.emptied {}) fun e he => (hrange e he).isNaN).2
  rw [hdoubled.objective, ← hdoubled.objectiveKind]
  decide +kernel

end MixedInteger
