import MixedInteger.Proofs.Model.Copied
import MixedInteger.Proofs.Model.Restoration
import MixedInteger.Proofs.Number.DoubleParts

/-! Models that can be reached, and what holds of every one of them. A model starts out empty
and is changed by calls that succeed or fail, by settings, by solves and by being copied to.
Bounds of variables are infinite on their own side or in the range of numbers; nothing is
asked of coefficients. Solving a reachable model leaves it as it was. A copy and its source are
the same model up to the identities of variables and constraints, and the copy of a copy keeps
even these. -/

namespace MixedInteger

variable {α σ : Type} [Scalar α]

/-! ### Copies -/

/-- Pairs of old and new identities: each live old one has one new identity, each live new
one belongs to one old one, and nothing else occurs. -/
structure OneToOne {β : Type} (pairs : List (β × β)) (old new : β → Bool) : Prop where
  functional : (pairs.map (·.1)).Nodup
  injective : (pairs.map (·.2)).Nodup
  domain : ∀ b, b ∈ pairs.map (·.1) ↔ old b = true
  range : ∀ b, b ∈ pairs.map (·.2) ↔ new b = true

/-- The copy says what the source says, with other identities. Sets hold the same or equal
numbers. -/
structure IsCopy (source copy : Model α) (map : IndexMap) : Prop where
  vars : OneToOne map.vars (fun v => source.isValid (.var v)) fun v => copy.isValid (.var v)
  constraints : OneToOne map.constraints (fun c => source.isValid (.constraint c))
    fun c => copy.isValid (.constraint c)
  kinds : ∀ e ∈ map.constraints, e.2.function = e.1.function ∧ e.2.set = e.1.set
  variableName : ∀ e ∈ map.vars, ∃ name, source.variableName (.var e.1) = .ok name ∧
    copy.variableName (.var e.2) = .ok name
  constraintName : ∀ e ∈ map.constraints, ∃ name,
    source.constraintName (.constraint e.1) = .ok name ∧
      copy.constraintName (.constraint e.2) = .ok name
  constraintFunction : ∀ e ∈ map.constraints, ∃ f g,
    source.constraintFunction (.constraint e.1) = .ok f ∧
      copy.constraintFunction (.constraint e.2) = .ok g ∧ map.function f = .ok g.argument
  constraintSet : ∀ e ∈ map.constraints, ∃ s t,
    source.constraintSet (.constraint e.1) = .ok s ∧
      copy.constraintSet (.constraint e.2) = .ok t ∧ (t = s ∨ t.same s = true)
  objective : map.function source.objective = .ok copy.objective.argument
  objectiveKind : copy.objectiveKind = source.objectiveKind
  objectiveSense : copy.objectiveSense = source.objectiveSense
  name : copy.problem.name = source.problem.name

/-! ### The copy is one -/

section
variable {m d : Model α} {L : Ledger α} {map : IndexMap} (h : Represents m L)
  (hd : Copied m L map d)
include h hd

theorem Copied.vars_oneToOne :
    OneToOne map.vars (fun v => m.isValid (.var v)) fun v => d.isValid (.var v) := by
  obtain ⟨cost, constant, hrepr⟩ := hd.represents
  have hfst : map.vars.map (·.1) = L.variableIndices := by
    rw [hd.vars, List.map_map]
    exact List.map_id _
  have hsnd : map.vars.map (·.2) = L.variableIndices.map (recount L.variableIndices) := by
    rw [hd.vars, List.map_map]
    rfl
  have hindices := copied_variableIndices h (L.listed .scalarAffine) (L.listed .singleVariable)
  refine ⟨hfst ▸ L.nodup_variableIndices, ?_, fun v => ?_, fun w => ?_⟩
  · rw [hsnd, ← hindices]
    exact Ledger.nodup_variableIndices _
  · rw [hfst, h.mem_variableIndices, h.isValid]
    rfl
  · rw [hsnd, ← hindices, hrepr.isValid]
    exact hrepr.mem_variableIndices

theorem Copied.constraints_oneToOne : OneToOne map.constraints
    (fun c => m.isValid (.constraint c)) fun c => d.isValid (.constraint c) := by
  obtain ⟨cost, constant, hrepr⟩ := hd.represents
  have hlists := Ledger.lists_listed h
  have hfst : map.constraints.map (·.1) = L.listed .scalarAffine ++ L.listed .singleVariable := by
    rw [hd.constraints, copies, List.map_append, List.map_map, List.map_map]
    congr 1
    · exact List.zipIdx_map_fst 0 _
    · exact List.map_id _
  refine ⟨?_, ?_, fun c => ?_, fun c => ?_⟩
  · rw [hfst, List.nodup_append']
    refine ⟨L.nodup_listed _, L.nodup_listed _, fun c ha hs => ?_⟩
    have hfunction := (hlists.affine c ha).1
    rw [(hlists.single c hs).1] at hfunction
    cases hfunction
  · rw [hd.constraints]
    exact nodup_copies h hlists
  · rw [hfst]
    exact h.mem_listed_append
  · rw [hd.constraints, hrepr.isValid, List.mem_map]
    exact (isValid_copied h hlists c).symm

variable [OrderedScalar α]

/-- What is asked about a constraint has the answer of the source. -/
theorem Copied.constraint_answers (hcoherent : ∀ v r, L.vars v = some r → r.Coherent)
    {c c' : ConstraintIndex} (hc : (c, c') ∈ map.constraints) :
    (c'.function = c.function ∧ c'.set = c.set) ∧
      (∃ f g, m.constraintFunction (.constraint c) = .ok f ∧
        d.constraintFunction (.constraint c') = .ok g ∧ map.function f = .ok g.argument) ∧
      ∃ s t, m.constraintSet (.constraint c) = .ok s ∧
        d.constraintSet (.constraint c') = .ok t ∧ (t = s ∨ t.same s = true) := by
  obtain ⟨cost, constant, hrepr⟩ := hd.represents
  have hlists := Ledger.lists_listed h
  have hlive : ((L.copied m L.variableIndices (L.listed .scalarAffine)
      (L.listed .singleVariable)).withObjective cost constant L.objectiveKind).isValid
        (.constraint c') = true :=
    (isValid_copied h hlists c').2 ⟨_, hd.constraints ▸ hc, rfl⟩
  rw [hd.constraints] at hc
  rcases mem_copies.1 hc with ⟨i, hi, rfl⟩ | ⟨hmem, rfl⟩
  · -- an affine constraint
    obtain ⟨hfunction, hold⟩ := hlists.affine c (List.mem_of_getElem? hi)
    obtain ⟨r, hr, hk, hf, hs⟩ := h.affine_of_isValid hfunction hold
    obtain ⟨r', hr', -, hf', hs'⟩ :=
      hrepr.affine_of_isValid (c := ⟨.scalarAffine, c.set, (i + 1 : Nat)⟩) rfl hlive
    cases hr'.symm.trans (copied_affine (m := m) hi hr L.variableIndices
      (L.listed .singleVariable))
    refine ⟨⟨hfunction.symm, rfl⟩, ⟨_, _, hf, hf', ?_⟩, _, _, hs, hs', .inl rfl⟩
    rw [IndexMap.function_eq hd.vars, list_recount]
    · rfl
    · exact copied_variableIndices h (L.listed .scalarAffine) (L.listed .singleVariable)
    · intro v hv
      obtain ⟨t, ht, rfl⟩ := List.mem_map.1 hv
      exact (Ledger.mem_list.1 ht).1
  · -- a set of a single variable
    obtain ⟨hfunction, hold⟩ := hlists.single c hmem
    obtain ⟨function, kind, value⟩ := c
    cases hfunction
    obtain ⟨r, col, hr, hcol, hk, hf, hs⟩ := h.single_of_isValid hold
    obtain ⟨r', col', hr', hcol', hk', hf', hs'⟩ := hrepr.single_of_isValid hlive
    have hv : (⟨value⟩ : VariableIndex) ∈ L.variableIndices :=
      h.mem_variableIndices.2 (by rw [hr]; rfl)
    cases hr'.symm.trans
      (copied_vars hv hr hcol (L.listed .scalarAffine) (L.listed .singleVariable))
    have hread := (hcoherent _ _ hr).read (h.holds hr hcol)
      fun k => ⟨.singleVariable, k, value⟩ ∈ L.listed .singleVariable
    have hsame := (hrepr.holds hr' hcol').set_same hread hk'
    rw [VariableRecord.set_read (by simpa using hk')] at hsame
    refine ⟨⟨rfl, rfl⟩, ⟨_, _, hf, hf', ?_⟩, _, _, hs, hs', .inr hsame⟩
    exact IndexMap.function_eq hd.vars fun v hv' => by rwa [List.mem_singleton.1 hv']

theorem Copied.isCopy (hm : m.Named) (hcoherent : ∀ v r, L.vars v = some r → r.Coherent) :
    IsCopy m d map where
  vars := hd.vars_oneToOne h
  constraints := hd.constraints_oneToOne h
  kinds _ he := (hd.constraint_answers h hcoherent he).1
  variableName := by
    rintro ⟨v, w⟩ he
    have hv := ((hd.vars_oneToOne h).domain v).1 (List.mem_map_of_mem he)
    have hw := ((hd.vars_oneToOne h).range w).1 (List.mem_map_of_mem he)
    refine ⟨_, Model.variableName_eq hv hm.wf.vars, ?_⟩
    rw [Model.variableName_eq hw hd.named.wf.vars]
    rw [hd.vars] at he
    obtain ⟨u, hu, heq⟩ := List.mem_map.1 he
    cases heq
    rw [hd.variableName v hu]
  constraintName := by
    rintro ⟨c, c'⟩ he
    have hc := ((hd.constraints_oneToOne h).domain c).1 (List.mem_map_of_mem he)
    have hc' := ((hd.constraints_oneToOne h).range c').1 (List.mem_map_of_mem he)
    refine ⟨_, Model.constraintName_eq hc, ?_⟩
    rw [Model.constraintName_eq hc', hd.constraintName _ he]
  constraintFunction _ he := (hd.constraint_answers h hcoherent he).2.1
  constraintSet _ he := (hd.constraint_answers h hcoherent he).2.2
  objective := by
    rw [hd.objective, h.objective]
    exact IndexMap.function_eq hd.vars fun v hv => Ledger.mem_vars_objective hv
  objectiveKind := by
    obtain ⟨cost, constant, hrepr⟩ := hd.represents
    rw [← hrepr.objectiveKind, ← h.objectiveKind]
    rfl
  objectiveSense := hd.sense
  name := hd.name

omit hd in
/-- What a copy says is in range again. -/
theorem Ledger.coherent_copied (hcoherent : ∀ v r, L.vars v = some r → r.Coherent)
    (vs : List VariableIndex) (as ss : List ConstraintIndex) :
    ∀ w q, (L.copied m vs as ss).vars w = some q → q.Coherent := by
  intro w q hq
  obtain ⟨v, -, hq⟩ := Option.bind_eq_some_iff.1 hq
  obtain ⟨r, hr, hq⟩ := Option.bind_eq_some_iff.1 hq
  obtain ⟨c, hc, rfl⟩ := Option.map_eq_some_iff.1 hq
  exact (hcoherent v r hr).read (h.holds hr hc) _

end

/-! ### Copies of copies -/

/-- Variables that are counted from one are not recounted. -/
theorem recount_self {vs : List VariableIndex} {n : Nat}
    (hvs : vs = (List.range n).map fun i => ⟨(i + 1 : Nat)⟩) {v : VariableIndex} (hv : v ∈ vs) :
    recount vs v = v := by
  have hn : vs.Nodup := by
    rw [hvs]
    refine List.nodup_range.map fun i j hij => ?_
    have := congrArg VariableIndex.value hij
    dsimp only at this
    omega
  obtain ⟨i, hi, rfl⟩ := List.mem_iff_getElem.1 hv
  rw [recount, hn.idxOf_getElem]
  subst hvs
  simp

section
variable {m : Model α} {L : Ledger α} (h : Represents m L) {d : Model α} {cost : Terms α}
  {constant : α} {kind : ObjectiveKind} {L' : Ledger α}
  (hL' : L' = (L.copied m L.variableIndices (L.listed .scalarAffine)
    (L.listed .singleVariable)).withObjective cost constant kind)
  (h' : Represents d L')
include h hL'

theorem variableIndices_again :
    L'.variableIndices = (List.range L.variableIndices.length).map fun i => ⟨(i + 1 : Nat)⟩ := by
  subst hL'
  rw [← map_recount L.nodup_variableIndices]
  exact copied_variableIndices h (L.listed .scalarAffine) (L.listed .singleVariable)

include h' in
/-- The affine constraints of a copy are listed as they came in. -/
theorem listed_again : L'.listed .scalarAffine =
    (L.listed .scalarAffine).zipIdx.map fun e => ⟨.scalarAffine, e.1.set, (e.2 + 1 : Nat)⟩ := by
  have hsorted : ((L.listed .scalarAffine).zipIdx.map fun e =>
      (⟨.scalarAffine, e.1.set, (e.2 + 1 : Nat)⟩ : ConstraintIndex)).Pairwise
        ConstraintIndex.before := by
    rw [List.pairwise_map, List.pairwise_iff_getElem]
    intro i j hi hj hij
    rw [List.length_zipIdx] at hi hj
    have hold := List.pairwise_iff_getElem.1 (L.pairwise_listed .scalarAffine) i j hi hj hij
    simp only [List.getElem_zipIdx, Nat.zero_add]
    refine hold.imp_right fun hsame => ⟨hsame.1, ?_⟩
    dsimp only
    omega
  refine List.Perm.eq_of_pairwise (fun c c' _ _ hcc hcc' => absurd hcc' (ConstraintIndex.before_asymm hcc))
    (L'.pairwise_listed .scalarAffine) hsorted ?_
  refine (List.perm_ext_iff_of_nodup (L'.nodup_listed _)
    (hsorted.imp fun {c c'} hcc heq => ?_)).2 fun c => ?_
  · subst heq
    exact c.before_irrefl hcc
  · rw [h'.mem_listed]
    subst hL'
    have hvalid := isValid_copied h (Ledger.lists_listed h) c
    rw [List.mem_map]
    constructor
    · rintro ⟨hfunction, hlive⟩
      obtain ⟨⟨c₀, c⟩, hc, rfl⟩ := hvalid.1 hlive
      rcases mem_copies.1 hc with ⟨i, hi, rfl⟩ | ⟨-, rfl⟩
      · exact ⟨(c₀, i), List.mem_zipIdx_iff_getElem?.2 hi, rfl⟩
      · cases hfunction
    · rintro ⟨⟨c₀, i⟩, hi, rfl⟩
      exact ⟨rfl, hvalid.2 ⟨(c₀, _),
        mem_copies.2 (.inl ⟨i, List.mem_zipIdx_iff_getElem?.1 hi, rfl⟩), rfl⟩⟩

include h' in
/-- The copy of a copy keeps all identities. -/
theorem Copied.again {e : Model α} {map : IndexMap} (he : Copied d L' map e) :
    (∀ p ∈ map.vars, p.2 = p.1) ∧ ∀ p ∈ map.constraints, p.2 = p.1 := by
  have hself : ∀ w ∈ L'.variableIndices, recount L'.variableIndices w = w := fun w hw =>
    recount_self (variableIndices_again h hL') hw
  constructor
  · intro p hp
    rw [he.vars] at hp
    obtain ⟨w, hw, rfl⟩ := List.mem_map.1 hp
    exact hself w hw
  · rintro ⟨c, c'⟩ hp
    rw [he.constraints] at hp
    rcases mem_copies.1 hp with ⟨i, hi, rfl⟩ | ⟨hc, rfl⟩
    · rw [listed_again h hL' h', List.getElem?_map] at hi
      obtain ⟨⟨c₀, j⟩, hj, rfl⟩ := Option.map_eq_some_iff.1 hi
      simp only [List.getElem?_zipIdx, Option.map_eq_some_iff, Prod.mk.injEq] at hj
      obtain ⟨-, -, -, rfl⟩ := hj
      simp
    · obtain ⟨hfunction, hlive⟩ := h'.mem_listed.1 hc
      obtain ⟨r, hr, -⟩ := (Ledger.isValid_single hfunction).1 hlive
      obtain ⟨function, set, value⟩ := c
      cases hfunction
      rw [hself _ (h'.mem_variableIndices.2 (by rw [hr]; rfl))]

end

/-- Copies of sound models are copies, and copying them again changes nothing. -/
theorem Model.Sound.copyFrom [LawfulScalar α] {m : Model α} (hm : m.Sound) (m' : Model α) :
    ∃ map d, Modelling.copyFrom m m' = .ok map d ∧ d.Sound ∧ IsCopy m d map ∧
      ∀ m'', ∃ map' e, Modelling.copyFrom d m'' = .ok map' e ∧ IsCopy d e map' ∧
        (∀ p ∈ map'.vars, p.2 = p.1) ∧ ∀ p ∈ map'.constraints, p.2 = p.1 := by
  obtain ⟨hnamed, L, h, hcoherent⟩ := hm
  obtain ⟨map, d, hrun, hd⟩ := copyFrom_run hnamed h hcoherent m'
  obtain ⟨cost, constant, h'⟩ := hd.represents
  have hcoherent' := Ledger.coherent_copied h hcoherent L.variableIndices
    (L.listed .scalarAffine) (L.listed .singleVariable)
  refine ⟨map, d, hrun, ⟨hd.named, _, h', hcoherent'⟩, hd.isCopy h hnamed hcoherent,
    fun m'' => ?_⟩
  obtain ⟨map', e, hrun', he⟩ := copyFrom_run hd.named h' hcoherent' m''
  obtain ⟨hvars, hconstraints⟩ := he.again h rfl h'
  exact ⟨map', e, hrun', he.isCopy h' hd.named hcoherent', hvars, hconstraints⟩

/-! ### Models that can be reached -/

inductive Model.Reachable : Model α → Prop
  | emptied (m : Model α) : m.emptied.Reachable
  | call {m : Model α} (h : m.Reachable) {c : Call α} (hc : c.InRange) :
      (Call.after m c).Reachable
  | sense {m : Model α} (h : m.Reachable) (s : ObjectiveSense) : (m.withSense s).Reachable
  | named {m : Model α} (h : m.Reachable) (name : String) :
      Reachable { m with problem := { m.problem with name := name } }
  | settings {m : Model α} (h : m.Reachable) (presolve : Bool) (method : Method)
      (stores : Parameter.Stores α) (given : List (String × Value α)) (silent : Bool) :
      Reachable { m with
        presolve := presolve, method := method, stores := stores, given := given, silent := silent }
  | basis {m : Model α} (h : m.Reachable) (s : Solution α) :
      Reachable { m with problem := m.problem.withBasic s }
  | solved {m : Model α} (h : m.Reachable) {σ : Type} (host : Host α σ)
      (callback : Option (Callback α σ)) (fuel : Nat) (session : Session α σ) :
      (after (Solving.optimize host callback fuel) ⟨session, m⟩).model.Reachable
  | copied {source m m' : Model α} (h : source.Reachable) {map : IndexMap}
      (hrun : Modelling.copyFrom source m = .ok map m') : m'.Reachable

/-! ### Soundness -/

theorem Solving.numbered_of_getElem : ∀ {n : Nat} {infos : List VariableInfo}
    {cs : List (Column α)}, infos.length = cs.length →
    (∀ i info, infos[i]? = some info → info.column = n + i + 1) → Numbered n infos cs
  | _, [], [], _, _ => trivial
  | n, info :: infos, _ :: cs, hlength, h => by
    refine ⟨h 0 info rfl, numbered_of_getElem (Nat.succ.inj hlength) fun i info' hi => ?_⟩
    rw [h (i + 1) info' hi]
    omega

/-- Every column of a well-formed model belongs to a variable, in the order of both. -/
theorem Model.WellFormed.numbered {m : Model α} (h : m.WellFormed) :
    Solving.Numbered 0 m.vars.values m.problem.columns := by
  refine Solving.numbered_of_getElem ?_ fun i info hi => ?_
  · rw [Registry.values, List.length_map, h.columnCount]
  · rw [Registry.values, List.getElem?_map] at hi
    obtain ⟨⟨k, info⟩, he, rfl⟩ := Option.map_eq_some_iff.1 hi
    rw [(h.column he).2, Nat.zero_add]

namespace Model.Sound

/-- The columns of a sound model have the kinds of their bounds. -/
theorem roundable [OrderedScalar α] {m : Model α} (h : m.Sound) : Solving.Roundable m where
  numbered := h.named.wf.numbered
  settled e he _ := by
    obtain ⟨L, hL, hcoherent⟩ := h.ledger
    obtain ⟨i, hi⟩ := List.mem_iff_getElem?.1 (List.of_mem_zip he).2
    have hlt : i < m.vars.entries.length := by
      rw [← h.named.wf.columnCount]
      exact (List.getElem?_eq_some_iff.1 hi).1
    have hentry : m.vars.entries[i]? = some (m.vars.entries[i].1, m.vars.entries[i].2) :=
      List.getElem?_eq_getElem hlt
    obtain ⟨c', hat⟩ := h.named.wf.variableAt_of_getElem hentry
    cases hat.column.symm.trans hi
    obtain ⟨r, hr⟩ := hL.vars_of_column (hat.column? h.named.wf)
    have hholds := hL.holds hr (hat.column? h.named.wf)
    have hr := hcoherent _ _ hr
    exact ⟨hholds.numbers.1, hholds.numbers.2, hholds.bound hr.lower hr.upper, hholds.sides⟩

/-- What is stored of solves does not matter. -/
theorem of_unsolved {m m' : Model α} (h : m.Sound) (hm : m'.unsolved = m.unsolved) : m'.Sound :=
  h.congr (congrArg (fun m => m.vars) hm) (congrArg (fun m => m.affine) hm)
    (congrArg (fun m => m.variableNames) hm) (congrArg (fun m => m.constraintNames) hm)
    (congrArg (fun m => m.problem.columns) hm) (congrArg (fun m => m.problem.rows) hm)
    (congrArg (fun m => m.problem.constant) hm) (congrArg (fun m => m.objectiveKind) hm)
    (congrArg (fun m => m.binaries) hm) (congrArg (fun m => m.integers) hm)

theorem unsolved_after [LawfulScalar α] {m : Model α} (h : m.Sound) (host : Host α σ)
    (callback : Option (Callback α σ)) (fuel : Nat) (session : Session α σ) :
    (after (Solving.optimize host callback fuel) ⟨session, m⟩).model.unsolved = m.unsolved := by
  have hrun := Solving.optimize_keeps h.roundable host callback fuel ⟨session, m⟩ rfl
  exact Runs.after (I := fun w' : Workbench α σ => w'.model.unsolved = m.unsolved) hrun

end Model.Sound

theorem Model.Reachable.sound [LawfulScalar α] {m : Model α} (h : m.Reachable) : m.Sound := by
  induction h with
  | emptied m => exact .emptied m
  | call _ hc ih => exact ih.call hc
  | sense _ s ih => exact ih.congr rfl rfl rfl rfl rfl rfl rfl rfl rfl rfl
  | named _ name ih => exact ih.congr rfl rfl rfl rfl rfl rfl rfl rfl rfl rfl
  | settings _ presolve method stores given silent ih =>
    exact ih.congr rfl rfl rfl rfl rfl rfl rfl rfl rfl rfl
  | basis _ s ih => exact ih.congr rfl rfl rfl rfl rfl rfl rfl rfl rfl rfl
  | solved _ host callback fuel session ih =>
    exact ih.of_unsolved (ih.unsolved_after host callback fuel session)
  | copied _ hrun ih =>
    obtain ⟨map, d, hrun', hsound, -⟩ := ih.copyFrom _
    cases hrun.symm.trans hrun'
    exact hsound

theorem Model.Reachable.calls {m : Model α} (h : m.Reachable) {cs : List (Call α)}
    (hcs : ∀ c ∈ cs, c.InRange) : (Call.afterAll m cs).Reachable := by
  induction cs generalizing m with
  | nil => exact h
  | cons c cs ih =>
    exact ih (h.call (hcs c List.mem_cons_self)) fun c' hc' => hcs c' (List.mem_cons_of_mem _ hc')

/-! ### Solving -/

/-- Nothing but what is stored of solves differs, and all questions about the model itself
have the same answers. -/
structure Model.Untouched (m m' : Model α) : Prop where
  columns : m'.problem.columns = m.problem.columns
  rows : m'.problem.rows = m.problem.rows
  constant : m'.problem.constant = m.problem.constant
  direction : m'.problem.direction = m.problem.direction
  stores : m'.stores = m.stores
  rest : m'.unsolved = m.unsolved
  constraintSet : ∀ i, m'.constraintSet i = m.constraintSet i
  constraintFunction : ∀ i, m'.constraintFunction i = m.constraintFunction i
  objective : m'.objective = m.objective

theorem Model.untouched_of_unsolved {m m' : Model α} (h : m'.unsolved = m.unsolved) :
    m.Untouched m' where
  columns := congrArg (fun m => m.problem.columns) h
  rows := congrArg (fun m => m.problem.rows) h
  constant := congrArg (fun m => m.problem.constant) h
  direction := congrArg (fun m => m.problem.direction) h
  stores := congrArg (fun m => m.stores) h
  rest := h
  constraintSet i := by
    have hset : ∀ m : Model α, m.unsolved.constraintSet i = m.constraintSet i := fun _ => rfl
    rw [← hset, h, hset]
  constraintFunction i := by
    have hfunction : ∀ m : Model α, m.unsolved.constraintFunction i = m.constraintFunction i :=
      fun _ => rfl
    rw [← hfunction, h, hfunction]
  objective := by
    have hobjective : ∀ m : Model α, m.unsolved.objective = m.objective := fun _ => rfl
    rw [← hobjective, h, hobjective]

/-- A solve leaves the model as it was, whatever the method and the settings, whatever the solver
answers or refuses to answer, and whatever a callback does before it ends or fails. -/
theorem optimize_untouched [LawfulScalar α] {m : Model α} (h : m.Reachable) (host : Host α σ)
    (callback : Option (Callback α σ)) (fuel : Nat) (session : Session α σ) :
    m.Untouched (after (Solving.optimize host callback fuel) ⟨session, m⟩).model :=
  Model.untouched_of_unsolved (h.sound.unsolved_after host callback fuel session)

/-- An integer variable between bounds that cross when they are rounded, a binary that is
bounded elsewhere, and a row over both. -/
def crossedCalls : List (Call Float) :=
  [.edit (.addVariables 2),
    .edit (.addConstraint (.single ⟨1⟩) (.set (.interval 0.25 0.75))),
    .edit (.addConstraint (.single ⟨1⟩) (.set .integer)),
    .edit (.addConstraint (.single ⟨2⟩) (.set .zeroOne)),
    .edit (.addConstraint (.single ⟨2⟩) (.set (.lessThan 7.5))),
    .edit (.addConstraint (.affine ⟨[⟨1, ⟨1⟩⟩, ⟨2, ⟨2⟩⟩], 0⟩) (.set (.lessThan 3)))]

/-- A solver that never answers. -/
def silentHost : Host Float Unit where
  solve _ w := (.error .exhausted, w)
  now _ := 0

/-- A model of one column and one row for the exact method, with the presolver on. -/
def presolvingExact : Model Float :=
  { Call.afterAll (Model.emptied {}) [.edit (.addVariables 1),
      .edit (.addConstraint (.affine ⟨[⟨1, ⟨1⟩⟩], 0⟩) (.set (.lessThan 3)))] with
    method := .exact
    stores := { simplex := { presolve := 1 } } }

theorem presolvingExact_reachable : presolvingExact.Reachable :=
  ((Model.Reachable.emptied {}).calls (by decide +kernel)).settings _ _ _ _ _

theorem optimize_untouched_crossed :
    (∀ c ∈ crossedCalls, c.InRange) ∧ Model.Untouched (Call.afterAll (Model.emptied {}) crossedCalls)
      (after (Solving.optimize silentHost (some fun d => d.terminate) 10)
        ⟨⟨(), #[]⟩, Call.afterAll (Model.emptied {}) crossedCalls⟩).model ∧
      presolvingExact.Untouched
        (after (Solving.optimize silentHost none 10) ⟨⟨(), #[]⟩, presolvingExact⟩).model := by
  have hrange : ∀ c ∈ crossedCalls, c.InRange := by decide +kernel
  exact ⟨hrange, optimize_untouched ((Model.Reachable.emptied {}).calls hrange) silentHost _ 10 _,
    optimize_untouched presolvingExact_reachable silentHost none 10 _⟩

/-! ### Copying -/

/-- A copy of a reachable model, made over any other model, is the same model with other
identities, and copying the copy keeps even these. The source is only read. -/
theorem copyFrom_isCopy [LawfulScalar α] {source : Model α} (h : source.Reachable)
    (m : Model α) : ∃ map copy, Modelling.copyFrom source m = .ok map copy ∧
      IsCopy source copy map ∧ ∀ m', ∃ map' copy', Modelling.copyFrom copy m' = .ok map' copy' ∧
        IsCopy copy copy' map' ∧ (∀ p ∈ map'.vars, p.2 = p.1) ∧
          ∀ p ∈ map'.constraints, p.2 = p.1 := by
  obtain ⟨map, copy, hrun, -, hcopy, hagain⟩ := h.sound.copyFrom m
  exact ⟨map, copy, hrun, hcopy, hagain⟩

/-- A gap among the variables, crossed bounds with a name, a row that was added before another
one of an earlier kind, and a single variable as objective. -/
def gappedCalls : List (Call Float) :=
  [.edit (.addVariables 3),
    .setVariableName ⟨3⟩ "x",
    .edit (.addConstraint (.affine ⟨[⟨2, ⟨1⟩⟩, ⟨-1, ⟨3⟩⟩], 0⟩) (.set (.lessThan 4))),
    .edit (.addConstraint (.affine ⟨[⟨1, ⟨3⟩⟩], 0⟩) (.set (.equalTo 1.5))),
    .edit (.addConstraint (.single ⟨3⟩) (.set (.lessThan (-2)))),
    .edit (.addConstraint (.single ⟨3⟩) (.set (.greaterThan 5))),
    .setConstraintName (.constraint ⟨.singleVariable, .greaterThan, 3⟩) "low",
    .edit (.setObjective (.single ⟨3⟩)),
    .edit (.delete (.var ⟨1⟩))]

theorem copyFrom_isCopy_gapped : (∀ c ∈ gappedCalls, c.InRange) ∧
    ∃ map copy, Modelling.copyFrom (Call.afterAll (Model.emptied {}) gappedCalls) {} =
      .ok map copy ∧ IsCopy (Call.afterAll (Model.emptied {}) gappedCalls) copy map := by
  have hrange : ∀ c ∈ gappedCalls, c.InRange := by decide +kernel
  obtain ⟨map, copy, hrun, hcopy, -⟩ :=
    copyFrom_isCopy ((Model.Reachable.emptied {}).calls hrange) {}
  exact ⟨hrange, map, copy, hrun, hcopy⟩

end MixedInteger
