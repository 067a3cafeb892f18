import MixedInteger.Job.Description
import MixedInteger.Proofs.Model.Atomicity
import MixedInteger.Proofs.Model.Identity
import MixedInteger.Proofs.Model.Instruction
import MixedInteger.Proofs.Model.Verdict

/-! The rows of a model that was built from a description. Every entry for a constraint becomes one
affine constraint, in the order of the entries: it is counted from one, lies in a set of the kind of
its sense and has the name of the entry. Nothing is asked of the numbers, and the names of entries
may well be the same. -/

namespace MixedInteger

/-- What each turn of a loop over numbered entries keeps, of those that are done, holds at its
end. -/
theorem Runs.forNumbered {ε σ β : Type} {E : σ → Prop} {f : β → Nat → EStateM ε σ PUnit}
    (P : List β → σ → Prop) (hstep : ∀ done x s, P done s →
      Runs (f x done.length) s (fun _ s' => P (done ++ [x]) s') E)
    (xs : List β) {s : σ} (h : P [] s) :
    Runs (ForIn.forIn xs.zipIdx PUnit.unit fun (x, i) _ => do
        f x i
        Pure.pure (ForInStep.yield PUnit.unit)) s (fun _ s' => P xs s') E := by
  have hfrom : ∀ rest done s, P done s →
      Runs (ForIn.forIn (rest.zipIdx done.length) PUnit.unit fun (x, i) _ => do
        f x i
        Pure.pure (ForInStep.yield PUnit.unit)) s (fun _ s' => P (done ++ rest) s') E := by
    intro rest
    induction rest with
    | nil =>
      intro done s h
      exact .pure (by rwa [List.append_nil])
    | cons x rest ih =>
      intro done s h
      rw [List.zipIdx_cons, List.forIn_cons]
      refine Runs.bind (P := fun next s' => next = .yield ⟨⟩ ∧ P (done ++ [x]) s')
        ((hstep done x s h).bind fun _ s' h' => .pure ⟨rfl, h'⟩) ?_
      rintro _ s' ⟨rfl, h'⟩
      simpa using ih (done ++ [x]) s' h'
  exact hfrom xs [] s h

variable {α β γ : Type} [Scalar α]

/-! ### What building variables leaves alone -/

/-- The affine constraints and the identities of variables are the same. -/
structure Model.SameEntries (m m' : Model α) : Prop where
  affine : m'.affine = m.affine
  keys : m'.vars.keys = m.vars.keys

namespace Model.SameEntries

variable {m m' m'' : Model α}

theorem refl (m : Model α) : m.SameEntries m := ⟨rfl, rfl⟩

theorem trans (h : m.SameEntries m') (h' : m'.SameEntries m'') : m.SameEntries m'' :=
  ⟨h'.affine.trans h.affine, h'.keys.trans h.keys⟩

end Model.SameEntries

namespace Modelling

/-- Steps that write neither affine constraints nor identities, if they succeed. -/
def SparesEntries (x : Modelling α β) : Prop :=
  ∀ m : Model α, Runs x m (fun _ m' => m.SameEntries m') fun _ => True

namespace SparesEntries

theorem pure (b : β) : SparesEntries (Pure.pure b : Modelling α β) := .refl

theorem throw (e : Fault α) : SparesEntries (MonadExcept.throw e : Modelling α β) :=
  fun _ => trivial

theorem bind {x : Modelling α β} {f : β → Modelling α γ} (hx : SparesEntries x)
    (hf : ∀ b, SparesEntries (f b)) : SparesEntries (x >>= f) := fun m =>
  (hx m).bind fun b m' h => (hf b m').imp fun _ _ h' => h.trans h'

theorem query (f : Model α → Except (Fault α) β) : SparesEntries (Modelling.query f) := by
  intro m
  show Runs _ m _ _
  rw [Runs, query_run]
  cases f m with
  | ok b => exact .refl m
  | error e => trivial

theorem change (f : Problem α → Except (ProblemError α) (Problem α)) :
    SparesEntries (Modelling.change f) := by
  intro m
  cases h : f m.problem with
  | ok p => exact .of_ok (change_ok h) ⟨rfl, rfl⟩
  | error e =>
    rw [Runs, change_error h]
    trivial

/-- A step that is refused, or goes on. -/
theorem guarded {c : Prop} [Decidable c] {e : Fault α} {f : PUnit → Modelling α β}
    (h : SparesEntries (f ⟨⟩)) :
    SparesEntries (if c then (do let r ← MonadExcept.throw e; f r) else f ⟨⟩) := by
  split_ifs
  · exact fun _ => trivial
  · exact h

theorem modifyInfo (k : Int) (f : VariableInfo → VariableInfo) :
    SparesEntries (Modelling.modifyInfo (α := α) k f) :=
  fun m => .of_ok (modifyInfo_run m k f) ⟨rfl, m.vars.keys_modify k f⟩

theorem count (t : TypeState) (n : Int) : SparesEntries (Modelling.count (α := α) t n) :=
  fun m => .of_ok (count_run m t n) ⟨rfl, rfl⟩

theorem setVariableBound (j : Nat) (b : BoundChange α) :
    SparesEntries (Modelling.setVariableBound j b) := by
  intro m
  refine (Solving.setVariableBound_columns j b).imp ?_
  rintro _ _ ⟨cs, rfl⟩
  exact ⟨rfl, rfl⟩

end SparesEntries

theorem setConstraintSet_single_spares (k : Kind) (v : Int) (s : ScalarSet α) :
    SparesEntries (setConstraintSet (.constraint ⟨.singleVariable, k, v⟩) (.set s)) := by
  intro m
  refine Runs.bind (P := fun c m' => c = ⟨.singleVariable, k, v⟩ ∧ m' = m)
    (.of_ok rfl ⟨rfl, rfl⟩) ?_
  rintro _ _ ⟨rfl, rfl⟩
  refine SparesEntries.guarded ?_ _
  rw [if_pos rfl]
  refine .bind (.query _) fun info => ?_
  cases (SetArg.set s).bounds with
  | ok change => exact .setVariableBound info.column change
  | error e => exact .pure _

theorem addConstraint_single_spares (v : VariableIndex) (s : ScalarSet α) :
    SparesEntries (addConstraint (.single v) (.set s)) := by
  have hbound : SparesEntries (addBoundConstraint v s) := by
    refine .bind (.query _) fun info => ?_
    cases info.addBound s.kind with
    | error e => exact .throw _
    | ok b =>
      exact .bind (.modifyInfo _ _) fun _ =>
        .bind (setConstraintSet_single_spares s.kind v.value s) fun _ => .pure _
  have htype : ∀ t k, SparesEntries (addTypeConstraint (α := α) v t k) := fun t k =>
    .bind (.query _) fun info => .guarded <| .bind (.change _) fun _ =>
      .bind (.modifyInfo _ _) fun _ => .bind (.count t 1) fun _ => .pure _
  cases s with
  | zeroOne => exact htype .binary .zeroOne
  | integer => exact htype .integer .integer
  | _ => exact hbound

theorem setVariableName_spares (i : IndexArg α) (name : String) :
    SparesEntries (setVariableName i name) := by
  refine .bind (.query _) fun info => .bind (.modifyInfo _ _) fun _ => ?_
  have hindex : SparesEntries (modify fun m : Model α =>
      { m with variableNames := m.variableNames.update info.name name i }) :=
    fun m => .of_ok rfl ⟨rfl, rfl⟩
  split_ifs
  · exact .bind (.change _) fun _ => hindex
  · exact hindex

end Modelling

/-! ### Reading -/

namespace Description

open Modelling

/-- What reads the data does not write the model. -/
def Reads (x : Modelling α β) : Prop :=
  ∀ m : Model α, Runs x m (fun _ m' => m' = m) fun _ => True

namespace Reads

theorem number (v : Value α) : Reads (number v) := by
  intro m
  unfold Description.number
  cases v.toReal with
  | ok x => exact .pure rfl
  | error e => exact .throw _ trivial

theorem mapping (v : Value α) : Reads (mapping v) := by
  intro m
  unfold Description.mapping
  split_ifs
  · exact .pure rfl
  · split
    · exact .pure rfl
    · exact .throw _ trivial

theorem variableNamed (declared : Declared) (place : Place α) (key : Value α) :
    Reads (variableNamed declared place key) := by
  intro m
  unfold Description.variableNamed
  dsimp only
  split
  · exact .pure rfl
  · exact .throw _ trivial

theorem terms (declared : Declared) (place : Place α) (v : Value α) :
    Reads (terms declared place v) := by
  intro m
  refine (mapping v m).bind ?_
  rintro es _ rfl
  refine Runs.mapM (I := (· = _)) es ?_ rfl
  rintro e _ rfl
  refine (variableNamed declared place e.1 _).bind ?_
  rintro x _ rfl
  refine (number e.2 _).bind ?_
  rintro y _ rfl
  exact .pure rfl

end Reads

/-! ### Entries for constraints -/

/-- The entries under a key; what counts as false has none. -/
def entriesUnder (v : Value α) (key : String) : List (Value α) :=
  if (v.field key).truthy then ((v.field key).elements?).getD [] else []

/-- The name of an entry, if there is anything in it. -/
def labelOf (item : Value α) : String :=
  if (item.field "name").truthy then (item.field "name").shown else ""

/-- The kind of set that an entry asks for. -/
def setKind (item : Value α) : Kind :=
  match (item.fieldOr "sense" (.text "<=")).shown with
  | ">=" => .greaterThan
  | "==" | "=" => .equalTo
  | _ => .lessThan

/-- The affine constraint of the entry at a place. -/
def constraintAt (i : Nat) (item : Value α) : ConstraintIndex :=
  ⟨.scalarAffine, setKind item, (i + 1 : Nat)⟩

theorem rowSet?_eq_some {item : Value α} {set : α → ScalarSet α}
    (h : rowSet? (item.fieldOr "sense" (.text "<=")).shown = some set) (x : α) :
    (set x).isRow = true ∧ (set x).kind = setKind item := by
  unfold rowSet? setKind at *
  split at h <;> cases h <;> simp_all [ScalarSet.isRow, ScalarSet.kind]

end Description

open Description

/-- The affine constraints of a model are those of entries, with their names. -/
structure Model.Lists (m : Model α) (items : List (Value α)) : Prop where
  last : m.affine.last = items.length
  count : m.affine.entries.length = items.length
  entry : ∀ {i : Nat} {item : Value α}, items[i]? = some item → ∃ info : ConstraintInfo α,
    m.affine.entries[i]? = some (i + 1, info) ∧ info.set.kind = setKind item ∧
      info.name = labelOf item

namespace Model.Lists

variable {m m' : Model α} {items : List (Value α)} {item : Value α}

theorem nil (m : Model α) : m.emptied.Lists [] := ⟨rfl, rfl, fun h => by cases h⟩

theorem congr (h : m.Lists items) (ha : m'.affine = m.affine) : m'.Lists items where
  last := ha ▸ h.last
  count := ha ▸ h.count
  entry := ha ▸ h.entry

theorem concat (h : m.Lists items) {info : ConstraintInfo α}
    (hlast : m'.affine.last = items.length + 1)
    (hentries : m'.affine.entries = m.affine.entries ++ [(items.length + 1, info)])
    (hset : info.set.kind = setKind item) (hname : info.name = labelOf item) :
    m'.Lists (items ++ [item]) where
  last := by rw [hlast, List.length_append, List.length_singleton]
  count := by simp [hentries, h.count]
  entry {i other} hi := by
    rw [List.getElem?_append] at hi
    split_ifs at hi with hlt
    · obtain ⟨old, hold, hkind, hlabel⟩ := h.entry hi
      refine ⟨old, ?_, hkind, hlabel⟩
      rw [hentries, List.getElem?_append_left (by rw [h.count]; exact hlt), hold]
    · obtain ⟨heq, rfl⟩ : i = items.length ∧ item = other := by
        obtain ⟨hsingle, heq⟩ := List.getElem?_eq_some_iff.1 hi
        rw [List.length_singleton] at hsingle
        rw [List.getElem_singleton] at heq
        exact ⟨by omega, heq⟩
      refine ⟨info, ?_, hset, hname⟩
      rw [hentries, heq, List.getElem?_append_right h.count.le, h.count, Nat.sub_self]
      rfl

end Model.Lists

namespace Description

open Modelling

variable {m : Model α} {items : List (Value α)}

/-- A row is appended, if the variables are live. -/
theorem addAffine_runs [OrderedScalar α] (hm : m.WellFormed) (ts : List (Term α)) {s : ScalarSet α}
    (hs : s.isRow = true) : Runs (addConstraint (.affine ⟨ts, 0⟩) (.set s)) m
      (fun c m' => c = ⟨.scalarAffine, s.kind, (m.affine.last + 1 : Nat)⟩ ∧ m'.WellFormed ∧
        ∃ r, m' = m.withRow s r) fun _ => True := by
  have hzero : ((0 : α) == 0) = true := OrderedScalar.beq_refl OrderedScalar.isNaN_zero
  obtain ⟨b, hb⟩ : ∃ b, s.rowBound? = some b := by
    cases s <;> first | exact ⟨_, rfl⟩ | cases hs
  simp only [addConstraint, hs, if_true]
  cases hd : m.firstDead (⟨ts, 0⟩ : AffineFunction α).canonical.terms with
  | some v =>
    have hrow : m.rowOf ⟨ts, 0⟩ = .error (.model (.invalidIndex (.var v))) := by
      rw [Model.rowOf_eq, hd]
    simp [Runs, addAffineConstraint, hzero, hrow]
  | none =>
    have hfits := hm.fits_coefsOf (⟨ts, 0⟩ : AffineFunction α) {}
    refine .of_ok (addAffineConstraint_run hm hzero hd hb) ⟨rfl, ?_, _, rfl⟩
    exact hm.withRow hb ⟨hfits.nodup, hfits.range, hfits.nonzero⟩

/-- An entry that is a mapping. -/
theorem addRow_map (declared : Declared) (i : Nat) (es : List (Value α × Value α)) :
    addRow declared i (.map es) = (do
      let place : Place α := .constraint ((Value.map es).fieldOr "name" (.text s!"#{i}"))
      let sense := ((Value.map es).fieldOr "sense" (.text "<=")).shown
      match rowSet? sense with
      | none => refuse (.unknownSense place sense)
      | some set =>
        let ts ← terms declared place ((Value.map es).field "terms")
        let rhs ← number ((Value.map es).fieldOr "rhs" (.real 0))
        let c ← addConstraint (.affine ⟨ts, 0⟩) (.set (set rhs))
        let label := (Value.map es).field "name"
        if label.truthy then setConstraintName (.constraint c) label.shown) := rfl

/-- One more entry becomes one more row. -/
theorem addRow_runs [OrderedScalar α] (hm : m.WellFormed) (h : m.Lists items) (declared : Declared)
    (item : Value α) : Runs (addRow declared items.length item) m
      (fun _ m' => m'.WellFormed ∧ m'.vars = m.vars ∧ m'.Lists (items ++ [item]))
      fun _ => True := by
  obtain ⟨es, rfl⟩ | hnot : (∃ es, item = .map es) ∨ ∀ es, item ≠ .map es := by
    cases item <;> simp
  · rw [addRow_map]
    generalize hitem : Value.map es = item
    dsimp only
    cases hset : rowSet? (item.fieldOr "sense" (.text "<=")).shown with
    | none => exact .throw _ trivial
    | some set =>
      refine (Reads.terms _ _ _ m).bind ?_
      rintro ts m rfl
      refine (Reads.number _ _).bind ?_
      rintro rhs m rfl
      obtain ⟨hrow, hkind⟩ := rowSet?_eq_some hset rhs
      refine (addAffine_runs hm ts hrow).bind ?_
      rintro _ _ ⟨rfl, hwf, r, rfl⟩
      have hlast : (m.withRow (set rhs) r).affine.last = items.length + 1 := by
        rw [← h.last]
        rfl
      have hentries : (m.withRow (set rhs) r).affine.entries = m.affine.entries ++
          [(items.length + 1, ⟨m.affine.size + 1, set rhs, ""⟩)] := by
        rw [← h.last]
        rfl
      split_ifs with hlabel
      · -- the new row is the last one, and it is named
        have hentry : (m.withRow (set rhs) r).affine.entries[items.length]? =
            some (items.length + 1, ⟨m.affine.size + 1, set rhs, ""⟩) := by
          rw [hentries, List.getElem?_append_right h.count.le, h.count, Nat.sub_self]
          rfl
        obtain ⟨row, hat⟩ := hwf.rowAt_of_getElem hentry
        have hrun := setConstraintName_affine_run hwf hat (item.field "name").shown
        rw [← h.last] at hrun hat
        have hnamed : ((m.withRow (set rhs) r).withRowName m.affine.last (m.affine.last + 1)
            ⟨m.affine.size + 1, set rhs, ""⟩ (item.field "name").shown).affine =
            (m.affine.add ⟨m.affine.size + 1, set rhs, (item.field "name").shown⟩).1 :=
          hm.affine.modify_add ⟨m.affine.size + 1, set rhs, ""⟩ fun info =>
            { info with name := (item.field "name").shown }
        refine .of_ok hrun ⟨hwf.withRowName hat _, rfl,
          h.concat (by rw [hnamed]; exact hlast) (by rw [hnamed, ← h.last]; rfl) hkind ?_⟩
        · exact (if_pos hlabel).symm
      · refine .pure ⟨hwf, rfl, h.concat hlast hentries hkind (if_neg hlabel).symm⟩
  · cases item
    case map es => exact absurd rfl (hnot es)
    all_goals exact .throw _ trivial


end Description

/-! ### The whole description -/

/-- What a model has of a description: variables that are live, and the rows of entries. -/
structure Model.Holds (m : Model α) (declared : Declared) (items : List (Value α)) : Prop where
  wf : m.WellFormed
  live : ∀ e ∈ declared, ∃ k : Nat, e.2 = ⟨k⟩ ∧ k ∈ m.vars.keys
  lists : m.Lists items

namespace Model.Holds

variable {m m' : Model α} {declared : Declared} {items : List (Value α)}

theorem congr (h : m.Holds declared items) (hm : m'.WellFormed) (hs : m.SameEntries m') :
    m'.Holds declared items where
  wf := hm
  live := hs.keys ▸ h.live
  lists := h.lists.congr hs.affine

/-- Steps that write no entries. -/
theorem spared (h : m.Holds declared items) {x : Modelling α β}
    (hm : Runs x m (fun _ m' => m'.WellFormed) fun _ => True) (hx : Modelling.SparesEntries x) :
    Runs x m (fun _ m' => m'.Holds declared items) fun _ => True :=
  ((hm.and (hx m)).imp fun _ _ hend => h.congr hend.1 hend.2).weaken fun _ _ => trivial

theorem called (h : m.Holds declared items) {x : Modelling α β}
    (hx : Modelling.Orderly Model.WellFormed x) (hs : Modelling.SparesEntries x) :
    Runs x m (fun _ m' => m'.Holds declared items) fun _ => True :=
  h.spared ((hx m h.wf).weaken fun _ _ => trivial) hs

end Model.Holds

namespace Description

open Modelling

variable {m : Model α} {declared : Declared} {items : List (Value α)}

/-- What counts as false has no entries. -/
theorem entries_reads (v : Value α) (key : String) (m : Model α) :
    Runs (entries (v.field key)) m (fun xs m' => xs = entriesUnder v key ∧ m' = m)
      fun _ => True := by
  unfold entries entriesUnder
  cases (v.field key).truthy with
  | false => exact .pure ⟨rfl, rfl⟩
  | true =>
    cases (v.field key).elements? with
    | some xs => exact .pure ⟨rfl, rfl⟩
    | none => exact .throw _ trivial

theorem senseOf_reads (v : Value α) : Reads (senseOf v) := by
  intro m
  unfold senseOf
  dsimp only
  split
  · exact .pure rfl
  · exact .throw _ trivial

theorem setObjective_spares (f : AffineFunction α) :
    SparesEntries (setObjective (.affine f)) :=
  .bind (.query _) fun _ _ => .update ⟨rfl, rfl⟩

/-- One more variable is live, and so are those before. -/
theorem addVariable_holds (h : m.Holds declared items) : Runs addVariable m
    (fun v m' => ∀ name, m'.Holds (declared ++ [(name, v)]) items) fun _ => True := by
  refine .of_ok (addVariable_run h.wf) fun name => ⟨h.wf.grown 1, ?_, h.lists.congr rfl⟩
  have hkeys : (m.grown 1).vars.keys = m.vars.keys ++ [m.vars.last + 1] := by
    simp [Model.grown, Registry.keys, Registry.entries_enroll]
  rintro e he
  rw [hkeys]
  obtain he | he := List.mem_append.1 he
  · obtain ⟨k, hk, hmem⟩ := h.live e he
    exact ⟨k, hk, List.mem_append_left _ hmem⟩
  · cases List.mem_singleton.1 he
    exact ⟨_, rfl, List.mem_append_right _ (List.mem_singleton_self _)⟩

variable [OrderedScalar α]

theorem constrain_holds (h : m.Holds declared items) (v : VariableIndex) (s : ScalarSet α) :
    Runs (constrain v s) m (fun _ m' => m'.Holds declared items) fun _ => True :=
  (h.called (.addConstraint .wellFormed _ _) (addConstraint_single_spares v s)).bind
    fun _ _ h => .pure h

theorem addBound_holds (h : m.Holds declared items) (v : VariableIndex) (bound : Value α)
    (set : α → ScalarSet α) :
    Runs (addBound v bound set) m (fun _ m' => m'.Holds declared items) fun _ => True := by
  unfold addBound
  split
  · exact .pure h
  · refine (Reads.number _ _).bind ?_
    rintro x m rfl
    exact constrain_holds h v _

theorem addBounds_holds (h : m.Holds declared items) (v : VariableIndex) (item : Value α) :
    Runs (addBounds v item) m (fun _ m' => m'.Holds declared items) fun _ => True := by
  unfold addBounds
  cases item.field? "fixed" with
  | some x =>
    refine (Reads.number _ _).bind ?_
    rintro x m rfl
    exact constrain_holds h v _
  | none =>
    exact (addBound_holds h v _ _).bind fun _ _ h => addBound_holds h v _ _

theorem declare_holds (h : m.Holds declared items) (i : Nat) (item : Value α) :
    Runs (declare declared i item) m (fun declared' m' => m'.Holds declared' items)
      fun _ => True := by
  unfold declare
  cases item.field? "name" with
  | none => exact .throw _ trivial
  | some label =>
    dsimp only
    split_ifs
    · exact trivial
    · refine (addVariable_holds h).bind fun v m h => ?_
      refine ((h label.shown).called (fun _ hm => .of_after
        (Model.Invariant.wellFormed.variableName hm _ _)) (setVariableName_spares _ _)).bind fun _ m h => ?_
      refine (addBounds_holds h v item).bind fun _ m h => ?_
      split
      · exact .throw _ trivial
      · rename_i t _
        cases t.set? (α := α) with
        | none => exact .pure h
        | some s => exact (constrain_holds h v s).bind fun _ _ h => .pure h

/-- The variables, in order. -/
theorem declareAll_holds (xs : List (Value α × Nat)) : ∀ {m : Model α} {declared : Declared},
    m.Holds declared items →
      Runs (xs.foldlM (fun declared e => declare declared e.2 e.1) declared) m
        (fun declared' m' => m'.Holds declared' items) fun _ => True := by
  induction xs with
  | nil => exact fun h => .pure h
  | cons e xs ih =>
    intro m declared h
    rw [List.foldlM_cons]
    exact (declare_holds h e.2 e.1).bind fun _ _ h' => ih h'

theorem buildObjective_holds (h : m.Holds declared items) (ds : Declared) (v : Value α) :
    Runs (buildObjective ds v) m (fun _ m' => m'.Holds declared items) fun _ => True := by
  unfold buildObjective
  refine (senseOf_reads v _).bind ?_
  rintro sense m rfl
  refine (Reads.mapping _ _).bind ?_
  rintro es m rfl
  refine (Reads.terms _ _ _ _).bind ?_
  rintro ts m rfl
  refine (Reads.number _ _).bind ?_
  rintro constant m rfl
  refine (h.called (.setObjective .wellFormed _) (setObjective_spares _)).bind fun _ m h => ?_
  exact .update (h.congr (h.wf.congr rfl rfl rfl rfl) ⟨rfl, rfl⟩)

/-- Every entry for a constraint becomes a row, in order. -/
theorem addRows_holds (h : m.Holds declared []) (ds : Declared) (items : List (Value α)) :
    Runs (ForIn.forIn items.zipIdx PUnit.unit (fun (item, i) _ => do
        addRow ds i item
        pure (ForInStep.yield PUnit.unit)) : Modelling α PUnit) m
      (fun _ m' => m'.Holds declared items) fun _ => True := by
  refine Runs.forNumbered (f := fun item i => addRow ds i item)
    (fun done (m' : Model α) => m'.Holds declared done) (fun done item m h => ?_) items h
  refine (addRow_runs h.wf h.lists ds item).imp ?_
  rintro _ m' ⟨hwf, hvars, hlists⟩
  exact ⟨hwf, hvars ▸ h.live, hlists⟩

/-- A model that was built has the variables that building answers with, and one row for every
entry for a constraint. -/
theorem build_holds (v : Value α) (m : Model α) :
    Runs (build v) m (fun declared m' => m'.Holds declared (entriesUnder v "constraints"))
      fun _ => True := by
  have hstart : ∀ name, Model.Holds
      { m.emptied with problem := { m.emptied.problem with name := name } } [] [] := fun name =>
    ⟨(Model.WellFormed.emptied m).congr rfl rfl rfl rfl, nofun, .congr (.nil m) rfl⟩
  unfold build
  refine Runs.bind (P := fun _ m' => m' = m.emptied) (.update rfl) ?_
  rintro _ _ rfl
  split
  · refine Runs.bind (P := fun _ m' => m'.Holds [] []) (.update (hstart _)) fun _ m h => ?_
    refine (entries_reads _ _ _).bind ?_
    rintro _ m ⟨rfl, rfl⟩
    refine Runs.bind (P := fun declared m' => m'.Holds declared [])
      (declareAll_holds (entriesUnder _ "variables").zipIdx h) fun declared m h => ?_
    refine (entries_reads _ _ _).bind ?_
    rintro _ m ⟨rfl, rfl⟩
    refine (addRows_holds h declared _).bind fun _ m h => ?_
    exact (buildObjective_holds h declared _).bind fun _ _ h => .pure h
  · exact .throw _ trivial

end Description

end MixedInteger
