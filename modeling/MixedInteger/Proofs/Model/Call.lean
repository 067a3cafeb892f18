import MixedInteger.Proofs.Model.RowEffect
import MixedInteger.Proofs.Number.Order

/-! Calls as data, so that histories are lists. An edit changes what a model says; other calls
name things and look them up. Well-formedness is kept by what calls do to a model: where columns
or rows are taken out or appended, the numbers of the others move with them. A history goes on
after a call that failed, with the model as the failure left it. -/

namespace MixedInteger

variable {α : Type} [Scalar α]

/-! ### Registries with numbers -/

namespace Registry

theorem last_enroll : ∀ (n : Nat) (r : Registry VariableInfo), (r.enroll n).last = r.last + n
  | 0, _ => rfl
  | n + 1, r => by
    rw [enroll, last_enroll n]
    simp only [add]
    omega

theorem Valid.enroll : ∀ (n : Nat) {r : Registry VariableInfo}, r.Valid → (r.enroll n).Valid
  | 0, _, hr => hr
  | n + 1, _, hr => Valid.enroll n (hr.add _)

theorem entries_enroll : ∀ (n : Nat) (r : Registry VariableInfo),
    (r.enroll n).entries = r.entries ++ (List.range n).map fun i =>
      (r.last + 1 + i, { index := ⟨(r.last + 1 + i : Nat)⟩, column := r.size + 1 + i })
  | 0, r => by simp [enroll]
  | n + 1, r => by
    rw [enroll, entries_enroll n, List.range_succ_eq_map]
    simp only [add, size, List.length_append, List.length_singleton, List.map_cons, List.map_map,
      List.append_assoc, List.singleton_append, Nat.add_zero]
    congr 2
    refine List.map_congr_left fun i _ => ?_
    have h₁ : r.last + 1 + 1 + i = r.last + 1 + (i + 1) := by omega
    have h₂ : r.entries.length + 1 + 1 + i = r.entries.length + 1 + (i + 1) := by omega
    simp [h₁, h₂]

/-- The new variables have the identities after the last one. -/
theorem Valid.get?_enroll {r : Registry VariableInfo} (hr : r.Valid) (n : Nat) (key : Int) :
    (r.enroll n).get? key =
      if r.last < key ∧ key ≤ r.last + n then
        some { index := ⟨key⟩, column := r.size + (key - r.last).toNat }
      else r.get? key := by
  ext info
  rw [(hr.enroll n).get?_eq_some_iff_mem]
  simp only [entries_enroll, List.mem_append, List.mem_map, List.mem_range, Prod.mk.injEq]
  split_ifs with hk
  · constructor
    · rintro ⟨k, rfl, h | ⟨i, hi, rfl, rfl⟩⟩
      · have := hr.le_last k (List.mem_map_of_mem h)
        omega
      · have hnat : ((r.last + 1 + i : Nat) - (r.last : Int)).toNat = 1 + i := by omega
        rw [hnat, ← Nat.add_assoc]
    · intro h
      obtain ⟨i, hi⟩ := Int.eq_ofNat_of_zero_le (a := key - r.last - 1) (by omega)
      have hkey : key = (r.last + 1 + i : Nat) := by omega
      have hnat : (key - (r.last : Int)).toNat = 1 + i := by omega
      refine ⟨r.last + 1 + i, hkey, .inr ⟨i, by omega, rfl, ?_⟩⟩
      rw [← Option.some.inj h, hnat, ← hkey, Nat.add_assoc]
  · rw [hr.get?_eq_some_iff_mem]
    constructor
    · rintro ⟨k, rfl, h | ⟨i, hi, rfl, -⟩⟩
      · exact ⟨k, rfl, h⟩
      · omega
    · rintro ⟨k, rfl, h⟩
      exact ⟨k, rfl, .inl h⟩

/-- After a gap is closed, an entry has the number before or the one it had. -/
theorem getElem?_eraseAt_mapValues {V : Type} {r : Registry V} {f : V → V} {i j k : Nat} {v : V}
    (h : ((r.eraseAt i).mapValues f).entries[j]? = some (k, v)) :
    ∃ w, r.entries[if j < i then j else j + 1]? = some (k, w) ∧ v = f w := by
  simp only [mapValues, eraseAt, List.getElem?_map, Option.map_eq_some_iff,
    List.getElem?_eraseIdx] at h
  obtain ⟨⟨k', w⟩, he, heq⟩ := h
  cases heq
  refine ⟨w, ?_, rfl⟩
  split_ifs at he ⊢ <;> exact he

end Registry

theorem closeGap_of_place {i j : Nat} :
    closeGap (i + 1) ((if j < i then j else j + 1) + 1) = j + 1 := by
  simp only [closeGap]
  split_ifs <;> omega

namespace Model.WellFormed

variable {m : Model α} (hm : m.WellFormed)
include hm

/-! ### Variables -/

theorem grown (n : Nat) : (m.grown n).WellFormed where
  vars := hm.vars.enroll n
  affine := hm.affine
  columnCount := by
    simp only [Model.grown, Problem.padSolutions, Registry.entries_enroll, List.length_append,
      List.length_replicate, List.length_map, List.length_range, hm.columnCount]
  rowCount := hm.rowCount
  column {i k info} h := by
    simp only [Model.grown, Registry.entries_enroll, List.getElem?_append] at h
    split_ifs at h with hi
    · exact hm.column h
    · simp only [List.getElem?_map, Option.map_eq_some_iff, Prod.mk.injEq] at h
      obtain ⟨j, hj, rfl, rfl⟩ := h
      obtain ⟨hlt, hj⟩ := List.getElem?_eq_some_iff.1 hj
      rw [List.getElem_range] at hj
      subst hj
      refine ⟨rfl, ?_⟩
      simp only [Registry.size]
      omega
  row := hm.row
  fits r hr := by
    refine (hm.fits r hr).mono ?_
    simp only [Model.grown, Problem.padSolutions, List.length_append]
    omega

theorem withoutVariable {i k : Nat} {info : VariableInfo} {c : Column α}
    (h : m.VariableAt i k info c) : (m.withoutVariable i k info).WellFormed where
  vars := (hm.vars.eraseAt i).mapValues _
  affine := hm.affine
  columnCount := by
    simp only [Model.withoutVariable, Problem.forgetSolutions, Registry.mapValues,
      Registry.eraseAt, List.length_map, List.length_eraseIdx, hm.columnCount]
  rowCount := by
    simp only [Model.withoutVariable, Problem.forgetSolutions, List.length_map]
    exact hm.rowCount
  column {j n other} hj := by
    obtain ⟨other, he, rfl⟩ := Registry.getElem?_eraseAt_mapValues hj
    have hother := hm.column he
    refine ⟨hother.1, ?_⟩
    rw [VariableInfo.closeGap, hother.2]
    exact closeGap_of_place
  row {j n cinfo r} hj hr := by
    simp only [Model.withoutVariable, Problem.forgetSolutions, List.getElem?_map,
      Option.map_eq_some_iff] at hr
    obtain ⟨s, hs, rfl⟩ := hr
    have hrow := hm.row hj hs
    exact ⟨hrow.1, hrow.2⟩
  fits r hr := by
    simp only [Model.withoutVariable, Problem.forgetSolutions, List.mem_map] at hr
    obtain ⟨s, hs, rfl⟩ := hr
    have hi := h.place_lt
    have hlength : (m.withoutVariable i k info).problem.columns.length + 1 =
        m.problem.columns.length := by
      simp only [Model.withoutVariable, Problem.forgetSolutions, List.length_eraseIdx, if_pos hi]
      omega
    refine Row.Fits.dropColumns ?_ (by omega) (by omega)
    rw [hlength]
    exact hm.fits s hs

/-! ### Rows -/

theorem withRow {s : ScalarSet α} {r : Row α} (hs : s.rowBound? = some r.bounds)
    (hr : r.Fits m.problem.columns.length) : (m.withRow s r).WellFormed where
  vars := hm.vars
  affine := hm.affine.add _
  columnCount := hm.columnCount
  rowCount := by
    simp only [Model.withRow, Problem.padSolutions, Registry.add, List.length_append, hm.rowCount]
    rfl
  column := hm.column
  row {i k info r'} hi hr' := by
    simp only [Model.withRow, Problem.padSolutions, Registry.add, List.getElem?_append,
      hm.rowCount] at hi hr'
    split_ifs at hi hr' with hlt
    · exact hm.row hi hr'
    · rw [List.getElem?_singleton] at hi hr'
      split_ifs at hi hr' with hz
      cases hi
      cases hr'
      refine ⟨?_, hs⟩
      simp only [Registry.size]
      omega
  fits r' hr' := by
    simp only [Model.withRow, Problem.padSolutions, List.mem_append, List.mem_singleton] at hr'
    rcases hr' with h | rfl
    · exact hm.fits r' h
    · exact hr

theorem withoutRow (i : Nat) (info : ConstraintInfo α) : (m.withoutRow i info).WellFormed where
  vars := hm.vars
  affine := (hm.affine.eraseAt i).mapValues _
  columnCount := hm.columnCount
  rowCount := by
    simp only [Model.withoutRow, Problem.forgetSolutions, Registry.mapValues, Registry.eraseAt,
      List.length_map, List.length_eraseIdx, hm.rowCount]
  column := hm.column
  row {j n other r} hj hr := by
    obtain ⟨other, he, rfl⟩ := Registry.getElem?_eraseAt_mapValues hj
    have hr' : m.problem.rows[if j < i then j else j + 1]? = some r := by
      simp only [Model.withoutRow, Problem.forgetSolutions, List.getElem?_eraseIdx] at hr
      split_ifs at hr ⊢ <;> exact hr
    have hother := hm.row he hr'
    refine ⟨?_, hother.2⟩
    rw [ConstraintInfo.closeGap, hother.1]
    exact closeGap_of_place
  fits r hr := hm.fits r ((List.eraseIdx_sublist ..).subset hr)

/-- Another row at a place, with the bounds of its set. -/
theorem withRowAt {i k : Nat} {info : ConstraintInfo α} {r : Row α} (h : m.RowAt i k info r)
    {f : Row α → Row α} (hb : (f r).bounds = r.bounds)
    (hf : (f r).Fits m.problem.columns.length) : (m.withRowAt i f).WellFormed := by
  have hid : m.affine.modify k id = m.affine := by
    rw [hm.affine.modify_of_getElem h.entry]
    exact congrArg (fun es => { m.affine with entries := es }) (List.modify_id i _)
  have := hm.modifyRow h (f := id) (g := f) rfl (hb ▸ h.bounds) hf
  rw [hid] at this
  exact this

theorem withCosts (costs : List α) (hn : costs.length = m.vars.entries.length) (constant : α)
    (kind : ObjectiveKind) : ({ m with
      problem := { m.problem with
        columns := List.zipWith (fun c cost => { c with cost := cost }) m.problem.columns costs
        constant := constant }
      objectiveKind := kind } : Model α).WellFormed :=
  hm.congr rfl rfl (by simp [hm.columnCount, hn]) rfl

end Model.WellFormed

/-! ### Calls -/

/-- Calls that change variables, constraints or the objective. -/
inductive Edit (α : Type) where
  | addVariable
  | addVariables (n : Int)
  | addConstraint (f : FunctionArg α) (s : SetArg α)
  | delete (i : IndexArg α)
  | setConstraintSet (i : IndexArg α) (s : SetArg α)
  | setConstraintFunction (i : IndexArg α) (f : FunctionArg α)
  | modifyCoefficient (i v : IndexArg α) (x : α)
  | setObjective (f : FunctionArg α)
  | modifyObjectiveCoefficient (v : IndexArg α) (x : α)
  | modifyObjectiveConstant (x : α)

/-- The set that an edit writes for a single variable. -/
def Edit.bound? : Edit α → Option (ScalarSet α)
  | addConstraint (.var _) (.set s) | addConstraint (.single _) (.set s) => some s
  | setConstraintSet (.constraint ⟨.singleVariable, _, _⟩) (.set s) => some s
  | _ => none

/-- What a caller gets back from an edit. -/
inductive Reply where
  | done
  | newVariable (v : VariableIndex)
  | newVariables (vs : List VariableIndex)
  | newConstraint (c : ConstraintIndex)
deriving DecidableEq, Repr

/-- The new variables in an answer. -/
def Reply.variables : Reply → List VariableIndex
  | .newVariable v => [v]
  | .newVariables vs => vs
  | _ => []

/-- The new affine constraint in an answer, if there is one. -/
def Reply.affine : Reply → List Int
  | .newConstraint c => if c.function = .scalarAffine then [c.value] else []
  | _ => []

/-- The variables that a history of edits was given. -/
def newVariables (replies : List (Except (Fault α) Reply)) : List VariableIndex :=
  replies.flatMap fun
    | .ok a => a.variables
    | .error _ => []

/-- The affine constraints that a history of edits was given. -/
def newAffine (replies : List (Except (Fault α) Reply)) : List Int :=
  replies.flatMap fun
    | .ok a => a.affine
    | .error _ => []

namespace Edit

open Modelling

def run : Edit α → Modelling α Reply
  | addVariable => return .newVariable (← Modelling.addVariable)
  | addVariables n => return .newVariables (← Modelling.addVariables n)
  | addConstraint f s => return .newConstraint (← Modelling.addConstraint f s)
  | delete i => do
    Modelling.delete i
    return .done
  | setConstraintSet i s => do
    Modelling.setConstraintSet i s
    return .done
  | setConstraintFunction i f => do
    Modelling.setConstraintFunction i f
    return .done
  | modifyCoefficient i v x => do
    Modelling.modifyCoefficient i v x
    return .done
  | setObjective f => do
    Modelling.setObjective f
    return .done
  | modifyObjectiveCoefficient v x => do
    Modelling.modifyObjectiveCoefficient v x
    return .done
  | modifyObjectiveConstant x => do
    Modelling.modifyObjectiveConstant x
    return .done

/-- The answers to a history of edits, and the model after it. -/
def runAll : List (Edit α) → Model α → List (Except (Fault α) Reply) × Model α
  | [], m => ([], m)
  | e :: es, m =>
    match e.run m with
    | .ok a m' => (.ok a :: (runAll es m').1, (runAll es m').2)
    | .error f m' => (.error f :: (runAll es m').1, (runAll es m').2)

end Edit

/-! ### Names -/

/-- An edit, a renaming or a lookup of a name. -/
inductive Call (α : Type) where
  | edit (e : Edit α)
  | setVariableName (v : VariableIndex) (name : String)
  | setConstraintName (i : IndexArg α) (name : String)
  | variableByName (name : String)
  | constraintByName (name : String) (kinds : Option (Kind × Kind))

namespace Call

/-- The model after a call, also when the call failed. -/
def after (m : Model α) : Call α → Model α
  | edit e => MixedInteger.after e.run m
  | setVariableName v name => MixedInteger.after (Modelling.setVariableName (.var v) name) m
  | setConstraintName i name => MixedInteger.after (Modelling.setConstraintName i name) m
  | variableByName name => MixedInteger.after (Modelling.variableByName name) m
  | constraintByName name kinds => MixedInteger.after (Modelling.constraintByName name kinds) m

/-- The model after a history of calls. -/
def afterAll (m : Model α) (cs : List (Call α)) : Model α := cs.foldl after m

theorem after_addVariables {m : Model α} (hm : m.WellFormed) {n : Int} (hn : 1 ≤ n) :
    after m (.edit (.addVariables n)) = m.grown n.toNat :=
  (after_return (Modelling.addVariables n) Reply.newVariables).trans
    (after_ok (Modelling.addVariables_run hm hn))

end Call

end MixedInteger
