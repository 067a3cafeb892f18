import MixedInteger.Exchange.Algebraic
import MixedInteger.Proofs.Algebraic.Parts

/-! Algebraic models that are taken over, from an exact report. The model that comes out is satisfied
by the points that satisfy the algebraic model, it has its objective, and every active constraint has
just the rows that it needs. A model with an active constraint or objective that is not linear, or
with several active objectives, is refused. -/

namespace MixedInteger

open Extended

/-! ### Rows of a draft -/

/-- The indices of rows, from the first number on. -/
def rowIndices (n : ℕ) (rows : List (AffineFunction Extended × ScalarSet Extended)) :
    List ConstraintIndex :=
  (rows.zipIdx n).map fun e => ⟨.scalarAffine, e.1.2.kind, (e.2 + 1 : ℕ)⟩

theorem rowIndices_append (n : ℕ) (xs ys : List (AffineFunction Extended × ScalarSet Extended)) :
    rowIndices n (xs ++ ys) = rowIndices n xs ++ rowIndices (n + xs.length) ys := by
  simp [rowIndices, List.zipIdx_append]

theorem rowIndices_kinds (n : ℕ) (rows : List (AffineFunction Extended × ScalarSet Extended)) :
    (rowIndices n rows).map (·.set) = rows.map (·.2.kind) := by
  conv_rhs => rw [← List.zipIdx_map_fst n rows]
  rw [rowIndices, List.map_map, List.map_map]
  rfl

theorem mem_rowIndices {n : ℕ} {rows : List (AffineFunction Extended × ScalarSet Extended)}
    {c : ConstraintIndex} : c ∈ rowIndices n rows ↔ ∃ (i : ℕ) (e : _), rows[i]? = some e ∧
      c = ⟨.scalarAffine, e.2.kind, (n + i + 1 : ℕ)⟩ := by
  rw [rowIndices, List.mem_map]
  constructor
  · rintro ⟨⟨e, i⟩, hi, rfl⟩
    obtain ⟨hle, hget⟩ := List.mk_mem_zipIdx_iff_le_and_getElem?_sub.1 hi
    exact ⟨i - n, e, hget, by simp only; congr 2; omega⟩
  · rintro ⟨i, e, hget, rfl⟩
    exact ⟨(e, n + i), List.mk_mem_zipIdx_iff_le_and_getElem?_sub.2 ⟨by omega, by simpa using hget⟩, rfl⟩

/-- The indices of all rows of a draft. -/
theorem mem_rowIndices_zero {rows : List (AffineFunction Extended × ScalarSet Extended)}
    {c : ConstraintIndex} : c ∈ rowIndices 0 rows ↔
      ∃ e, nth? rows c.value = some e ∧ c = ⟨.scalarAffine, e.2.kind, c.value⟩ := by
  rw [mem_rowIndices]
  constructor
  · rintro ⟨i, e, hget, rfl⟩
    exact ⟨e, nth?_eq_some.2 ⟨i, by simp, hget⟩, rfl⟩
  · rintro ⟨e, he, hc⟩
    obtain ⟨i, hi, hget⟩ := nth?_eq_some.1 he
    exact ⟨i, e, hget, by rw [hc, hi, zero_add]⟩

theorem nodup_rowIndices (rows : List (AffineFunction Extended × ScalarSet Extended)) :
    (rowIndices 0 rows).Nodup := by
  have hvalues : (rowIndices 0 rows).map (·.value) =
      (List.range rows.length).map fun (i : ℕ) => ((i + 1 : ℕ) : ℤ) := by
    induction rows using List.reverseRecOn with
    | nil => rfl
    | append_singleton rows e ih =>
      rw [rowIndices_append, List.map_append, ih, List.length_append, List.length_singleton,
        List.range_succ, List.map_append, zero_add]
      rfl
  refine List.Nodup.of_map (·.value) ?_
  rw [hvalues]
  exact List.nodup_range.map fun i j h => by simpa using h

namespace Model.Follows

variable {m : Model Extended} {d : Draft} (h : m.Follows d)
include h

/-- Rows with one function, one after another. -/
theorem addRows {f : AffineFunction Extended} (hf : f.Spans d.vars.length) (hzero : f.constant = 0)
    {ss : List (ScalarSet Extended)} (hss : ∀ s ∈ ss, s.isRow = true) :
    ∃ m', ss.mapM (fun s => Modelling.addConstraint (.affine f) (.set s)) m =
        .ok (rowIndices d.rows.length (ss.map fun s => (f, s))) m' ∧
      m'.Follows { d with rows := d.rows ++ ss.map fun s => (f, s) } := by
  induction ss generalizing m d with
  | nil => exact ⟨m, rfl, by simpa using h⟩
  | cons s ss ih =>
    rw [List.forall_mem_cons] at hss
    obtain ⟨m₁, hadd, h₁⟩ := h.addAffine hf hzero hss.1
    obtain ⟨m₂, hrest, h₂⟩ := ih h₁ hf hss.2
    refine ⟨m₂, ?_, by simpa [Draft.addRow] using h₂⟩
    simp only [List.mapM_cons, bind_run, hadd, hrest, pure_run]
    simp [rowIndices, Draft.addRow]

/-- Names for rows, one after another. -/
theorem nameRows (cs : List (ConstraintIndex × String))
    (hcs : ∀ c ∈ cs, c.1 ∈ rowIndices 0 d.rows) :
    ∃ m', (ForIn.forIn cs PUnit.unit (fun (c, name) _ => do
        Modelling.setConstraintName (.constraint c) name
        pure (ForInStep.yield PUnit.unit)) : Modelling Extended PUnit) m = .ok ⟨⟩ m' ∧
      m'.Follows d := by
  induction cs generalizing m with
  | nil => exact ⟨m, rfl, h⟩
  | cons c cs ih =>
    rw [List.forall_mem_cons] at hcs
    obtain ⟨⟨e, he, hc⟩, hrest⟩ := hcs.imp_left mem_rowIndices_zero.1
    obtain ⟨m₁, hname, h₁⟩ := h.setConstraintName he c.2
    rw [← hc] at hname
    obtain ⟨m₂, hrun, h₂⟩ := ih h₁ hrest
    refine ⟨m₂, ?_, h₂⟩
    rw [List.forIn_cons]
    simp only [bind_run, hname, pure_run]
    exact hrun

end Model.Follows

/-! ### What a model says -/

namespace Algebraic.Report

variable {E : Type} (a : Report E Extended) (value : E → (String → ℚ) → ℚ)

/-- All variables have values that they may have, and all active constraints hold. -/
def SatisfiedBy (w : String → ℚ) : Prop :=
  (∀ v ∈ a.vars, v.Allows (w v.name)) ∧ ∀ r ∈ a.activeRows, r.Holds (value r.body w)

def objectiveAt (w : String → ℚ) : ℚ :=
  match a.activeObjectives with
  | [o] => value o.body w
  | _ => 0

def sense : ObjectiveSense :=
  match a.activeObjectives with
  | [o] => if o.maximize then .maximize else .minimize
  | _ => .feasibility

/-- What is active is linear, and there is one active objective at most. -/
structure Proper : Prop where
  bodies : ∀ e ∈ a.activeBodies, a.Linear e
  single : a.activeObjectives.length ≤ 1

/-- The rows of a constraint are of the kinds that it needs, and each says its side of it. -/
structure Encodes (m : Model Extended) (c : Correspondence) (r : Row E Extended)
    (e : String × List ConstraintIndex) : Prop where
  name : e.1 = r.name
  kinds : e.2.map (·.set) = r.kinds
  sides : ∀ (z : Assignment) (w : String → ℚ), (∀ e ∈ c.vars, z e.2 = w e.1) → a.FixingsHold w →
    ∀ k ∈ e.2, m.HoldsAt k z ↔ r.Side k.set (value r.body w)

/-- The model says what the algebraic model says, at points whose values are doubles, and at all
points when no bound of a variable is as large as the largest double. Every active constraint has
its rows, and there are no others. -/
structure Carries (c : Correspondence) (m : Model Extended) : Prop where
  names : c.vars.map (·.1) = a.names
  indices : c.vars.map (·.2) = m.variableIndices
  satisfied : ∀ (z : Assignment) (w : String → ℚ), (∀ e ∈ c.vars, z e.2 = w e.1) →
    (∀ v ∈ a.vars, v.declaration.InRange (w v.name)) → (m.Satisfied z ↔ a.SatisfiedBy value w)
  objective : ∀ (z : Assignment) (w : String → ℚ), (∀ e ∈ c.vars, z e.2 = w e.1) →
    a.FixingsHold w → m.objective.valueAt z = a.objectiveAt value w
  sense : m.objectiveSense = a.sense
  rows : List.Forall₂ (a.Encodes value m c) a.activeRows c.rows
  distinct : (c.rows.flatMap (·.2)).Nodup
  complete : ∀ k : ConstraintIndex, k ∈ c.rows.flatMap (·.2) ↔
    k.function = .scalarAffine ∧ m.isValid (.constraint k) = true

/-- The model cannot be taken over. -/
def IsImport (f : Fault Extended) : Prop := ∃ e, f = .notImported e

/-! ### Linear forms as functions -/

def form (e : E) : LinearForm Extended := (a.linear? e).getD ⟨0, []⟩

def affine (f : LinearForm Extended) (k : Extended) : AffineFunction Extended :=
  ⟨f.terms.map fun t => ⟨t.1, placed a.names t.2⟩, k⟩

/-- The rows of a constraint. -/
def drafted (r : Row E Extended) : List (AffineFunction Extended × ScalarSet Extended) :=
  (r.sets (a.form r.body).constant).map fun s => (a.affine (a.form r.body) 0, s)

variable {a value}

section
variable {f : LinearForm Extended} {q : (String → ℚ) → ℚ} (hf : a.Reads f q)
include hf

theorem Reads.constant : f.constant.IsRat := by
  obtain ⟨k, ts, rfl, -, -⟩ := hf
  exact isRat_rat k

theorem Reads.spans (k : ℚ) : (a.affine f (rat k)).Spans a.names.length := by
  obtain ⟨_, ts, rfl, hts, -⟩ := hf
  simpa [affine, spelled, Function.comp_def] using spans_spelled hts k

/-- Where the fixings hold, the function is worth what is read, up to the constant. -/
theorem Reads.valueAt {z : Assignment} {w : String → ℚ} (hzw : SamePoint a.names z w)
    (hw : a.FixingsHold w) (k : ℚ) :
    f.constant.value + (a.affine f (rat k)).valueAt z = k + q w := by
  obtain ⟨c, ts, rfl, hts, hvalue⟩ := hf
  have hspelled := valueAt_spelled hts hzw k
  simp only [spelled] at hspelled
  simp only [affine, List.map_map, Function.comp_def, hspelled, ← hvalue w hw, Extended.value]
  ring

theorem Reads.termsOf_run (m : Model Extended) :
    termsOf (inOrder a.names) f m = .ok (a.affine f 0).terms m := by
  obtain ⟨c, ts, rfl, hts, -⟩ := hf
  simp only [termsOf, affine, lookup_inOrder]
  induction ts with
  | nil => rfl
  | cons t ts ih =>
    rw [List.forall_mem_cons] at hts
    simp only [List.map_cons, List.mapM_cons, bind_run, if_pos hts.1, pure_run, ih hts.2]

end

theorem Linear.form_eq {e : E} (h : a.Linear e) : a.linear? e = some (a.form e) := by
  obtain ⟨f, hf⟩ := Option.isSome_iff_exists.1 h
  rw [form, hf]
  rfl

theorem linear_decides (what name : String) (e : E) (m : Model Extended) :
    Decides (linear a what name e m) (a.Linear e) (fun f m' => f = a.form e ∧ m' = m) IsImport := by
  rw [linear, form, Linear]
  cases a.linear? e with
  | some f => exact (Decides.of_ok rfl ⟨rfl, rfl⟩).congr (by simp)
  | none => exact (Decides.of_error rfl ⟨_, rfl⟩).congr (by simp)

/-! ### Rows and their indices -/

/-- The indices of a constraint are those of its rows. -/
structure Placed (a : Report E Extended)
    (rows : List (AffineFunction Extended × ScalarSet Extended)) (r : Row E Extended)
    (e : String × List ConstraintIndex) : Prop where
  name : e.1 = r.name
  kinds : e.2.map (·.set) = (a.drafted r).map (·.2.kind)
  found : ∀ c ∈ e.2, ∃ p ∈ a.drafted r, nth? rows c.value = some p ∧
    c = ⟨.scalarAffine, p.2.kind, c.value⟩

section
variable {rows : List (AffineFunction Extended × ScalarSet Extended)} {r : Row E Extended}

theorem Placed.append {e : String × List ConstraintIndex} (h : a.Placed rows r e)
    (others : List (AffineFunction Extended × ScalarSet Extended)) :
    a.Placed (rows ++ others) r e where
  name := h.name
  kinds := h.kinds
  found c hc := by
    obtain ⟨p, hp, hnth, heq⟩ := h.found c hc
    obtain ⟨i, hi, hget⟩ := nth?_eq_some.1 hnth
    exact ⟨p, hp, nth?_eq_some.2 ⟨i, hi, by
      rw [List.getElem?_append_left (List.getElem?_eq_some_iff.1 hget).1, hget]⟩, heq⟩

variable (a rows r) in
theorem placed_drafted : a.Placed (rows ++ a.drafted r) r
    (r.name, rowIndices rows.length (a.drafted r)) where
  name := rfl
  kinds := rowIndices_kinds _ _
  found c hc := by
    obtain ⟨i, p, hget, rfl⟩ := mem_rowIndices.1 hc
    refine ⟨p, List.mem_of_getElem? hget, nth?_eq_some.2 ⟨rows.length + i, rfl, ?_⟩, rfl⟩
    rw [List.getElem?_append_right (by omega), Nat.add_sub_cancel_left, hget]

end

section
variable (ha : a.Exact value)
include ha

theorem Exact.reads_row {r : Row E Extended} (hr : r ∈ a.activeRows) (h : a.Linear r.body) :
    a.Reads (a.form r.body) (value r.body) :=
  ha.linear _ (List.mem_append_left _ (List.mem_map_of_mem hr)) _ h.form_eq

theorem Exact.reads_objective {o : Objective E} (ho : o ∈ a.activeObjectives)
    (h : a.Linear o.body) : a.Reads (a.form o.body) (value o.body) :=
  ha.linear _ (List.mem_append_right _ (List.mem_map_of_mem ho)) _ h.form_eq

variable {r : Row E Extended} (hr : r ∈ a.activeRows)
include hr

theorem kinds_drafted : (a.drafted r).map (·.2.kind) = r.kinds := by
  rw [drafted, List.map_map, ← Row.sets_kinds (ha.equality r hr) (a.form r.body).constant]
  rfl

variable (hlinear : a.Linear r.body)
include hlinear

/-- Where the fixings hold, a row says its side of the constraint. -/
theorem contains_drafted {z : Assignment} {w : String → ℚ} (hzw : SamePoint a.names z w)
    (hw : a.FixingsHold w) : ∀ p ∈ a.drafted r,
      p.2.Contains (p.1.valueAt z) ↔ r.Side p.2.kind (value r.body w) := by
  have hreads := ha.reads_row hr hlinear
  have hvalue := hreads.valueAt hzw hw 0
  rw [zero_add] at hvalue
  intro p hp
  obtain ⟨s, hs, rfl⟩ := List.mem_map.1 hp
  rw [hreads.constant.eq] at hs
  rw [← hvalue]
  exact (Row.contains_sets (ha.sides r hr) (ha.equality r hr) _ s hs).2 _

/-- Where the fixings hold, all rows of a constraint hold when it does. -/
theorem holds_drafted {z : Assignment} {w : String → ℚ} (hzw : SamePoint a.names z w)
    (hw : a.FixingsHold w) :
    (∀ p ∈ a.drafted r, p.2.Contains (p.1.valueAt z)) ↔ r.Holds (value r.body w) := by
  rw [← Row.sides_iff (ha.equality r hr), ← kinds_drafted ha hr, List.forall_mem_map]
  exact forall₂_congr (contains_drafted ha hr hlinear hzw hw)

/-- The indices of a constraint are rows that encode it. -/
theorem Placed.encodes {e : String × List ConstraintIndex} {m : Model Extended} {d : Draft}
    {c : Correspondence} (hp : a.Placed d.rows r e) (h : m.Follows d)
    (hc : c.vars = inOrder a.names) : a.Encodes value m c r e where
  name := hp.name
  kinds := hp.kinds.trans (kinds_drafted ha hr)
  sides z w hzw hw k hk := by
    obtain ⟨p, hmem, hnth, heq⟩ := hp.found k hk
    rw [heq, h.holds_row hnth z]
    exact contains_drafted ha hr hlinear (fun e he => hzw e (hc ▸ he)) hw p hmem

end

/-! ### The transfer -/

section
variable (ha : a.Exact value) {m : Model Extended} {d : Draft} (h : m.Follows d)
include ha h

/-- The variables, from none. -/
theorem variables_run (hvars : d.vars = []) :
    ∃ m', a.vars.foldlM declare [] m = .ok (inOrder a.names) m' ∧ ∃ d', m'.Follows d' ∧
      d'.vars = draftedAll Variable.name Variable.declaration a.vars ∧ d'.rows = d.rows ∧
      d'.objective = d.objective := by
  have hloop := foldlM_run (f := declare) a.vars
    (fun done declared (m' : Model Extended) => declared = inOrder (done.map Variable.name) ∧
      ∃ d', m'.Follows d' ∧ d'.vars = draftedAll Variable.name Variable.declaration done ∧
        d'.rows = d.rows ∧ d'.objective = d.objective)
    (fun done v rest hsplit declared m₁ h₁ => by
      obtain ⟨rfl, d₁, h₁, hvars₁, hrows₁, hobjective₁⟩ := h₁
      have hv : v ∈ a.vars := by simp [hsplit]
      have hlength : d₁.vars.length = (done.map Variable.name).length := by simp [hvars₁, draftedAll]
      obtain ⟨m₂, hrun, h₂⟩ :=
        Variable.declare_run (ha.fixed v hv) (ha.bounds v hv) h₁ hlength
      refine ⟨_, m₂, hrun, by simp, _, h₂, ?_, hrows₁, hobjective₁⟩
      simp [Draft.declare, hvars₁, draftedAll])
    ⟨rfl, d, h, hvars, rfl, rfl⟩
  obtain ⟨_, m', hrun, rfl, h'⟩ := hloop
  exact ⟨m', hrun, h'⟩

variable (hlength : d.vars.length = a.names.length)
include hlength

/-- A constraint that is linear becomes its rows. -/
theorem addRow_decides {r : Row E Extended} (hr : r ∈ a.activeRows) :
    Decides (addRow a (inOrder a.names) r m) (a.Linear r.body)
      (fun e m' => e = (r.name, rowIndices d.rows.length (a.drafted r)) ∧
        m'.Follows { d with rows := d.rows ++ a.drafted r }) IsImport := by
  unfold addRow
  refine ((linear_decides "constraint" r.name r.body m).bind fun hlinear f m₁ h₁ => ?_).congr
    (iff_of_eq (and_true _))
  obtain ⟨rfl, rfl⟩ := h₁
  have hreads := ha.reads_row hr hlinear
  have hrational := hreads.constant
  have hsets : ∀ s ∈ r.sets (a.form r.body).constant, s.isRow = true := fun s hs =>
    (Row.contains_sets (ha.sides r hr) (ha.equality r hr) _ s (by rwa [← hrational.eq])).1
  obtain ⟨m₂, hadd, h₂⟩ := h.addRows (hlength ▸ hreads.spans 0) rfl hsets
  obtain ⟨m₃, hname, h₃⟩ := h₂.nameRows ((rowIndices d.rows.length (a.drafted r)).zip
    (rowNames r.name (rowIndices d.rows.length (a.drafted r)).length)) fun c hc => by
      rw [rowIndices_append, zero_add]
      exact List.mem_append_right _ (List.of_mem_zip hc).1
  exact .after (hreads.termsOf_run m₁) (.after (Row.rowSets_run (ha.equality r hr) _ m₁)
    (.after hadd (.after hname (.of_ok rfl ⟨rfl, h₃⟩))))

/-- The active constraints, one after another. -/
theorem rows_decide (hrows : d.rows = []) :
    Decides (a.activeRows.mapM (addRow a (inOrder a.names)) m)
      (∀ r ∈ a.activeRows, a.Linear r.body)
      (fun out m' => ∃ d', m'.Follows d' ∧ d'.vars = d.vars ∧ d'.objective = d.objective ∧
        d'.rows = a.activeRows.flatMap a.drafted ∧ List.Forall₂ (a.Placed d'.rows) a.activeRows out ∧
        out.flatMap (·.2) = rowIndices 0 d'.rows) IsImport := by
  refine (Decides.mapM a.activeRows (fun _ r => a.Linear r.body)
    (fun done out (m' : Model Extended) => ∃ d', m'.Follows d' ∧ d'.vars = d.vars ∧
      d'.objective = d.objective ∧ d'.rows = done.flatMap a.drafted ∧
      List.Forall₂ (a.Placed d'.rows) done out ∧ out.flatMap (·.2) = rowIndices 0 d'.rows)
    (fun done r rest hsplit out m₁ h₁ => ?_)
    ⟨d, h, rfl, rfl, hrows, .nil, by rw [hrows]; rfl⟩).congr Decides.sound_forall
  obtain ⟨d₁, h₁, hvars₁, hobjective₁, hrows₁, hplaced, hall⟩ := h₁
  refine (addRow_decides ha h₁ (hvars₁ ▸ hlength) (by simp [hsplit])).imp fun _ e m₂ h₂ => ?_
  obtain ⟨rfl, h₂⟩ := h₂
  refine ⟨_, h₂, hvars₁, hobjective₁, by simp [hrows₁], ?_, ?_⟩
  · exact List.rel_append (hplaced.imp fun _ _ hr => hr.append _)
      (.cons (placed_drafted a d₁.rows r) .nil)
  · simp [hall, rowIndices_append]

/-- The objective is the active one, or none. -/
theorem setGoal_decides (hobjective : d.objective = ⟨[], 0⟩) :
    Decides (setGoal a (inOrder a.names) m)
      ((∀ o ∈ a.activeObjectives, a.Linear o.body) ∧ a.activeObjectives.length ≤ 1)
      (fun _ m' => m'.objectiveSense = a.sense ∧ ∃ f, m'.Follows { d with objective := f } ∧
        ∀ (z : Assignment) (w : String → ℚ), SamePoint a.names z w → a.FixingsHold w →
          f.valueAt z = a.objectiveAt value w) IsImport := by
  unfold setGoal
  have hactive : a.objectives.filter (·.active) = a.activeObjectives := rfl
  simp only [hactive, sense, objectiveAt]
  cases hobjectives : a.activeObjectives with
  | nil =>
    refine (Decides.of_ok rfl ⟨m.objectiveSense_withSense _, d.objective, ?_, ?_⟩).congr (by simp)
    · exact h.setObjectiveSense _
    · intro z w _ _
      rw [hobjective]
      simp [AffineFunction.valueAt, Extended.value]
  | cons o os =>
    cases os with
    | cons o' os => exact (Decides.of_error rfl ⟨_, rfl⟩).congr (by simp)
    | nil =>
      have ho : o ∈ a.activeObjectives := by simp [hobjectives]
      suffices hdecides : Decides _ (a.Linear o.body ∧ True) _ _ from hdecides.congr (by simp)
      refine (linear_decides "objective" o.name o.body m).bind fun hlinear f m₁ h₁ => ?_
      obtain ⟨rfl, rfl⟩ := h₁
      have hreads := ha.reads_objective ho hlinear
      have hspans := hreads.spans (a.form o.body).constant.value
      rw [← hreads.constant.eq, ← hlength] at hspans
      obtain ⟨m₂, hset, h₂⟩ := h.setObjective hspans
      refine .after (hreads.termsOf_run m₁) (.after hset (.of_ok rfl
        ⟨m₂.objectiveSense_withSense _, _, h₂.setObjectiveSense _, fun z w hzw hw => ?_⟩))
      have hvalue := hreads.valueAt hzw hw (a.form o.body).constant.value
      rw [← hreads.constant.eq] at hvalue
      exact add_left_cancel hvalue

end

theorem proper_iff : a.Proper ↔ (∀ r ∈ a.activeRows, a.Linear r.body) ∧
    (∀ o ∈ a.activeObjectives, a.Linear o.body) ∧ a.activeObjectives.length ≤ 1 := by
  have hbodies : (∀ e ∈ a.activeBodies, a.Linear e) ↔
      (∀ r ∈ a.activeRows, a.Linear r.body) ∧ ∀ o ∈ a.activeObjectives, a.Linear o.body := by
    rw [activeBodies, List.forall_mem_append, List.forall_mem_map, List.forall_mem_map]
  rw [← and_assoc, ← hbodies]
  exact ⟨fun h => ⟨h.bodies, h.single⟩, fun h => ⟨h.1, h.2⟩⟩

section
variable (ha : a.Exact value)
include ha

/-- A model that follows the variables and the rows of an algebraic model says what it says. -/
theorem carries_of_follows (hproper : a.Proper) {m : Model Extended} {d : Draft} (h : m.Follows d)
    {out : List (String × List ConstraintIndex)}
    (hvars : d.vars = draftedAll Variable.name Variable.declaration a.vars)
    (hrows : d.rows = a.activeRows.flatMap a.drafted)
    (hplaced : List.Forall₂ (a.Placed d.rows) a.activeRows out)
    (hall : out.flatMap (·.2) = rowIndices 0 d.rows) (hsense : m.objectiveSense = a.sense)
    (hobjective : ∀ (z : Assignment) (w : String → ℚ), SamePoint a.names z w → a.FixingsHold w →
      d.objective.valueAt z = a.objectiveAt value w) :
    a.Carries value ⟨inOrder a.names, out⟩ m where
  names := inOrder_names _
  indices := h.indices_named Variable.name Variable.declaration hvars
  satisfied z w hzw hrange := by
    rw [h.satisfied_named Variable.name Variable.declaration hvars hzw hrange, SatisfiedBy,
      forall₂_congr fun v hv => Variable.holds_declaration (ha.fixed v hv) (ha.bounds v hv) (w v.name),
      hrows, List.forall_mem_flatMap]
    refine and_congr_right fun hallows => forall₂_congr fun r hr => ?_
    refine holds_drafted ha hr ((proper_iff.1 hproper).1 r hr) hzw fun v hv hfixed => ?_
    have hvalue := (hallows v hv).1
    rwa [if_pos hfixed] at hvalue
  objective z w hzw hw := (h.valueAt_objective z).trans (hobjective z w hzw hw)
  sense := hsense
  rows := by
    have hmem := (List.forall₂_and_left _ _).2 ⟨fun r (hr : r ∈ a.activeRows) => hr, hplaced⟩
    exact hmem.imp fun r _ hp => hp.2.encodes ha hp.1 ((proper_iff.1 hproper).1 r hp.1) h rfl
  distinct := hall ▸ nodup_rowIndices d.rows
  complete k := by
    rw [hall, mem_rowIndices_zero]
    constructor
    · rintro ⟨e, he, hk⟩
      have hfunction : k.function = .scalarAffine := by rw [hk]
      exact ⟨hfunction, (h.isValid_row hfunction).2 ⟨e, he, by rw [hk]⟩⟩
    · rintro ⟨hfunction, hlive⟩
      obtain ⟨e, he, hkind⟩ := (h.isValid_row hfunction).1 hlive
      refine ⟨e, he, ?_⟩
      cases k
      cases hfunction
      cases hkind
      rfl

theorem transfer_decides (m : Model Extended) :
    Decides (transfer a m) a.Proper (a.Carries value) IsImport := by
  have hstart := Model.Follows.start m a.name
  unfold transfer
  suffices h : Decides _ _ (fun c m' => a.Proper → a.Carries value c m') IsImport from
    (h.congr proper_iff.symm).imp fun hproper _ _ h => h hproper
  obtain ⟨m₁, hrun, d₁, h₁, hvars, hrows, hobjective⟩ := variables_run ha hstart rfl
  have hlength : d₁.vars.length = a.names.length := by simp [hvars, draftedAll, names]
  refine .after rfl (.after rfl (.after hrun ?_))
  refine (rows_decide ha h₁ hlength hrows).bind fun _ out m₂ h₂ => ?_
  obtain ⟨d₂, h₂, hvars₂, hobjective₂, hrows₂, hplaced, hall⟩ := h₂
  refine ((setGoal_decides ha h₂ (hvars₂ ▸ hlength) (hobjective₂.trans hobjective)).bind
    fun _ _ m₃ h₃ => ?_).congr (iff_of_eq (and_true _))
  obtain ⟨hsense, f, h₃, hvalue⟩ := h₃
  exact .of_ok rfl fun hproper =>
    carries_of_follows ha hproper h₃ (hvars₂.trans hvars) hrows₂ hplaced hall hsense hvalue

/-- From an exact report the transfer goes through for the models that are reported to be linear with
one active objective at most, whatever the model was before, and gives what they say; it refuses all
others. Where something active is not linear at all, it is not reported to be. -/
theorem transfer_faithful (m : Model Extended) :
    (a.Proper → ∃ c m', transfer a m = .ok c m' ∧ a.Carries value c m') ∧
      (¬a.Proper → ∃ e m', transfer a m = .error (.notImported e) m') ∧
      ∀ e ∈ a.activeBodies, ¬a.IsLinear (value e) → ¬a.Proper := by
  have h := transfer_decides ha m
  refine ⟨h.success, fun hnot => ?_, fun e he hnot hproper => ?_⟩
  · obtain ⟨_, m', hrun, e, rfl⟩ := h.refusal hnot
    exact ⟨e, m', hrun⟩
  · exact hnot (ha.linear e he _ (hproper.bodies e he).form_eq).isLinear

end

end Algebraic.Report

namespace AlgebraicModel

open MixedInteger.Algebraic

/-- A constraint with a product between two bounds, over a binary, an integer and a variable that
is fixed. -/
def ranged (factors : String × String) : AlgebraicModel Extended :=
  let vars : List (Variable Extended) :=
    [{ name := "b", lower := some (rat 0), upper := some (rat 1), binary := true, integer := true },
      { name := "n", lower := some (rat (-3)), integer := true },
      { name := "z", value := some (rat (5 / 2)), fixed := true }]
  { name := "ranged"
    vars := vars
    rows := [{ name := "c", lower := some (rat (-4)), upper := some (rat 6)
               body := ⟨rat 1, [(rat 1, "b"), (rat 1, "n")], [(rat 2, factors)]⟩ }]
    objectives := [{ name := "o", maximize := true, body := ⟨rat 7, [(rat 2, "b")], []⟩ }]
    linear? := LinearForm.of? (fixings vars) }

theorem ranged_fixed {factors : String × String} {s : String} :
    (ranged factors).Fixed s ↔ s = "z" := by
  constructor
  · rintro ⟨v, hv, rfl, hfixed⟩
    simp only [ranged, List.mem_cons, List.not_mem_nil, or_false] at hv
    obtain rfl | rfl | rfl := hv
    · cases hfixed
    · cases hfixed
    · rfl
  · rintro rfl
    exact ⟨_, .tail _ (.tail _ (.head _)), rfl, rfl⟩

section
variable {factors : String × String}

theorem ranged_value : ∀ v ∈ (ranged factors).vars, v.fixed = true →
    ∃ q, v.value = some (rat q) := by
  intro v hv hfixed
  simp only [ranged, List.mem_cons, List.not_mem_nil, or_false] at hv
  obtain rfl | rfl | rfl := hv
  · cases hfixed
  · cases hfixed
  · exact ⟨5 / 2, rfl⟩

variable (h : factors.1 ∈ ["b", "n", "z"] ∧ factors.2 ∈ ["b", "n", "z"])
include h

theorem ranged_regular : ∀ e ∈ (ranged factors).activeBodies, e.Regular (ranged factors).names := by
  have hbody : (⟨rat 1, [(rat 1, "b"), (rat 1, "n")], [(rat 2, factors)]⟩ :
      Expression Extended).Regular (ranged factors).names :=
    ⟨isRat_rat _, by simp [Report.names, ranged, isRat_rat],
      List.forall_mem_singleton.2 ⟨isRat_rat _, h⟩⟩
  have hgoal : (⟨rat 7, [(rat 2, "b")], []⟩ : Expression Extended).Regular (ranged factors).names :=
    ⟨isRat_rat _, by simp [Report.names, ranged, isRat_rat], nofun⟩
  exact List.forall_mem_cons.2 ⟨hbody, List.forall_mem_singleton.2 hgoal⟩

theorem ranged_exact : (ranged factors).Exact Expression.valueAt where
  fixed := ranged_value
  bounds := by simp [ranged, isRat_rat]
  sides := List.forall_mem_singleton.2 (by simp [isRat_rat])
  equality := List.forall_mem_singleton.2 nofun
  linear e he _ hf := reads_of_linearForm ranged_value rfl (ranged_regular h e he) hf

theorem ranged_linear {e : Expression Extended} (he : e ∈ (ranged factors).activeBodies) :
    (ranged factors).Linear e ↔ (ranged factors).NoProduct e :=
  linear_iff_noProduct ranged_value rfl (ranged_regular h e he)

end

theorem transfer_ranged :
    (∃ c m', transfer (ranged ("n", "z")) {} = .ok c m' ∧
        (ranged ("n", "z")).Carries Expression.valueAt c m') ∧
      ∃ e m', transfer (ranged ("b", "n")) {} = .error (.notImported e) m' := by
  refine ⟨(Report.transfer_faithful (ranged_exact (by decide)) _).1 ⟨fun e he => ?_, le_refl 1⟩,
    (Report.transfer_faithful (ranged_exact (by decide)) _).2.1 fun h => ?_⟩
  · rw [ranged_linear (by decide) he]
    obtain rfl | rfl := List.mem_pair.1 he
    · exact List.forall_mem_singleton.2 (.inr (.inr (ranged_fixed.2 rfl)))
    · exact nofun
  · have hproduct := (ranged_linear (by decide) (.head _)).1 (h.bodies _ (.head _)) _ (.head _)
    simp [ranged_fixed, Extended.value] at hproduct

end AlgebraicModel

end MixedInteger
