import MixedInteger.Exchange.Algebraic
import MixedInteger.Proofs.Job.Description

/-! The parts of an algebraic model. What is relied on is that the report on it is exact: bounds and
the values of fixed variables are numbers, an equality has one number on both sides, and a body that
is reported to be linear is worth what its linear form is worth wherever the fixings hold. The sets
of a variable then say what its value, its bounds and its domain say, and the sets of a constraint
say that its body lies between its bounds, with the constant of the body on the other side.
Expressions that are written out have an exact report: a product of two variables is linear when one
of them is fixed. -/

namespace MixedInteger

open Extended

namespace Algebraic

/-! ### Reports -/

namespace Report

variable {E : Type} (a : Report E Extended)

def names : List String := a.vars.map Variable.name

/-- Fixed variables have their values. -/
def FixingsHold (w : String → ℚ) : Prop :=
  ∀ v ∈ a.vars, v.fixed = true → v.value = some (rat (w v.name))

def activeRows : List (Row E Extended) := a.rows.filter (·.active)

def activeObjectives : List (Objective E) := a.objectives.filter (·.active)

def activeBodies : List E := a.activeRows.map Row.body ++ a.activeObjectives.map Objective.body

/-- The expression is reported to be linear. -/
def Linear (e : E) : Prop := (a.linear? e).isSome = true

/-- Where the fixings hold, this is a constant and multiples of variables of the model. -/
def IsLinear (value : (String → ℚ) → ℚ) : Prop :=
  ∃ k ts, (∀ t ∈ ts, t.2 ∈ a.names) ∧ ∀ w, a.FixingsHold w → value w = k + namedSum ts w

/-- The linear form has terms over the variables, and where the fixings hold it is worth `value`. -/
def Reads (f : LinearForm Extended) (value : (String → ℚ) → ℚ) : Prop :=
  ∃ k ts, f = ⟨rat k, ts.map fun t => (rat t.1, t.2)⟩ ∧ (∀ t ∈ ts, t.2 ∈ a.names) ∧
    ∀ w, a.FixingsHold w → k + namedSum ts w = value w

/-- The report is right about the model, where an expression is worth `value` at a point. -/
structure Exact (value : E → (String → ℚ) → ℚ) : Prop where
  fixed : ∀ v ∈ a.vars, v.fixed = true → ∃ q, v.value = some (rat q)
  bounds : ∀ v ∈ a.vars, (∀ l ∈ v.lower, l.IsRat) ∧ ∀ u ∈ v.upper, u.IsRat
  sides : ∀ r ∈ a.activeRows, (∀ l ∈ r.lower, l.IsRat) ∧ ∀ u ∈ r.upper, u.IsRat
  equality : ∀ r ∈ a.activeRows, r.equality = true →
    ∃ q, r.lower = some (rat q) ∧ r.upper = some (rat q)
  linear : ∀ e ∈ a.activeBodies, ∀ f, a.linear? e = some f → a.Reads f (value e)

variable {a}

theorem Reads.isLinear {f : LinearForm Extended} {value : (String → ℚ) → ℚ} (h : a.Reads f value) :
    a.IsLinear value := by
  obtain ⟨k, ts, -, hts, hvalue⟩ := h
  exact ⟨k, ts, hts, fun w hw => (hvalue w hw).symm⟩

end Report

theorem exists_eq_map_rat {o : Option Extended} (h : ∀ x ∈ o, x.IsRat) :
    ∃ o' : Option ℚ, o = o'.map rat := by
  cases o with
  | none => exact ⟨none, rfl⟩
  | some x => exact ⟨some x.value, congrArg some (h x rfl).eq⟩

/-! ### Variables -/

namespace Variable

def type (v : Variable Extended) : TypeState :=
  if v.binary then .binary else if v.integer then .integer else .continuous

/-- The value is one that the variable may have. -/
def Allows (v : Variable Extended) (q : ℚ) : Prop :=
  (if v.fixed then v.value = some (rat q)
    else (∀ l ∈ v.lower, l ≤ rat q) ∧ ∀ u ∈ v.upper, rat q ≤ u) ∧
  (v.binary = true → q = 0 ∨ q = 1) ∧ (v.integer = true → ∃ k : ℤ, q = k)

/-- What is said of a variable. -/
def declaration (v : Variable Extended) : Declaration where
  fixed := if v.fixed then v.value.map Extended.value else none
  lower := if v.fixed then none else v.lower.map Extended.value
  upper := if v.fixed then none else v.upper.map Extended.value
  type := v.type

theorem admits_type (v : Variable Extended) (q : ℚ) : v.type.Admits q ↔
    (v.binary = true → q = 0 ∨ q = 1) ∧ (v.integer = true → ∃ k : ℤ, q = k) := by
  have hbit : q = 0 ∨ q = 1 → ∃ k : ℤ, q = k := by
    rintro (rfl | rfl)
    · exact ⟨0, by simp⟩
    · exact ⟨1, by simp⟩
  rw [type]
  cases v.binary with
  | true => simpa [TypeState.Admits] using fun h _ => hbit h
  | false => cases v.integer <;> simp [TypeState.Admits]

section
variable {v : Variable Extended} (hfixed : v.fixed = true → ∃ q, v.value = some (rat q))
  (hbounds : (∀ l ∈ v.lower, l.IsRat) ∧ ∀ u ∈ v.upper, u.IsRat)
include hfixed hbounds

theorem holds_declaration (q : ℚ) : v.declaration.Holds q ↔ v.Allows q := by
  obtain ⟨lower, hlower⟩ := exists_eq_map_rat hbounds.1
  obtain ⟨upper, hupper⟩ := exists_eq_map_rat hbounds.2
  rw [Declaration.Holds, Allows]
  refine and_congr ?_ (v.admits_type q)
  simp only [declaration, hlower, hupper]
  cases hf : v.fixed with
  | true =>
    obtain ⟨x, hx⟩ := hfixed hf
    simp [hx, Extended.value, eq_comm]
  | false => simp [Extended.value]

/-- The sets of a variable are those of its declaration. -/
theorem addDomain_eq (x : VariableIndex) :
    addDomain x v = (v.declaration.bounds ++ v.declaration.types).forM (constrain x) := by
  obtain ⟨lower, hlower⟩ := exists_eq_map_rat hbounds.1
  obtain ⟨upper, hupper⟩ := exists_eq_map_rat hbounds.2
  rw [addDomain, Declaration.bounds, Declaration.types, declaration, type, hlower, hupper]
  cases hf : v.fixed with
  | true =>
    obtain ⟨q, hq⟩ := hfixed hf
    cases v.binary <;> cases v.integer <;> simp [fixedValue, hq, Extended.value]
  | false =>
    cases lower <;> cases upper <;> cases v.binary <;> cases v.integer <;> simp [Extended.value]

variable {m : Model Extended} {d : Draft} (h : m.Follows d)
include h

/-- A variable is declared with its name and its sets. -/
theorem declare_run {ns : List String} (hlength : d.vars.length = ns.length) :
    ∃ m', declare (inOrder ns) v m = .ok (inOrder (ns ++ [v.name])) m' ∧
      m'.Follows (d.declare (v.declaration.drafted v.name)) := by
  obtain ⟨m₁, hadd, h₁⟩ := h.addVariable
  obtain ⟨m₂, hname, h₂⟩ := h₁.setVariableName v.name
  obtain ⟨m₃, hbounds', h₃⟩ := h₂.constrainAll (v.declaration.takesAll_bounds v.name)
  obtain ⟨m₄, htypes, h₄⟩ := h₃.constrainAll (v.declaration.takesAll_types v.name)
  rw [← List.foldl_append] at h₄
  rw [d.last_congr _ {}] at hbounds' htypes
  have hdomain : addDomain (d.declare {}).last v m₂ = .ok () m₄ := by
    rw [addDomain_eq hfixed hbounds, forM_append_run, bind_run]
    unfold constrain
    rw [hbounds']
    exact htypes
  refine ⟨m₄, ?_, h₄⟩
  simp only [declare, bind_run, hadd, hname, hdomain, pure_run]
  rw [inOrder_concat, Draft.last_declare, hlength]

end

end Variable

/-! ### Rows -/

namespace Row

variable {E : Type}

/-- The body, with this value, lies between the bounds. -/
def Holds (r : Row E Extended) (q : ℚ) : Prop :=
  (∀ l ∈ r.lower, l ≤ rat q) ∧ ∀ u ∈ r.upper, rat q ≤ u

/-- The kinds of rows that a constraint needs: one for an equality, else one for each bound. -/
def kinds (r : Row E Extended) : List Kind :=
  if r.equality then [.equalTo]
  else (r.lower.map fun _ => Kind.greaterThan).toList ++ (r.upper.map fun _ => Kind.lessThan).toList

/-- What a row of a kind says of the body. -/
def Side (r : Row E Extended) (k : Kind) (q : ℚ) : Prop :=
  match k with
  | .greaterThan => ∀ l ∈ r.lower, l ≤ rat q
  | .lessThan => ∀ u ∈ r.upper, rat q ≤ u
  | .equalTo => r.lower = some (rat q) ∧ r.upper = some (rat q)
  | _ => False

/-- The sets of a constraint. -/
def sets (r : Row E Extended) (k : Extended) : List (ScalarSet Extended) :=
  if r.equality then (r.upper.map fun u => .equalTo (u - k)).toList
  else (r.lower.map fun l => .greaterThan (l - k)).toList ++
    (r.upper.map fun u => .lessThan (u - k)).toList

section
variable {r : Row E Extended} (hsides : (∀ l ∈ r.lower, l.IsRat) ∧ ∀ u ∈ r.upper, u.IsRat)
  (hequality : r.equality = true → ∃ q, r.lower = some (rat q) ∧ r.upper = some (rat q))

include hequality in
theorem rowSets_run (k : Extended) (m : Model Extended) : rowSets r k m = .ok (r.sets k) m := by
  rw [rowSets, sets]
  cases he : r.equality with
  | true =>
    obtain ⟨q, -, hq⟩ := hequality he
    rw [hq]
    rfl
  | false => rfl

include hequality in
theorem sets_kinds (k : Extended) : (r.sets k).map ScalarSet.kind = r.kinds := by
  rw [sets, kinds]
  cases he : r.equality with
  | true =>
    obtain ⟨q, -, hq⟩ := hequality he
    rw [hq]
    rfl
  | false => cases r.lower <;> cases r.upper <;> rfl

include hsides hequality in
/-- The constant of the body is on the other side. -/
theorem contains_sets (k : ℚ) : ∀ s ∈ r.sets (rat k), s.isRow = true ∧
    ∀ q, s.Contains q ↔ r.Side s.kind (k + q) := by
  rw [sets]
  cases he : r.equality with
  | true =>
    obtain ⟨b, hl, hu⟩ := hequality he
    rw [hu, if_pos rfl]
    refine List.forall_mem_singleton.2 ⟨rfl, fun q => ?_⟩
    simp [ScalarSet.kind, Side, hl, hu, ScalarSet.Contains, eq_sub_iff_add_eq', eq_comm]
  | false =>
    obtain ⟨lower, hl⟩ := exists_eq_map_rat hsides.1
    obtain ⟨upper, hu⟩ := exists_eq_map_rat hsides.2
    rw [if_neg (by simp), hl, hu, List.forall_mem_append]
    constructor
    · cases lower with
      | none => simp
      | some l =>
        refine List.forall_mem_singleton.2 ⟨rfl, fun q => ?_⟩
        simp [ScalarSet.kind, Side, hl, ScalarSet.Contains, add_comm]
    · cases upper with
      | none => simp
      | some u =>
        refine List.forall_mem_singleton.2 ⟨rfl, fun q => ?_⟩
        simp [ScalarSet.kind, Side, hu, ScalarSet.Contains, le_sub_iff_add_le']

include hequality in
/-- All rows of a constraint together say what it says. -/
theorem sides_iff (q : ℚ) : (∀ k ∈ r.kinds, r.Side k q) ↔ r.Holds q := by
  rw [kinds, Holds]
  cases he : r.equality with
  | true =>
    obtain ⟨b, hl, hu⟩ := hequality he
    simp [Side, hl, hu, le_antisymm_iff, and_comm]
  | false =>
    rw [if_neg (by simp), List.forall_mem_append]
    refine and_congr ?_ ?_
    · cases hl : r.lower with
      | none => simp
      | some l => simp [Side, hl]
    · cases hu : r.upper with
      | none => simp
      | some u => simp [Side, hu]

end

end Row

/-! ### Expressions that are written out -/

def Expression.valueAt (e : Expression Extended) (w : String → ℚ) : ℚ :=
  e.constant.value + (e.terms.map fun t => t.1.value * w t.2).sum +
    (e.products.map fun t => t.1.value * (w t.2.1 * w t.2.2)).sum

/-- Numbers are numbers, and only the variables of a model are named. -/
structure Expression.Regular (e : Expression Extended) (names : List String) : Prop where
  constant : e.constant.IsRat
  terms : ∀ t ∈ e.terms, t.1.IsRat ∧ t.2 ∈ names
  products : ∀ t ∈ e.products, t.1.IsRat ∧ t.2.1 ∈ names ∧ t.2.2 ∈ names

end Algebraic

namespace AlgebraicModel

open MixedInteger.Algebraic MixedInteger.Algebraic.Report

variable {a : AlgebraicModel Extended}

variable (a) in
/-- Some variable of this name is fixed. -/
def Fixed (s : String) : Prop := ∃ v ∈ a.vars, v.name = s ∧ v.fixed = true

variable (a) in
/-- Two variables that are free are multiplied by zero only. -/
def NoProduct (e : Expression Extended) : Prop :=
  ∀ t ∈ e.products, t.1.value = 0 ∨ a.Fixed t.2.1 ∨ a.Fixed t.2.2

theorem reads_congr {f : LinearForm Extended} {value value' : (String → ℚ) → ℚ}
    (hf : a.Reads f value) (h : ∀ w, a.FixingsHold w → value w = value' w) : a.Reads f value' := by
  obtain ⟨k, ts, hform, hts, hvalue⟩ := hf
  exact ⟨k, ts, hform, hts, fun w hw => (hvalue w hw).trans (h w hw)⟩

section
variable (ha : ∀ v ∈ a.vars, v.fixed = true → ∃ q, v.value = some (rat q))
include ha

/-- The value of a fixed variable, and none for a free one. -/
theorem lookup_fixings (s : String) :
    (¬a.Fixed s ∧ (fixings a.vars).lookup s = none) ∨
      a.Fixed s ∧ ∃ q, (fixings a.vars).lookup s = some (rat q) ∧ ∀ w, a.FixingsHold w → w s = q := by
  have hmem : ∀ {s x}, (s, x) ∈ fixings a.vars ↔
      ∃ v ∈ a.vars, v.fixed = true ∧ v.value = some x ∧ v.name = s := by
    intro s x
    simp only [fixings, List.mem_filterMap, Option.ite_none_right_eq_some, Option.map_eq_some_iff,
      Prod.mk.injEq]
    constructor
    · rintro ⟨v, hv, hfixed, y, hy, rfl, rfl⟩
      exact ⟨v, hv, hfixed, hy, rfl⟩
    · rintro ⟨v, hv, hfixed, hx, rfl⟩
      exact ⟨v, hv, hfixed, x, hx, rfl, rfl⟩
  cases hlookup : (fixings a.vars).lookup s with
  | none =>
    refine .inl ⟨?_, rfl⟩
    rintro ⟨v, hv, rfl, hfixed⟩
    obtain ⟨q, hq⟩ := ha v hv hfixed
    have hne := List.lookup_eq_none_iff.1 hlookup _ (hmem.2 ⟨v, hv, hfixed, hq, rfl⟩)
    simp at hne
  | some x =>
    obtain ⟨before, rest, hsplit, -⟩ := List.lookup_eq_some_iff.1 hlookup
    obtain ⟨v, hv, hfixed, hx, rfl⟩ := hmem.1 (show (s, x) ∈ fixings a.vars by simp [hsplit])
    obtain ⟨q, hq⟩ := ha v hv hfixed
    cases hx.symm.trans hq
    refine .inr ⟨⟨v, hv, rfl, hfixed⟩, q, rfl, fun w hw => ?_⟩
    simpa using (hw v hv hfixed).symm.trans hq

section
variable {f : LinearForm Extended} {value : (String → ℚ) → ℚ} (hf : a.Reads f value)
include hf

theorem reads_addTerm {x : Extended} {s : String} (hx : x.IsRat) (hs : s ∈ a.names) :
    a.Reads (f.addTerm (fixings a.vars) (x, s)) fun w => value w + x.value * w s := by
  obtain ⟨k, ts, rfl, hts, hvalue⟩ := hf
  rw [LinearForm.addTerm]
  obtain ⟨-, hnone⟩ | ⟨-, q, hsome, hq⟩ := lookup_fixings ha s
  · rw [hnone]
    refine ⟨k, ts ++ [(x.value, s)], ?_, fun t ht => ?_, fun w hw => ?_⟩
    · rw [List.map_append, List.map_singleton, ← hx.eq]
    · rcases List.mem_append.1 ht with ht | ht
      · exact hts t ht
      · rwa [List.mem_singleton.1 ht]
    · simp [← hvalue w hw, namedSum, add_assoc]
  · rw [hsome]
    refine ⟨k + x.value * q, ts, ?_, hts, fun w hw => ?_⟩
    · dsimp only
      conv_lhs => rw [hx.eq, rat_mul_rat, rat_add_rat]
    · beta_reduce
      rw [hq w hw, ← hvalue w hw]
      ring

/-- A product is taken in unless it multiplies two variables that are free. -/
theorem reads_addProduct {t : Extended × String × String}
    (ht : t.1.IsRat ∧ t.2.1 ∈ a.names ∧ t.2.2 ∈ a.names) :
    ((t.1.value = 0 ∨ a.Fixed t.2.1 ∨ a.Fixed t.2.2) ∧
        ∃ f', f.addProduct? (fixings a.vars) t = some f' ∧
          a.Reads f' fun w => value w + t.1.value * (w t.2.1 * w t.2.2)) ∨
      ¬(t.1.value = 0 ∨ a.Fixed t.2.1 ∨ a.Fixed t.2.2) ∧
        f.addProduct? (fixings a.vars) t = none := by
  obtain ⟨x, s, s'⟩ := t
  obtain ⟨hx : x.IsRat, hs, hs'⟩ := ht
  rw [LinearForm.addProduct?]
  by_cases hzero : x.value = 0
  · refine .inl ⟨.inl hzero, f, if_pos ?_, ?_⟩
    · rw [hx.eq, hzero]
      rfl
    · simpa [hzero] using hf
  rw [if_neg (by rw [hx.eq]; simpa [zero_eq] using hzero)]
  have hproduct : ∀ q, x * rat q = rat (x.value * q) := fun q => by
    conv_lhs => rw [hx.eq, rat_mul_rat]
  obtain ⟨hfree, hnone⟩ | ⟨hfixed, q, hsome, hq⟩ := lookup_fixings ha s
  · obtain ⟨hfree', hnone'⟩ | ⟨hfixed', q, hsome, hq⟩ := lookup_fixings ha s'
    · rw [hnone, hnone']
      exact .inr ⟨by simp [hzero, hfree, hfree'], rfl⟩
    · rw [hnone, hsome]
      refine .inl ⟨.inr (.inr hfixed'), _, rfl, ?_⟩
      refine reads_congr (reads_addTerm ha hf (hproduct q ▸ isRat_rat _) hs) fun w hw => ?_
      simp only [hproduct, Extended.value, hq w hw]
      ring
  · rw [hsome]
    refine .inl ⟨.inr (.inl hfixed), _, rfl, ?_⟩
    refine reads_congr (reads_addTerm ha hf (hproduct q ▸ isRat_rat _) hs') fun w hw => ?_
    simp only [hproduct, Extended.value, hq w hw]
    ring

end

/-- Terms one after another. -/
theorem reads_addTerms {ts : List (Extended × String)} (hts : ∀ t ∈ ts, t.1.IsRat ∧ t.2 ∈ a.names)
    {f : LinearForm Extended} {value : (String → ℚ) → ℚ} (hf : a.Reads f value) :
    a.Reads (ts.foldl (LinearForm.addTerm (fixings a.vars)) f) fun w =>
      value w + (ts.map fun t => t.1.value * w t.2).sum := by
  induction ts generalizing f value with
  | nil => simpa using hf
  | cons t ts ih =>
    rw [List.forall_mem_cons] at hts
    refine reads_congr (ih hts.2 (reads_addTerm ha hf hts.1.1 hts.1.2)) fun w _ => ?_
    simp [add_assoc]

/-- Products one after another, up to the first that is not linear. -/
theorem reads_addProducts {ts : List (Extended × String × String)}
    (hts : ∀ t ∈ ts, t.1.IsRat ∧ t.2.1 ∈ a.names ∧ t.2.2 ∈ a.names)
    {f : LinearForm Extended} {value : (String → ℚ) → ℚ} (hf : a.Reads f value) :
    ((∀ t ∈ ts, t.1.value = 0 ∨ a.Fixed t.2.1 ∨ a.Fixed t.2.2) ∧
        ∃ f', ts.foldlM (LinearForm.addProduct? (fixings a.vars)) f = some f' ∧ a.Reads f' fun w =>
          value w + (ts.map fun t => t.1.value * (w t.2.1 * w t.2.2)).sum) ∨
      ¬(∀ t ∈ ts, t.1.value = 0 ∨ a.Fixed t.2.1 ∨ a.Fixed t.2.2) ∧
        ts.foldlM (LinearForm.addProduct? (fixings a.vars)) f = none := by
  induction ts generalizing f value with
  | nil => exact .inl ⟨by simp, f, rfl, by simpa using hf⟩
  | cons t ts ih =>
    rw [List.forall_mem_cons] at hts
    rw [List.forall_mem_cons, List.foldlM_cons]
    obtain ⟨ht, f₁, hrun, hf₁⟩ | ⟨ht, hrun⟩ := reads_addProduct ha hf hts.1 <;> rw [hrun]
    · obtain ⟨hall, f₂, hrest, hf₂⟩ | ⟨hnot, hrest⟩ := ih hts.2 hf₁
      · refine .inl ⟨⟨ht, hall⟩, f₂, hrest, reads_congr hf₂ fun w _ => ?_⟩
        simp [add_assoc]
      · exact .inr ⟨fun h => hnot h.2, hrest⟩
    · exact .inr ⟨fun h => ht h.1, rfl⟩

/-- An expression has a linear form unless it multiplies two variables that are free. -/
theorem linearForm_cases {e : Expression Extended} (he : e.Regular a.names) :
    (a.NoProduct e ∧ ∃ f, LinearForm.of? (fixings a.vars) e = some f ∧ a.Reads f e.valueAt) ∨
      ¬a.NoProduct e ∧ LinearForm.of? (fixings a.vars) e = none := by
  have hstart : a.Reads ⟨e.constant, []⟩ fun _ => e.constant.value :=
    ⟨e.constant.value, [], by rw [← he.constant.eq]; rfl, by simp, by simp [namedSum]⟩
  exact reads_addProducts ha he.products (reads_addTerms ha he.terms hstart)

variable (hreport : a.linear? = LinearForm.of? (fixings a.vars)) {e : Expression Extended}
  (he : e.Regular a.names)
include hreport he

/-- The report on an expression that is written out is exact. -/
theorem reads_of_linearForm {f : LinearForm Extended} (hf : a.linear? e = some f) :
    a.Reads f e.valueAt := by
  rw [hreport] at hf
  obtain ⟨-, f', hform, hreads⟩ | ⟨-, hform⟩ := linearForm_cases ha he
  · cases hform.symm.trans hf
    exact hreads
  · cases hform.symm.trans hf

theorem linear_iff_noProduct : a.Linear e ↔ a.NoProduct e := by
  rw [Linear, hreport]
  obtain ⟨hlinear, f, hform, -⟩ | ⟨hnot, hform⟩ := linearForm_cases ha he
  · simp [hform, hlinear]
  · simp [hform, hnot]

end

end AlgebraicModel

end MixedInteger
