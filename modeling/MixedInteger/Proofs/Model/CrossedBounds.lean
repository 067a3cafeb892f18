import MixedInteger.Proofs.Model.Instruction
import MixedInteger.Proofs.Model.ReturnCodes
import MixedInteger.Proofs.Number.DoubleParts
import MixedInteger.Proofs.Number.DoubleValue
import MixedInteger.Proofs.Search.Termination

/-! Crossed bounds, on doubles. A variable may be given a finite lower bound above a finite upper
one. The column is stored as a double one with both bounds, and rounding them to integers draws
them farther apart. The simplex method, the exact method and a search look for such a column
before they ask the solver anything, and refuse the problem. The interior method does not look,
and a search fails on a bound of an integer column that is infinite where it counts. -/

namespace MixedInteger

open Scalar ValuedScalar OrderedScalar

variable {σ : Type}

/-! ### Pairs of bounds -/

section
variable {x l u l' u' : Float}

theorem not_beq_infinity (h : isFinite x = true) : ¬(x == infinity) = true := by
  intro hx
  have hinfinity : isFinite (infinity : Float) = true :=
    isFinite_between isFinite_zero h (le_infinity isNaN_zero) (beq_iff.1 hx).2
  exact absurd hinfinity (by decide)

theorem not_beq_neg_infinity (h : isFinite x = true) : ¬(x == -infinity) = true := by
  intro hx
  have hinfinity : isFinite (-infinity : Float) = true :=
    isFinite_between h isFinite_zero (beq_iff.1 hx).1 (neg_infinity_le isNaN_zero)
  exact absurd hinfinity (by decide)

/-- Finite bounds without anything between them. -/
structure CrossedBounds (l u : Float) : Prop where
  lower : isFinite l = true
  upper : isFinite u = true
  lt : u < l

namespace CrossedBounds

variable (h : CrossedBounds l u)
include h

theorem not_lt : ¬l < u := fun hlt => not_le_of_lt hlt (lt_iff.1 h.lt).1

/-- Beyond the largest double there is no room for two. -/
theorem boundKind : boundKind l u = .double := by
  have heq : ¬(l == u) = true := fun heq => not_le_of_lt h.lt (beq_iff.1 heq).1
  have hl : ¬l ≤ -largest := fun hle =>
    not_beq_neg_infinity h.upper (DoubleParts.lt_neg_largest_iff.1 (lt_of_lt_of_le h.lt hle))
  have hu : ¬largest ≤ u := fun hle =>
    not_beq_infinity h.lower (DoubleParts.largest_lt_iff.1 (lt_of_le_of_lt hle h.lt))
  rw [MixedInteger.boundKind, if_neg heq, if_neg hl, if_neg hu]

theorem storedBounds : storedBounds l u = (.double, l, u) := by
  rw [MixedInteger.storedBounds, h.boundKind]
  rfl

/-- Bounds that are farther apart are crossed as well. -/
theorem widen (hl : isFinite l' = true) (hu : isFinite u' = true) (hle : l ≤ l')
    (hue : u' ≤ u) : CrossedBounds l' u' :=
  ⟨hl, hu, lt_of_le_of_lt hue (lt_of_lt_of_le h.lt hle)⟩

end CrossedBounds

/-- Each of the bounds is finite, or infinite on its own side. -/
structure RegularBounds (l u : Float) : Prop where
  lower : isFinite l = true ∨ (l == -infinity) = true
  upper : isFinite u = true ∨ (u == infinity) = true

namespace RegularBounds

variable (h : RegularBounds l u)
include h

theorem isNaN_lower : isNaN l = false :=
  h.lower.elim (fun hl => (isFinite_iff.1 hl).1) fun hl => isNaN_left (beq_iff.1 hl).1

theorem isNaN_upper : isNaN u = false :=
  h.upper.elim (fun hu => (isFinite_iff.1 hu).1) fun hu => isNaN_left (beq_iff.1 hu).1

/-- A lower bound that is no infinity to the kinds is finite. -/
theorem finite_lower (hl : ¬l ≤ -largest) : isFinite l = true :=
  h.lower.resolve_right fun heq => hl (le_trans (beq_iff.1 heq).1 le_neg_largest)

theorem finite_upper (hu : ¬largest ≤ u) : isFinite u = true :=
  h.upper.resolve_right fun heq => hu (le_trans largest_le (beq_iff.1 heq).2)

theorem finite_of_beq (heq : (l == u) = true) : isFinite l = true := by
  refine h.lower.resolve_right fun hl => ?_
  have hu : (u == -infinity) = true := beq_trans (beq_symm heq) hl
  obtain hfinite | hupper := h.upper
  · exact not_beq_neg_infinity hfinite hu
  · exact Bool.eq_false_iff.1 infinity_beq_neg (beq_trans (beq_symm hu) hupper)

/-- The bounds that count are finite. -/
theorem finite_of_boundKind : ((boundKind l u).hasLower = true → isFinite l = true) ∧
    ((boundKind l u).hasUpper = true → isFinite u = true) := by
  unfold boundKind
  split_ifs with heq hl hu hu
  · exact ⟨fun _ => h.finite_of_beq heq, nofun⟩
  · exact ⟨nofun, nofun⟩
  · exact ⟨nofun, fun _ => h.finite_upper hu⟩
  · exact ⟨fun _ => h.finite_lower hl, nofun⟩
  · exact ⟨fun _ => h.finite_lower hl, fun _ => h.finite_upper hu⟩

end RegularBounds

end

/-! ### Columns -/

namespace Column

variable {c : Column Float} {t : TypeState}

/-- The column has crossed bounds. -/
def Crossed (c : Column Float) : Prop := CrossedBounds c.lower c.upper

/-- No bound of the column is infinite on the wrong side or no number. -/
def Regular (c : Column Float) : Prop := RegularBounds c.lower c.upper

/-- Crossed bounds are stored as they are. -/
theorem Crossed.bound_eq (h : c.Crossed) (hc : c.BoundsStored) : c.bound = .double := by
  have hlower := not_beq_neg_infinity h.lower
  have hupper := not_beq_infinity h.upper
  have hne : ¬c.upper = c.lower := by
    intro heq
    have hle : c.upper ≤ c.lower := (lt_iff.1 h.lt).1
    rw [heq] at hle
    exact not_le_of_lt h.lt (heq ▸ hle)
  have hsides : ∀ {l u : Float}, (c.lower, c.upper) = c.bound.sides l u → c.bound = .double := by
    intro l u hc
    cases hbound : c.bound <;> rw [hbound] at hc <;> obtain ⟨hl, hu⟩ := Prod.mk.inj hc
    · exact absurd (by rw [hl]; exact beq_refl isNaN_neg_infinity) hlower
    · exact absurd (by rw [hu]; exact beq_refl isNaN_infinity) hupper
    · exact absurd (by rw [hl]; exact beq_refl isNaN_neg_infinity) hlower
    · exact absurd (hu.trans hl.symm) hne
  cases hc with
  | free hc =>
    obtain ⟨hbound, hc⟩ := Prod.mk.inj hc
    exact hsides (l := 0) (u := 0) (hbound ▸ hc)
  | stored l u hc =>
    obtain ⟨hbound, hc⟩ := Prod.mk.inj hc
    exact hsides (hbound ▸ hc)

/-- Regular bounds have the kind that they are stored with. -/
theorem Regular.boundKind_of_stored (h : c.Regular) {l u : Float}
    (hc : (c.bound, c.lower, c.upper) = storedBounds l u) :
    c.bound = boundKind c.lower c.upper := by
  have hlower := h.isNaN_lower
  have hfinite := h.finite_lower
  have hfinite' := h.finite_upper
  unfold storedBounds boundKind at hc
  split_ifs at hc with heq hl hu hu <;> simp only [BoundKind.sides, Prod.mk.injEq] at hc <;>
    obtain ⟨hbound, hl', hu'⟩ := hc <;> rw [hl'] at hlower hfinite <;> rw [hu'] at hfinite' <;>
    rw [hbound, hl', hu', boundKind]
  · rw [if_pos (beq_refl hlower)]
  · rw [if_neg (Bool.eq_false_iff.1 infinity_beq_neg), if_pos le_neg_largest, if_pos largest_le]
  · have hne : ¬(-infinity == u) = true :=
      fun heq => not_beq_neg_infinity (hfinite' hu) (beq_symm heq)
    rw [if_neg hne, if_pos le_neg_largest, if_neg hu]
  · rw [if_neg (not_beq_infinity (hfinite hl)), if_neg hl, if_pos largest_le]
  · rw [if_neg heq, if_neg hl, if_neg hu]

theorem Regular.settled (h : c.Regular) (hc : c.BoundsStored) : c.Settled := by
  cases hc with
  | free hc =>
    simp only [Prod.mk.injEq] at hc
    obtain ⟨hbound, hl, hu⟩ := hc
    refine ⟨h.isNaN_lower, h.isNaN_upper, ?_, ?_⟩ <;> rw [hbound, hl, hu]
    · simp [boundKind, infinity_beq_neg, le_neg_largest, largest_le]
    · rfl
  | stored l u hc =>
    refine ⟨h.isNaN_lower, h.isNaN_upper, h.boundKind_of_stored hc, ?_⟩
    simp only [storedBounds, Prod.ext_iff] at hc
    obtain ⟨hbound, hl, hu⟩ := hc
    rw [hl, hu, hbound]
    exact BoundKind.sides_sides _ l u

/-- A search can check regular bounds. -/
theorem Regular.checkable (h : c.Regular) (hc : c.BoundsStored) : c.Checkable := by
  have hbound := (h.settled hc).bound
  exact ⟨fun hl => h.finite_of_boundKind.1 (hbound ▸ hl),
    fun hu => h.finite_of_boundKind.2 (hbound ▸ hu)⟩

/-! ### Rounded columns -/

/-- Rounding draws crossed bounds farther apart, and the box of a binary does so once more. -/
theorem Crossed.integerBox (h : c.Crossed) (t : TypeState) :
    CrossedBounds (Solving.integerBox t c).1 (Solving.integerBox t c).2 := by
  have hfinite : ∀ {x : Float}, isFinite x = true → isNaN x = false := fun hx =>
    (isFinite_iff.1 hx).1
  have hceil := (isIntegral_ceil h.lower).1
  have hfloor := (isIntegral_floor h.upper).1
  have hone : isFinite (1 : Float) = true := by decide
  have hrounded := h.widen hceil hfloor (le_ceil h.lower) (floor_le h.upper)
  unfold Solving.integerBox
  rw [if_pos h.lower, if_pos h.upper]
  dsimp only
  split_ifs
  · exact hrounded.widen (larger_of (P := fun x => isFinite x = true) isFinite_zero hceil)
      (smaller_of (P := fun x => isFinite x = true) hone hfloor)
      (le_larger isNaN_zero (hfinite hceil)) (smaller_le (hfinite hone) (hfinite hfloor))
  · exact hrounded

theorem Regular.integerBox (h : c.Regular) (t : TypeState) :
    RegularBounds (Solving.integerBox t c).1 (Solving.integerBox t c).2 := by
  have hrounded : RegularBounds (if isFinite c.lower then ofInt (ceilInt c.lower) else c.lower)
      (if isFinite c.upper then ofInt (floorInt c.upper) else c.upper) := by
    constructor
    · split_ifs with hl
      · exact .inl (isIntegral_ceil hl).1
      · exact h.lower
    · split_ifs with hu
      · exact .inl (isIntegral_floor hu).1
      · exact h.upper
  unfold Solving.integerBox
  dsimp only
  by_cases ht : t = .binary
  · rw [if_pos ht]
    exact ⟨larger_of (P := fun x => isFinite x = true ∨ (x == -infinity) = true)
        (.inl isFinite_zero) hrounded.lower,
      smaller_of (P := fun x => isFinite x = true ∨ (x == infinity) = true)
        (.inl (by decide)) hrounded.upper⟩
  · rw [if_neg ht]
    exact hrounded

/-- A column with crossed bounds has such bounds, of the kind for two, before a search. -/
theorem Crossed.inner (h : c.Crossed) (hc : c.BoundsStored) (t : TypeState) :
    (c.inner t).bound = .double ∧ (c.inner t).Crossed := by
  unfold Column.inner
  split_ifs
  · have hbox := h.integerBox t
    refine ⟨hbox.boundKind, ?_⟩
    simp only [Crossed, rebound, box, Option.getD_some, hbox.storedBounds]
    exact hbox
  · exact ⟨h.bound_eq hc, h⟩

/-- Regular bounds can be checked before a search. -/
theorem Regular.checkable_inner (h : c.Regular) (hc : c.BoundsStored) (t : TypeState) :
    (c.inner t).Checkable := by
  unfold Column.inner
  split_ifs
  · obtain ⟨hlower, hupper⟩ := (h.integerBox t).finite_of_boundKind
    simp only [rebound, box, Option.getD_some, storedBounds]
    have hunused : ∀ {P : Prop}, false = true → P := fun h => absurd h Bool.false_ne_true
    cases hkind : boundKind (Solving.integerBox t c).1 (Solving.integerBox t c).2 <;>
      rw [hkind] at hlower hupper
    · exact ⟨hunused, hunused⟩
    · exact ⟨hlower, hunused⟩
    · exact ⟨hunused, hupper⟩
    · exact ⟨hlower, hupper⟩
    · exact ⟨hlower, hunused⟩
  · exact h.checkable hc

end Column

/-! ### Methods that refuse -/

section
variable {α : Type} [Scalar α] {p : Problem α} {host : Host α σ} {why : Obstacle α}

/-- Both bounds of a column count, and there is nothing between them. -/
theorem Problem.exists_badBounds {c : Column α} (hc : c ∈ p.columns) (hbound : c.bound = .double)
    (h : ¬c.lower < c.upper) : ∃ o, p.badBounds = some o := by
  rw [← Option.isSome_iff_exists, ← Option.ne_none_iff_isSome]
  intro hnone
  have hcolumn := (badBounds_eq_none_iff.1 hnone).1 c hc
  simp [Problem.crossed, hbound, h] at hcolumn

theorem simplex_refuses (h : p.badBounds = some why) (params : Parameter.Simplex α) :
    Task.Returns (simplex host params p) fun r => r = (p.withBasic {}, .badBounds) := by
  unfold simplex
  rw [h]
  exact (Task.Returns.tellAt _ _ _).bind fun _ _ => .pure rfl

theorem exact_refuses (h : p.badBounds = some why) (params : Parameter.Simplex α) :
    Task.Returns (exact host params p) fun r =>
      r.1 = p.withBasic {} ∧ r.2 ∈ [.badBounds, .failure] := by
  rw [exact_eq]
  split_ifs
  · exact (Task.Returns.tellAt _ _ _).bind fun _ _ => .pure ⟨rfl, by simp⟩
  · rw [h]
    exact (Task.Returns.tellAt _ _ _).bind fun _ _ => .pure ⟨rfl, by simp⟩

/-- So does the exact method a problem that is empty. -/
theorem exact_refuses_empty (h : p.rows = [] ∨ p.columns = []) (params : Parameter.Simplex α) :
    Task.Returns (exact host params p) fun r => r = (p.withBasic {}, .failure) := by
  rw [exact_eq]
  rw [if_pos (by simpa using h)]
  exact (Task.Returns.tellAt _ _ _).bind fun _ _ => .pure rfl

/-- The interior method refuses a problem that is empty, and no other. -/
theorem interior_refuses (h : p.rows = [] ∨ p.columns = []) (params : Parameter.Interior) :
    Task.Returns (interior host params p) fun r => r = (p.withInterior {}, .failure) := by
  unfold interior
  rw [if_pos (by simpa using h)]
  exact (Task.Returns.tellAt _ _ _).bind fun _ _ => .pure rfl

theorem intopt_refuses {c : Search.Company α σ} (h : Search.obstacle p = .ok (some why))
    (params : Parameter.Search α) (fuel : ℕ) :
    Task.Returns (intopt c params fuel p) fun r => r = (p.withInteger {}, .badBounds) := by
  unfold intopt
  rw [h]
  exact (Task.Returns.tellAt _ _ _).bind fun _ _ => .pure rfl

end

/-! ### Solves that are refused -/

section
variable {α : Type} [Scalar α]

namespace Model

/-- The model is invalid, says the last solve, and there is nothing to be had of it. -/
structure Refused (m : Model α) : Prop where
  termination : m.terminationStatus = .ok .invalidModel
  primal : m.primalStatus = .ok .noSolution
  dual : m.dualStatus = .ok .noSolution
  resultCount : m.resultCount = .ok 0

/-- A code that stands for an invalid model, without a solution. -/
theorem refused_of {m : Model α} (hcalled : m.last.called = true) (hcode : m.last.code ≠ .done)
    (hverdict : (m.algorithm.verdict m.last.code).1 = .invalidModel)
    (hsolution : m.solution.status = .undefined) : m.Refused := by
  have hsolved : m.solutionVerdict = .ok (.otherError, "Solution is undefined") := by
    rw [solutionVerdict, hsolution]
    rfl
  have hprimal : m.primalStatus = .ok .noSolution := by
    rw [primalStatus, hsolved]
    rfl
  have hdual : m.dualStatus = .ok .noSolution := by
    rw [dualStatus, hsolved]
    split_ifs <;> rfl
  refine ⟨?_, hprimal, hdual, ?_⟩
  · rw [terminationStatus, verdict, hcalled, if_neg (by simp), if_pos hcode]
    exact congrArg Except.ok hverdict
  · rw [resultCount, hprimal, hdual]
    rfl

theorem attempt_refuses {m : Model α} {host : Host α σ} {why : Obstacle α}
    (h : m.problem.badBounds = some why) (hmethod : m.method = .interior → m.problem.rows = []) :
    Task.Returns (m.attempt host) fun r => ∃ b, r.1 = m.place b ∧ b.status = .undefined ∧
      r.2 ≠ .done ∧ (m.method.algorithm.verdict r.2).1 = .invalidModel := by
  unfold attempt place
  cases hm : m.method with
  | simplex =>
    refine (simplex_refuses h _).imp ?_
    rintro _ rfl
    exact ⟨{}, rfl, rfl, by simp, rfl⟩
  | exact =>
    refine (exact_refuses h _).imp ?_
    rintro ⟨_, code⟩ ⟨rfl, hcode⟩
    simp only [List.mem_cons, List.not_mem_nil, or_false] at hcode
    obtain rfl | rfl := hcode <;> exact ⟨{}, rfl, rfl, by simp, rfl⟩
  | interior =>
    refine (interior_refuses (.inl (hmethod hm)) _).imp ?_
    rintro _ rfl
    exact ⟨{}, rfl, rfl, by simp, rfl⟩

end Model

namespace Solving

variable {w : Workbench α σ} {host : Host α σ} {callback : Option (Callback α σ)} {fuel : ℕ}
  {why obstacle : Obstacle α}

/-- What a refused search comes to. -/
def Denied (code : ReturnCode) (s : Solution α) (_ : Watched α σ) : Prop :=
  code = .badBounds ∧ s = {}

/-- A search is refused with or without a basis to begin with. -/
theorem search_refuses (h : w.model.problem.badBounds = some why)
    (hobstacle : Search.obstacle w.model.problem = .ok (some obstacle)) :
    Runs (search host callback fuel) w (fun _ w' => Ended w.model (Denied (σ := σ)) w'.model)
      fun _ => False := by
  refine (search_runs_of (e := False) (B := fun _ => True) (fun s => ?_)
    fun b k session _ => ?_).weaken
    fun _ hfails => hfails.1
  · exact (simplex_refuses h _ s).imp fun _ _ _ => trivial
  · have hready : Search.obstacle ((w.model.withBasis b).withPresolve k).problem =
        .ok (some obstacle) := hobstacle
    refine (intopt_refuses hready _ fuel _).imp ?_
    rintro _ _ rfl
    exact ⟨rfl, rfl⟩

/-- Without integer variables the method of the model decides whether the solve is refused. -/
theorem optimize_refuses_of (hmixed : ¬w.model.IsMixed)
    (hattempt : Task.Returns (w.model.attempt host) fun r => ∃ b, r.1 = w.model.place b ∧
      b.status = .undefined ∧ r.2 ≠ .done ∧
        (w.model.method.algorithm.verdict r.2).1 = .invalidModel) :
    Runs (optimize host callback fuel) w (fun _ w' =>
      w'.model.problem.columns = w.model.problem.columns ∧ w'.model.Refused) fun _ => False := by
  refine (optimize_settles hmixed (R := fun _ => True) (C := fun _ => True)
    (S := fun code b => b.status = .undefined ∧ code ≠ .done ∧
      (w.model.method.algorithm.verdict code).1 = .invalidModel) hattempt ?_ ?_).imp ?_
  · rintro code b ⟨hb, -⟩ hstatus
    cases hb.symm.trans hstatus
  · rintro code b ⟨hb, -⟩ (hstatus | hstatus) <;> cases hb.symm.trans hstatus
  · rintro _ w' ⟨code, b, ray, certificate, seconds, ⟨hb, hcode, hverdict⟩, -, -, hw'⟩
    rw [hw']
    have halgorithm : (w.model.settled code b ray certificate seconds).algorithm =
        w.model.method.algorithm := Model.algorithm_of_continuous rfl
    refine ⟨?_, Model.refused_of rfl hcode (halgorithm ▸ hverdict) ?_⟩
    · unfold Model.settled Model.place
      cases w.model.method <;> rfl
    · rw [Model.settled, Model.solution_place b rfl]
      exact hb

theorem optimize_refuses_continuous (hmixed : ¬w.model.IsMixed)
    (h : w.model.problem.badBounds = some why)
    (hmethod : w.model.method = .interior → w.model.problem.rows = []) :
    Runs (optimize host callback fuel) w (fun _ w' =>
      w'.model.problem.columns = w.model.problem.columns ∧ w'.model.Refused) fun _ => False :=
  optimize_refuses_of hmixed (Model.attempt_refuses h hmethod)

/-- With integer variables the search refuses, once their bounds are rounded. -/
theorem optimize_refuses_mixed [LawfulScalar α] (hr : Roundable w.model)
    (hmixed : w.model.IsMixed)
    (h : (w.model.withColumns w.model.innerColumns).problem.badBounds = some why)
    (hobstacle : Search.obstacle (w.model.withColumns w.model.innerColumns).problem =
      .ok (some obstacle)) :
    Runs (optimize host callback fuel) w (fun _ w' =>
      w'.model.problem.columns = w.model.problem.columns ∧ w'.model.Refused) fun _ => False := by
  refine ((optimize_searches_of hr hmixed (Q := Denied) (e := False) ?_ fun session => ?_).imp
    ?_).weaken fun _ hfails => hfails.1
  · rintro _ _ _ ⟨rfl, rfl⟩
    exact ⟨rfl, by simp, by simp⟩
  · exact (search_refuses (w := ⟨session, w.model.begun.withColumns w.model.innerColumns⟩) h
      hobstacle).weaken fun _ => False.elim
  · rintro _ w' ⟨b, v, code, s, seconds, ⟨rfl, rfl⟩, hw'⟩
    rw [hw']
    exact ⟨rfl, Model.refused_of rfl (fun hdone => nomatch hdone) rfl rfl⟩

end Solving

end

/-! ### Models with crossed bounds -/

namespace Model

variable {m : Model Float}

/-- The bounds of integer variables are regular. -/
def RegularIntegers (m : Model Float) : Prop :=
  ∀ e ∈ m.vars.values.zip m.problem.columns,
    e.1.type ≠ .continuous ∨ e.2.kind = .integer → e.2.Regular

theorem mem_innerColumns {c : Column Float} : c ∈ m.innerColumns ↔
    ∃ e ∈ m.vars.values.zip m.problem.columns, e.2.inner e.1.type = c := by
  rw [innerColumns, ← List.map_uncurry_zip_eq_zipWith, List.mem_map]
  rfl

namespace Attained

variable (h : m.Attained)
include h

theorem boundsStored {e : VariableInfo × Column Float}
    (he : e ∈ m.vars.values.zip m.problem.columns) : e.2.BoundsStored :=
  h.bounds e.2 (List.of_mem_zip he).2

theorem roundable (hr : m.RegularIntegers) : Solving.Roundable m :=
  ⟨h.wellFormed.numbered, fun e he ht => (hr e he (.inl ht)).settled (h.boundsStored he)⟩

/-- Every column belongs to a variable. -/
theorem exists_info {c : Column Float} (hc : c ∈ m.problem.columns) :
    ∃ info, (info, c) ∈ m.vars.values.zip m.problem.columns := by
  obtain ⟨i, hi, rfl⟩ := List.mem_iff_getElem.1 hc
  have hlength : m.vars.values.length = m.problem.columns.length := by
    rw [Registry.values, List.length_map, h.wellFormed.columnCount]
  have hinfo : i < m.vars.values.length := hlength ▸ hi
  have hzip : i < (m.vars.values.zip m.problem.columns).length := by
    rw [List.length_zip, hlength, min_self]
    exact hi
  refine ⟨m.vars.values[i], ?_⟩
  rw [← List.getElem_zip (h := hzip)]
  exact List.getElem_mem hzip

/-- Crossed bounds are found before a search begins. -/
theorem exists_obstacle {c : Column Float} (hc : c ∈ m.problem.columns) (hcrossed : c.Crossed)
    (hr : m.RegularIntegers) :
    (∃ o, (m.withColumns m.innerColumns).problem.badBounds = some o) ∧
      ∃ o, Search.obstacle (m.withColumns m.innerColumns).problem = .ok (some o) := by
  obtain ⟨info, hinfo⟩ := h.exists_info hc
  obtain ⟨hbound, hinner⟩ := hcrossed.inner (h.boundsStored hinfo) info.type
  have hbad : ∃ o, (m.withColumns m.innerColumns).problem.badBounds = some o :=
    Problem.exists_badBounds (mem_innerColumns.2 ⟨(info, c), hinfo, rfl⟩) hbound hinner.not_lt
  refine ⟨hbad, ?_⟩
  have hcheckable : ∀ d ∈ (m.withColumns m.innerColumns).problem.columns,
      d.kind = .integer → d.Checkable := by
    intro d hd hkind
    obtain ⟨e, he, rfl⟩ := mem_innerColumns.1 hd
    rw [Column.kind_inner] at hkind
    exact (hr e he (.inr hkind)).checkable_inner (h.boundsStored he) _
  obtain hobstacle | hobstacle := Problem.obstacle_cases hcheckable
  · exact hobstacle
  · exact hbad.imp fun o ho => hobstacle.trans (congrArg _ ho)

end Attained

end Model

/-- A model with crossed bounds is refused, whatever its settings and whatever the solver would
answer: the solve returns, the status tells that the model is invalid, there are no results, and
all bounds are still there. Two gaps are left out. The interior method does not look at the bounds,
so it refuses without rows only; and where a search is made, integer variables have regular bounds,
for it fails on others. -/
theorem optimize_refuses_crossed {m : Model Float} (hm : m.Attained) {c : Column Float}
    (hc : c ∈ m.problem.columns) (hcrossed : c.Crossed) (hmixed : m.IsMixed → m.RegularIntegers)
    (hcontinuous : ¬m.IsMixed → m.method = .interior → m.problem.rows = []) (host : Host Float σ)
    (callback : Option (Callback Float σ)) (fuel : ℕ) (session : Session Float σ) :
    Runs (Solving.optimize host callback fuel) ⟨session, m⟩ (fun _ w' =>
      w'.model.problem.columns = m.problem.columns ∧ w'.model.Refused) fun _ => False := by
  by_cases h : m.IsMixed
  · obtain ⟨⟨why, hwhy⟩, obstacle, hobstacle⟩ := hm.exists_obstacle hc hcrossed (hmixed h)
    exact Solving.optimize_refuses_mixed (hm.roundable (hmixed h)) h hwhy hobstacle
  · obtain ⟨why, hwhy⟩ := Problem.exists_badBounds hc (hcrossed.bound_eq (hm.bounds c hc))
      hcrossed.not_lt
    exact Solving.optimize_refuses_continuous h hwhy (hcontinuous h)

/-! ### From one up to minus one -/

def partedColumn : Column Float := Column.rebound {} (ScalarSet.interval 1 (-1)).change

def parted : Model Float :=
  freeModel.solo { index := ⟨1⟩, column := 1, bound := .interval } partedColumn

theorem parted_attained : parted.Attained := by
  have hcall := freeModel_attained.call
    (.edit (.addConstraint (.single ⟨1⟩) (.set (.interval 1 (-1)))))
  rwa [freeModel_attained.wellFormed.after_addBound (c := {}) rfl rfl rfl rfl
    (s := .interval 1 (-1)) rfl (by decide +kernel)] at hcall

theorem partedColumn_crossed : partedColumn.Crossed := by
  have h : CrossedBounds 1 (-1) := ⟨by decide, by decide, by decide⟩
  simp only [Column.Crossed, partedColumn, Column.rebound, ScalarSet.change, Option.getD_some,
    h.storedBounds]
  exact h

theorem parted_unmixed : ¬parted.IsMixed := by
  rintro (hbinary | hinteger)
  · exact absurd hbinary (by decide)
  · exact absurd hinteger (by decide)

theorem optimize_refuses_parted : partedColumn.Crossed ∧
    Runs (Solving.optimize silentHost none 0) ⟨⟨(), #[]⟩, parted⟩ (fun _ w' =>
      w'.model.problem.columns = parted.problem.columns ∧ w'.model.Refused) fun _ => False :=
  ⟨partedColumn_crossed, optimize_refuses_crossed parted_attained List.mem_cons_self
    partedColumn_crossed (fun hmixed => absurd hmixed parted_unmixed)
    (fun _ hmethod => nomatch hmethod) silentHost none 0 _⟩

/-- With a row beside the bounds, for the interior method. -/
def partedRow : Model Float :=
  { parted.withRow (.lessThan 3) (({ coefs := [(1, 1)] } : Row Float).within
      (.upper, -infinity, 3)) with method := .interior }

theorem partedRow_attained : partedRow.Attained := by
  have hm := parted_attained.wellFormed
  have hinfo : parted.vars.get? 1 = some { index := ⟨1⟩, column := 1, bound := .interval } :=
    hm.vars.get?_of_getElem (i := 0) rfl
  have hcall := parted_attained.call (fence (.lessThan 3))
  rw [hm.after_fence (by decide) hinfo rfl rfl rfl] at hcall
  exact hcall.settings partedRow.presolve .interior partedRow.stores partedRow.given
    partedRow.silent

/-- Crossed bounds are not always refused. -/
theorem not_forall_refused : ¬∀ (host : Host Float Unit) (m : Model Float) (c : Column Float)
    (session : Session Float Unit) (w : Workbench Float Unit), m.Attained →
      c ∈ m.problem.columns → c.Crossed →
      Solving.optimize host none 0 ⟨session, m⟩ = .ok () w → w.model.Refused := by
  intro hall
  obtain ⟨_, w, hrun, -⟩ := exists_of_passes
    (x := Solving.optimize (Host.barren (σ := Unit)) none 0) (s := ⟨⟨(), #[]⟩, partedRow⟩)
    (fun _ => true) (by decide +kernel)
  have hstatus : (after (Solving.optimize (Host.barren (σ := Unit)) none 0)
      ⟨⟨(), #[]⟩, partedRow⟩).model.terminationStatus.toOption = some .infeasible := by
    decide +kernel
  rw [after_ok hrun] at hstatus
  have hrefused := hall _ partedRow _ _ w partedRow_attained List.mem_cons_self
    partedColumn_crossed hrun
  cases (ok_of_toOption hstatus).symm.trans hrefused.termination

end MixedInteger
