import MixedInteger.Proofs.Model.Boxes
import MixedInteger.Proofs.Model.ColumnValues
import MixedInteger.Proofs.Model.Kinds

/-! Integer points of a model, on doubles. Before a search the boxes of integer variables are
rounded inwards and those of binaries cut to the unit interval. The solver then sees the points
that the model has, and no others: every variable has the values of its type that its box had, and
rows stay. No bound of an integer column is fractional afterwards, so a search is refused for its
bounds exactly when some box has become empty. -/

namespace MixedInteger

open Scalar ValuedScalar OrderedScalar Finset

variable {σ : Type}

/-! ### Points -/

/-- The row lets a point through, whose values are those of the first `n` columns. -/
def Row.Lets (r : Row Float) (n : ℕ) (x : ℕ → ℚ) : Prop :=
  Above r.lower (∑ j ∈ range n, value (r.coef (j + 1)) * x j) ∧
    Below r.upper (∑ j ∈ range n, value (r.coef (j + 1)) * x j)

/-- A point of the problem as the engine sees it, which only knows columns and their kinds. -/
structure Problem.HasPoint (p : Problem Float) (x : ℕ → ℚ) : Prop where
  columns : ∀ i c, p.columns[i]? = some c →
    c.Contains (x i) ∧ (c.kind = .integer → ∃ k : ℤ, x i = k)
  rows : ∀ r ∈ p.rows, r.Lets p.columnCount x

/-- A point of the model: every variable has a value of its type, in its box. -/
structure Model.HasPoint (m : Model Float) (x : ℕ → ℚ) : Prop where
  values : ∀ {i k info c}, m.VariableAt i k info c →
    c.Contains (x i) ∧ info.type.Admits (x i)
  rows : ∀ r ∈ m.problem.rows, r.Lets m.problem.columnCount x

/-- What is stored of solves does not matter. -/
theorem Model.hasPoint_of_unsolved {m m' : Model Float} (h : m'.unsolved = m.unsolved)
    (x : ℕ → ℚ) : m'.HasPoint x ↔ m.HasPoint x := by
  have hsame : ∀ m : Model Float, m.unsolved.HasPoint x ↔ m.HasPoint x := fun m =>
    ⟨fun ⟨hvalues, hrows⟩ =>
        ⟨fun hat => hvalues ⟨hat.entry, hat.column, hat.index, hat.number⟩, hrows⟩,
      fun ⟨hvalues, hrows⟩ =>
        ⟨fun hat => hvalues ⟨hat.entry, hat.column, hat.index, hat.number⟩, hrows⟩⟩
  rw [← hsame m', h, hsame]

/-! ### Rounded columns -/

/-- What rounding makes of a column for a variable of type `t`. -/
structure Column.RoundedTo (c : Column Float) (t : TypeState) (c' : Column Float) : Prop where
  integers : ∀ z : ℤ, c'.Contains z ↔ c.Contains z ∧ t.Admits z
  continuous : t = .continuous → c' = c
  /-- With the bounds it had, the column is as it was. -/
  unchanged : (c'.lower == c.lower && c'.upper == c.upper) = true → c' = c
  kind : c'.kind = c.kind
  cost : c'.cost = c.cost
  name : c'.name = c.name

namespace Column.Ranged

variable {c : Column Float} {t : TypeState} (h : c.Ranged)
include h

theorem roundedTo (t : TypeState) : c.RoundedTo t (c.inner t) := by
  refine ⟨fun z => ?_, fun ht => ?_, fun hsame => ?_, c.kind_inner t, c.cost_inner t, ?_⟩
  · cases t with
    | continuous => exact iff_of_eq (and_true _).symm
    | integer => exact (h.contains_inner_iff (by decide)).trans (and_congr_right fun _ =>
        iff_of_true (fun hbinary => nomatch hbinary) ⟨z, rfl⟩)
    | binary =>
      refine (h.contains_inner_iff (by decide)).trans (and_congr_right fun _ => ?_)
      rw [TypeState.Admits, Int.cast_eq_zero, Int.cast_eq_one]
      exact forall_prop_of_true rfl
  · rw [ht]
    rfl
  · have hrounds : ¬c.rounds t = true := fun hrounds => h.rounds_iff.1 hrounds hsame
    rw [inner, if_neg hrounds]
  · unfold inner
    split_ifs <;> rfl

/-- Integrality of the column and its rounded box are type and box of the variable. -/
theorem inner_admits (hkind : c.kind = .integer ↔ t ≠ .continuous) {q : ℚ} :
    (c.inner t).Contains q ∧ ((c.inner t).kind = .integer → ∃ k : ℤ, q = k) ↔
      c.Contains q ∧ t.Admits q := by
  rw [c.kind_inner t, hkind]
  by_cases ht : t = .continuous
  · subst ht
    exact and_congr_right fun _ => iff_of_true (absurd rfl) trivial
  · constructor
    · rintro ⟨hq, hint⟩
      obtain ⟨k, rfl⟩ := hint ht
      exact ((h.roundedTo t).integers k).1 hq
    · rintro ⟨hq, hadmits⟩
      obtain ⟨k, rfl⟩ := hadmits.isInt ht
      exact ⟨((h.roundedTo t).integers k).2 ⟨hq, hadmits⟩, fun _ => ⟨k, rfl⟩⟩

end Column.Ranged

/-! ### What was written over -/

namespace Solving

/-- The bounds that are remembered are those of the columns whose bounds have changed. -/
theorem oldBounds_eq : ∀ {n : ℕ} {infos : List VariableInfo} {cs : List (Column Float)},
    Numbered n infos cs → (∀ c ∈ cs, c.Ranged) → (oldBounds infos cs).filterMap id =
      ((((List.range' (n + 1) cs.length).zip cs).zip
        (List.zipWith (fun info c => c.inner info.type) infos cs)).filter fun e =>
          !(e.2.lower == e.1.2.lower && e.2.upper == e.1.2.upper)).map
        fun e => (e.1.1, e.1.2.bounds)
  | _, [], [], _, _ => rfl
  | n, info :: infos, c :: cs, ⟨hcolumn, hn⟩, hc => by
    have hrest := oldBounds_eq hn fun d hd => hc d (List.mem_cons_of_mem c hd)
    have hrounds := (hc c List.mem_cons_self).rounds_iff (t := info.type)
    simp only [oldBounds] at hrest
    simp only [oldBounds, List.zipWith_cons_cons, List.length_cons, List.range'_succ,
      List.zip_cons_cons]
    by_cases hwritten : c.rounds info.type = true
    · have hchanged := Bool.eq_false_iff.2 (hrounds.1 hwritten)
      rw [List.filter_cons_of_pos (by rw [hchanged]; rfl), List.map_cons, ← hrest,
        Column.oldBounds, if_pos hwritten, hcolumn]
      rfl
    · have hsame := not_not.1 (mt hrounds.2 hwritten)
      rw [List.filter_cons_of_neg (by rw [hsame]; decide), ← hrest, Column.oldBounds,
        if_neg hwritten]
      rfl

end Solving

/-! ### Codes of searches -/

namespace Search

variable {α : Type} [Scalar α] {c : Company α σ} {s : Scene α σ}

theorem presolved_code : Runs (presolved c) s
    (fun r _ => ∀ code status, r = some (code, status) → code ≠ .badBounds) fun _ => True := by
  have hsome : ∀ {code : ReturnCode} {status : SolutionStatus} {s : Scene α σ},
      code ≠ .badBounds → Runs (pure (some (code, status)) : SearchTask α σ _) s
        (fun r _ => ∀ code status, r = some (code, status) → code ≠ .badBounds)
        fun _ => True := by
    rintro code status s h _ _ ⟨⟩
    exact h
  unfold presolved
  refine .onward fun settings s => .onward fun code s => ?_
  split
  · exact .onward fun _ s => hsome (by decide)
  · exact .onward fun _ s => hsome (by decide)
  · exact hsome (by decide)
  · refine .onward fun t s => ?_
    split_ifs
    · exact .pure (by simp)
    · exact hsome (by decide)
  · exact hsome (by decide)

theorem conclude_code (fuel : ℕ) :
    Runs (conclude c fuel) s (fun r _ => r.1 ≠ .badBounds) fun _ => True := by
  refine conclude_runs (Q := fun code _ => code ≠ .badBounds) (I := fun _ => True)
    (fun _ _ _ _ _ => trivial) (fun s _ => ?_) (fun s _ => ?_) trivial
  · exact presolved_code.imp fun _ _ h => ⟨fun _ => trivial, h⟩
  · refine (explore_ends fuel).imp fun code s hends => ?_
    rintro rfl
    exact absurd hends.ending (by decide)

/-- A search without an obstacle is not refused for bounds. -/
theorem intopt_code {p : Problem α} (h : obstacle p = .ok none) (params : Parameter.Search α)
    (fuel : ℕ) : Task.Keeps (fun _ => True) (intopt c params fuel p) fun r => r.2 ≠ .badBounds := by
  intro s _
  refine (intopt_ends c params fuel p (Q := fun code _ => code ≠ .badBounds) (fun _ _ => trivial)
    (fun why hwhy => ?_) (fun _ => by decide) fun s' _ => conclude_code fuel).imp
      fun _ _ hcode => ⟨hcode, trivial⟩
  rw [h] at hwhy
  cases hwhy

end Search

/-! ### Obstacles -/

/-- Without double rows only columns have bad bounds. -/
theorem Problem.badBounds_isSome_iff {α : Type} [Scalar α] {p : Problem α}
    (hrows : ∀ r ∈ p.rows, r.bound ≠ .double) : p.badBounds.isSome = true ↔
      ∃ c ∈ p.columns, Problem.crossed c.bound c.lower c.upper = true := by
  have hrow : ∀ r ∈ p.rows, crossed r.bound r.lower r.upper = false := fun r hr => by
    simp [crossed, hrows r hr]
  rw [← not_iff_not, Option.not_isSome_iff_eq_none, badBounds_eq_none_iff, and_iff_left hrow]
  simp

/-- Rows never have two bounds of their own. -/
theorem Model.WellFormed.bound_ne_double {α : Type} [Scalar α] {m : Model α} (h : m.WellFormed)
    {r : Row α} (hr : r ∈ m.problem.rows) : r.bound ≠ .double := by
  obtain ⟨i, hi⟩ := List.mem_iff_getElem?.1 hr
  have hlt : i < m.affine.entries.length := by
    rw [← h.rowCount]
    exact (List.getElem?_eq_some_iff.1 hi).1
  obtain ⟨-, hset⟩ := h.row (List.getElem?_eq_getElem hlt) hi
  intro hdouble
  generalize m.affine.entries[i].2.set = s at hset
  cases s <;> simp [ScalarSet.rowBound?, Row.bounds, hdouble] at hset

/-! ### Models -/

namespace Model

variable {m : Model Float}

/-- Every bound is a number below the largest one, or infinite on its own side. -/
def BoundsInRange (m : Model Float) : Prop :=
  ∀ c ∈ m.problem.columns, LowerBound c.lower ∧ UpperBound c.upper

/-- What rounding makes of a model, and what it remembers of it. -/
structure RoundedTo (m : Model Float) (changes : List (ℕ × BoundChange Float)) (m' : Model Float) :
    Prop where
  rest : m' = m.withColumns m'.problem.columns
  count : m'.problem.columns.length = m.problem.columns.length
  column : ∀ {i k info c}, m.VariableAt i k info c →
    ∃ c', m'.problem.columns[i]? = some c' ∧ c.RoundedTo info.type c'
  /-- The columns whose bounds have changed, by number, with the bounds they had. -/
  changes : changes = ((m.problem.numberedColumns.zip m'.problem.columns).filter fun e =>
    !(e.2.lower == e.1.2.lower && e.2.upper == e.1.2.upper)).map fun e => (e.1.1, e.1.2.bounds)
  whole : m'.problem.fractionalBounds = .ok none
  points : ∀ x, m'.problem.HasPoint x ↔ m.HasPoint x

namespace Attained

variable (h : m.Attained) (hr : m.BoundsInRange)
include h hr

theorem ranged {c : Column Float} (hc : c ∈ m.problem.columns) : c.Ranged := by
  have hregular : c.Regular := ⟨(hr c hc).1.finite_or, (hr c hc).2.finite_or⟩
  exact ⟨(hr c hc).1, (hr c hc).2, hregular.settled (h.bounds c hc)⟩

theorem roundable_of_inRange : Solving.Roundable m :=
  h.roundable fun _ he _ => (h.ranged hr (List.of_mem_zip he).2).regular

omit hr in
theorem length_values : m.vars.values.length = m.problem.columns.length := by
  rw [Registry.values, List.length_map, h.wellFormed.columnCount]

omit h hr in
theorem getElem?_innerColumns {i k : ℕ} {info : VariableInfo} {c : Column Float}
    (hat : m.VariableAt i k info c) : m.innerColumns[i]? = some (c.inner info.type) := by
  rw [innerColumns, List.getElem?_zipWith, Registry.values, List.getElem?_map, hat.entry,
    hat.column]
  rfl

/-- The columns before a search belong to variables. -/
theorem exists_of_innerColumns {i : ℕ} {c' : Column Float} (hc' : m.innerColumns[i]? = some c') :
    ∃ k info c, m.VariableAt i k info c ∧ c.Ranged ∧
      (c.kind = .integer ↔ info.type ≠ .continuous) ∧ c' = c.inner info.type := by
  have hi : i < m.innerColumns.length := (List.getElem?_eq_some_iff.1 hc').1
  have hlt : i < m.vars.entries.length := by
    simp only [innerColumns, List.length_zipWith, Registry.values, List.length_map] at hi
    omega
  obtain ⟨c, hat⟩ := h.wellFormed.variableAt_of_getElem
    (show m.vars.entries[i]? = some (m.vars.entries[i].1, m.vars.entries[i].2) from
      List.getElem?_eq_getElem hlt)
  have hzip : (m.vars.entries[i].2, c) ∈ m.vars.values.zip m.problem.columns := by
    refine List.mem_iff_getElem?.2 ⟨i, List.getElem?_zip_eq_some.2 ⟨?_, hat.column⟩⟩
    rw [Registry.values, List.getElem?_map, hat.entry]
    rfl
  exact ⟨_, _, c, hat, h.ranged hr (List.mem_of_getElem? hat.column), h.kind_iff hzip,
    Option.some.inj (hc'.symm.trans (getElem?_innerColumns hat))⟩

theorem fractionalBounds_inner :
    (m.withColumns m.innerColumns).problem.fractionalBounds = .ok none := by
  refine firstFractional_eq_none fun e he => ?_
  obtain ⟨i, c', hc', rfl⟩ := Problem.mem_numberedColumns.1 he
  obtain ⟨k, info, c, -, hranged, hkind, rfl⟩ := h.exists_of_innerColumns hr hc'
  exact hranged.fractionalBound_inner hkind.1 _

theorem hasPoint_inner (x : ℕ → ℚ) :
    (m.withColumns m.innerColumns).problem.HasPoint x ↔ m.HasPoint x := by
  have hcount : (m.withColumns m.innerColumns).problem.columnCount = m.problem.columnCount := by
    simp [withColumns, Problem.columnCount, innerColumns, h.length_values]
  constructor
  · rintro ⟨hcolumns, hrows⟩
    refine ⟨fun {i k info c} hat => ?_, hcount ▸ hrows⟩
    obtain ⟨k', info', c', hat', hranged, hkind, hc⟩ :=
      h.exists_of_innerColumns hr (getElem?_innerColumns hat)
    cases hat.entry.symm.trans hat'.entry
    cases hat.column.symm.trans hat'.column
    exact (hranged.inner_admits hkind).1 (hcolumns i _ (getElem?_innerColumns hat))
  · rintro ⟨hvalues, hrows⟩
    refine ⟨fun i c' hc' => ?_, hcount ▸ hrows⟩
    obtain ⟨k, info, c, hat, hranged, hkind, rfl⟩ := h.exists_of_innerColumns hr hc'
    exact (hranged.inner_admits hkind).2 (hvalues hat)

theorem roundedTo : ∃ changes, Solving.roundAllBounds m =
    .ok changes (m.withColumns m.innerColumns) ∧
      m.RoundedTo changes (m.withColumns m.innerColumns) := by
  refine ⟨_, Solving.roundAllBounds_run (h.roundable_of_inRange hr), rfl, ?_, fun {i k info c} hat =>
    ⟨_, getElem?_innerColumns hat, ?_⟩, ?_, h.fractionalBounds_inner hr, h.hasPoint_inner hr⟩
  · simp [withColumns, innerColumns, h.length_values]
  · exact (h.ranged hr (List.mem_of_getElem? hat.column)).roundedTo _
  · rw [Solving.oldBounds_eq h.wellFormed.numbered fun c hc => h.ranged hr hc,
      Problem.numberedColumns, Problem.columnCount, List.range'_eq_map_range]
    simp only [Nat.zero_add, Nat.add_comm 1]
    rfl

/-- A box is found to be empty where it has no value. -/
theorem badBounds_inner : (m.withColumns m.innerColumns).problem.badBounds.isSome = true ↔
    ∃ c ∈ m.innerColumns, ∀ q, ¬c.Contains q := by
  rw [Problem.badBounds_isSome_iff (p := (m.withColumns m.innerColumns).problem)
    fun r hrow => h.wellFormed.bound_ne_double hrow]
  refine exists_congr fun c' => and_congr_right fun hc' => ?_
  obtain ⟨i, hi⟩ := List.mem_iff_getElem?.1 hc'
  obtain ⟨k, info, c, -, hranged, -, rfl⟩ := h.exists_of_innerColumns hr hi
  exact (hranged.inner_regular _).crossed_iff (hranged.inner_settled _)

/-- A solve with a search is refused for its bounds when a box has become empty, and then only; it
fails for other reasons. The model has its points back. -/
theorem optimize_code (hmixed : m.IsMixed) (host : Host Float σ)
    (callback : Option (Callback Float σ)) (fuel : ℕ) (session : Session Float σ) :
    Runs (Solving.optimize host callback fuel) ⟨session, m⟩ (fun _ w =>
      (w.model.last.code = .badBounds ↔ ∃ c ∈ m.innerColumns, ∀ q, ¬c.Contains q) ∧
        ∀ x, w.model.HasPoint x ↔ m.HasPoint x) fun w =>
      (¬∃ c ∈ m.innerColumns, ∀ q, ¬c.Contains q) ∧ ∀ x, w.model.HasPoint x ↔ m.HasPoint x := by
  have hroundable := h.roundable_of_inRange hr
  have hempty := h.badBounds_inner hr
  have hobstacle : Search.obstacle (m.withColumns m.innerColumns).problem =
      .ok (m.withColumns m.innerColumns).problem.badBounds := by
    unfold Search.obstacle
    rw [h.fractionalBounds_inner hr]
    rfl
  by_cases hbox : ∃ c ∈ m.innerColumns, ∀ q, ¬c.Contains q
  · obtain ⟨why, hwhy⟩ := Option.isSome_iff_exists.1 (hempty.2 hbox)
    refine ((Solving.optimize_searches_of (w := ⟨session, m⟩) hroundable hmixed
      (Q := Solving.Denied) (e := False) ?_ fun session => ?_).imp ?_).weaken
        fun _ hfails => hfails.1.elim
    · rintro _ _ _ ⟨rfl, rfl⟩
      exact ⟨rfl, by simp, by simp⟩
    · exact (Solving.search_refuses
        (w := ⟨session, m.begun.withColumns m.innerColumns⟩) hwhy (hobstacle.trans
          (congrArg Except.ok hwhy))).weaken fun _ => False.elim
    · rintro _ w ⟨b, v, code, s, seconds, ⟨rfl, rfl⟩, hw⟩
      rw [hw]
      exact ⟨iff_of_true rfl hbox, hasPoint_of_unsolved (unsolved_searched _ _ _ _ _ _)⟩
  · have hnone : (m.withColumns m.innerColumns).problem.badBounds = none :=
      Option.not_isSome_iff_eq_none.1 (mt hempty.1 hbox)
    have hfinds : Solving.Finds (m.begun.withColumns m.innerColumns) host callback fuel
        fun code _ _ => code ≠ .badBounds := by
      intro b k session
      refine ((Search.intopt_code (p := (((m.begun.withColumns m.innerColumns).withBasis b
        ).withPresolve k).problem) (hobstacle.trans (congrArg Except.ok hnone)) _ fuel _
          trivial).imp ?_).weaken fun _ => id
      exact fun _ _ hcode => hcode.1
    refine ((Solving.optimize_searches (w := ⟨session, m⟩) hroundable hmixed hfinds).imp
      ?_).weaken ?_
    · rintro _ w ⟨b, v, code, s, seconds, hcode, -, hw⟩
      rw [hw]
      exact ⟨iff_of_false hcode hbox, hasPoint_of_unsolved (unsolved_searched _ _ _ _ _ _)⟩
    · rintro w ⟨b, v, hw⟩
      rw [hw]
      exact ⟨hbox, hasPoint_of_unsolved (unsolved_brokenOff _ _ _)⟩

end Attained

end Model

/-- Rounding never fails and keeps exactly the integer points of a model. The box of an integer
variable has the integers it had, the box of a binary those bits, and other columns stay as they
are; the columns that were written are remembered with the bounds they had. No bound of an integer
column is fractional then. So a solve with a search, whatever the solver answers and the callback
does, says that bounds are bad when a box is empty, and then only, and the model has its points
back on every way out. -/
theorem roundAllBounds_keeps_integers {m : Model Float} (h : m.Attained) (hr : m.BoundsInRange) :
    ∃ changes m', Solving.roundAllBounds m = .ok changes m' ∧ m.RoundedTo changes m' ∧
      (m.IsMixed → ∀ {σ : Type} (host : Host Float σ) (callback : Option (Callback Float σ))
        (fuel : ℕ) (session : Session Float σ),
        Runs (Solving.optimize host callback fuel) ⟨session, m⟩
          (fun _ w => (w.model.last.code = .badBounds ↔
              ∃ c ∈ m'.problem.columns, ∀ q, ¬c.Contains q) ∧
            ∀ x, w.model.HasPoint x ↔ m.HasPoint x)
          fun w => (¬∃ c ∈ m'.problem.columns, ∀ q, ¬c.Contains q) ∧
            ∀ x, w.model.HasPoint x ↔ m.HasPoint x) := by
  obtain ⟨changes, hrun, hrounded⟩ := h.roundedTo hr
  exact ⟨changes, _, hrun, hrounded, fun hmixed _ host callback fuel session =>
    h.optimize_code hr hmixed host callback fuel session⟩

/-! ### Between one quarter and three quarters -/

def narrowColumn : Column Float := Column.rebound {} (ScalarSet.interval 0.25 0.75).change

/-- A variable between these bounds. -/
def narrow : Model Float :=
  freeModel.solo { index := ⟨1⟩, column := 1, bound := .interval } narrowColumn

theorem narrow_attained : narrow.Attained := by
  have hcall := freeModel_attained.call
    (.edit (.addConstraint (.single ⟨1⟩) (.set (.interval 0.25 0.75))))
  rwa [freeModel_attained.wellFormed.after_addBound (c := {}) rfl rfl rfl rfl
    (s := .interval 0.25 0.75) rfl (by decide +kernel)] at hcall

/-- The variable made an integer one. -/
def narrowInteger : Model Float :=
  Call.after narrow (.edit (.addConstraint (.single ⟨1⟩) (.set .integer)))

theorem narrowInteger_eq : narrowInteger =
    { (narrow.withColumn 0 fun c => { c with kind := .integer }).withVariable 1
        fun info => { info with type := .integer } with integers := 1 } := by
  have hat : narrow.VariableAt 0 1 { index := ⟨1⟩, column := 1, bound := .interval } narrowColumn :=
    ⟨rfl, rfl, rfl, rfl⟩
  exact (after_return (Modelling.addConstraint (.single ⟨1⟩) (.set .integer))
    Reply.newConstraint).trans
      (after_ok
        (Modelling.addTypeConstraint_run narrow_attained.wellFormed hat rfl .integer .integer))

theorem narrowInteger_boundsInRange : narrowInteger.BoundsInRange := by
  have hcolumns : narrowInteger.problem.columns = [{ narrowColumn with kind := .integer }] := by
    rw [narrowInteger_eq]
    rfl
  intro c hc
  rw [hcolumns, List.mem_singleton] at hc
  rw [hc]
  exact ⟨by decide +kernel, by decide +kernel⟩

theorem narrowInteger_isMixed : narrowInteger.IsMixed := by
  refine .inr ?_
  rw [narrowInteger_eq]
  decide

theorem roundAllBounds_keeps_integers_narrow : ∃ changes m',
    Solving.roundAllBounds narrowInteger = .ok changes m' ∧
      narrowInteger.RoundedTo changes m' ∧
      Runs (Solving.optimize silentHost none 10) ⟨⟨(), #[]⟩, narrowInteger⟩
        (fun _ w => (w.model.last.code = .badBounds ↔
            ∃ c ∈ m'.problem.columns, ∀ q, ¬c.Contains q) ∧
          ∀ x, w.model.HasPoint x ↔ narrowInteger.HasPoint x)
        fun w => (¬∃ c ∈ m'.problem.columns, ∀ q, ¬c.Contains q) ∧
          ∀ x, w.model.HasPoint x ↔ narrowInteger.HasPoint x := by
  obtain ⟨changes, m', hrun, hrounded, hsolve⟩ := roundAllBounds_keeps_integers
    (narrow_attained.call _) narrowInteger_boundsInRange
  exact ⟨changes, m', hrun, hrounded, hsolve narrowInteger_isMixed silentHost none 10 _⟩

end MixedInteger
