import MixedInteger.Proofs.Model.Draft

/-! What is said of a single variable at its declaration: a value that it is fixed at, or bounds,
and a type. The sets that say so find room one after another, and together they let through what
was said. A bound at the end of the range of doubles, or beyond it, is dropped from the column;
this makes no difference to a value inside the range. -/

namespace MixedInteger

open Extended

/-! ### Bounds that are stored -/

section
variable {l u : Extended} {q : ℚ}

theorem storedBounds_lower_iff (h : l ≤ -Scalar.largest → l ≤ rat q) :
    (storedBounds l u).2.1 ≤ rat q ↔ l ≤ rat q := by
  simp only [storedBounds, boundKind]
  split_ifs with heq hl hu hu
  · exact Iff.rfl
  · exact iff_of_true (bottom_le_rat q) (h hl)
  · exact iff_of_true (bottom_le_rat q) (h hl)
  · exact Iff.rfl
  · exact Iff.rfl

theorem storedBounds_lower_cases (l u : Extended) :
    (storedBounds l u).2.1 = l ∨ (storedBounds l u).2.1 = bottom := by
  simp only [storedBounds, boundKind]
  split_ifs
  · exact .inl rfl
  · exact .inr rfl
  · exact .inr rfl
  · exact .inl rfl
  · exact .inl rfl

theorem storedBounds_upper_iff (h : Scalar.largest ≤ u → rat q ≤ u) :
    rat q ≤ (storedBounds l u).2.2 ↔ rat q ≤ u := by
  simp only [storedBounds, boundKind]
  split_ifs with heq hl hu hu
  · rw [BoundKind.sides, eq_of_beq heq]
  · exact iff_of_true (rat_le_top q) (h hu)
  · exact Iff.rfl
  · exact iff_of_true (rat_le_top q) (h hu)
  · exact Iff.rfl

/-- The sides of a column after a bound from below is written, and then one from above. -/
def storedSides : Option ℚ → Option ℚ → Extended × Extended
  | none, none => (bottom, top)
  | some l, none => (storedBounds (rat l) top).2
  | none, some u => (storedBounds bottom (rat u)).2
  | some l, some u => (storedBounds (storedBounds (rat l) top).2.1 (rat u)).2

/-- Bounds that are dropped only where this makes no difference to a value. -/
theorem storedSides_iff {lower upper : Option ℚ}
    (hl : ∀ l ∈ lower, (rat l : Extended) ≤ -Scalar.largest → l ≤ q)
    (hu : ∀ u ∈ upper, Scalar.largest ≤ (rat u : Extended) → q ≤ u) :
    ((storedSides lower upper).1 ≤ rat q ↔ ∀ l ∈ lower, l ≤ q) ∧
      (rat q ≤ (storedSides lower upper).2 ↔ ∀ u ∈ upper, q ≤ u) := by
  have hbottom : ∀ u, (storedBounds bottom u).2.1 ≤ rat q := fun u =>
    (storedBounds_lower_iff fun _ => bottom_le_rat q).2 (bottom_le_rat q)
  have htop : ∀ l, rat q ≤ (storedBounds l top).2.2 := fun l =>
    (storedBounds_upper_iff fun _ => rat_le_top q).2 (rat_le_top q)
  cases lower with
  | none =>
    cases upper with
    | none => simp [storedSides]
    | some u =>
      have hupper := storedBounds_upper_iff (l := bottom) fun h => (rat_le_rat _ _).2 (hu u rfl h)
      simp [storedSides, hbottom, hupper]
  | some l =>
    have hlower := storedBounds_lower_iff (u := top) fun h => (rat_le_rat _ _).2 (hl l rfl h)
    cases upper with
    | none => simp [storedSides, htop, hlower]
    | some u =>
      have hupper := storedBounds_upper_iff (l := (storedBounds (rat l) top).2.1)
        fun h => (rat_le_rat _ _).2 (hu u rfl h)
      -- what the first bound left behind is dropped for the same reason
      have hkept : (storedBounds (rat l) top).2.1 ≤ -Scalar.largest →
          (storedBounds (rat l) top).2.1 ≤ rat q := by
        rcases storedBounds_lower_cases (rat l) top with heq | heq <;> rw [heq]
        · exact fun h => (rat_le_rat _ _).2 (hl l rfl h)
        · exact fun _ => bottom_le_rat q
      simp [storedSides, storedBounds_lower_iff hkept, hlower, hupper]

end

/-! ### Declarations -/

/-- What is said of one variable. A value that it is fixed at takes the place of bounds. -/
structure Declaration where
  fixed : Option ℚ := none
  lower : Option ℚ := none
  upper : Option ℚ := none
  type : TypeState := .continuous

namespace Declaration

def bounds (e : Declaration) : List (ScalarSet Extended) :=
  match e.fixed with
  | some x => [.equalTo (rat x)]
  | none => (e.lower.map fun l => .greaterThan (rat l)).toList ++
      (e.upper.map fun u => .lessThan (rat u)).toList

def types (e : Declaration) : List (ScalarSet Extended) :=
  match e.type with
  | .continuous => []
  | .binary => [.zeroOne]
  | .integer => [.integer]

/-- The value is one that the variable may have. -/
def Holds (e : Declaration) (q : ℚ) : Prop :=
  (match e.fixed with
    | some x => q = x
    | none => (∀ l ∈ e.lower, l ≤ q) ∧ ∀ u ∈ e.upper, q ≤ u) ∧ e.type.Admits q

/-- The value or the bounds stay inside the range of doubles. -/
def InRange (e : Declaration) (q : ℚ) : Prop :=
  |q| ≤ (Scalar.largest : Extended).value ∨
    (∀ l ∈ e.lower, -(Scalar.largest : Extended).value < l) ∧
      ∀ u ∈ e.upper, u < (Scalar.largest : Extended).value

/-- The variable with its name and all its sets. -/
def drafted (e : Declaration) (name : String) : DraftVariable :=
  (e.bounds ++ e.types).foldl DraftVariable.constrained { name := name }

end Declaration

/-! ### Sets one after another -/

namespace DraftVariable

/-- There is room for one set after another. -/
inductive TakesAll : DraftVariable → List (ScalarSet Extended) → Prop
  | nil (x : DraftVariable) : TakesAll x []
  | cons {x : DraftVariable} {s : ScalarSet Extended} {ss : List (ScalarSet Extended)}
      (hs : x.Takes s) (hss : (x.constrained s).TakesAll ss) : TakesAll x (s :: ss)

/-- What the kinds of sets let through, side by side. -/
theorem admits_iff {x : DraftVariable} {q : ℚ} : x.Admits q ↔
    (∀ s, x.record.below = some s ∨ x.record.above = some s →
      (({ lower := x.lower, upper := x.upper } : Column Extended).set s.kind).Contains q) ∧
      x.record.type.Admits q := by
  simp only [Admits, VariableRecord.carries, Bool.or_eq_true, decide_eq_true_eq,
    Option.map_eq_some_iff]
  constructor
  · refine fun h => ⟨fun s hs => h _ (.inl (hs.imp (fun hs => ⟨s, hs, rfl⟩) fun hs => ⟨s, hs, rfl⟩)),
      ?_⟩
    cases ht : x.record.type with
    | continuous => trivial
    | binary => exact h .zeroOne (.inr (by simp [ht, TypeState.kind?]))
    | integer => exact h .integer (.inr (by simp [ht, TypeState.kind?]))
  · rintro ⟨hsides, htype⟩ k ((⟨s, hs, rfl⟩ | ⟨s, hs, rfl⟩) | hk)
    · exact hsides s (.inl hs)
    · exact hsides s (.inr hs)
    · cases ht : x.record.type <;> rw [ht] at hk htype <;> cases hk <;> exact htype

end DraftVariable

section
variable {ε σ β : Type} (f : β → EStateM ε σ PUnit) (s : σ)

theorem forM_singleton_run (x : β) : [x].forM f s = f x s := by
  refine (bind_run s (f x) _).trans ?_
  cases f x s <;> rfl

theorem forM_append_run (xs ys : List β) :
    (xs ++ ys).forM f s = (xs.forM f >>= fun _ => ys.forM f) s := by
  induction xs generalizing s with
  | nil => rfl
  | cons x xs ih =>
    refine (bind_run s (f x) _).trans (Eq.symm ((bind_run s _ _).trans ?_))
    rw [show (x :: xs).forM f s = (f x >>= fun _ => xs.forM f) s from rfl, bind_run]
    cases f x s with
    | ok b s' => exact ((bind_run s' _ _).symm.trans (ih s').symm)
    | error e s' => rfl

end

theorem Model.Follows.constrainAll {m : Model Extended} {d : Draft} {x : DraftVariable}
    {ss : List (ScalarSet Extended)} (hs : x.TakesAll ss) (h : m.Follows (d.declare x)) :
    ∃ m', (ss.forM fun s => do
        let _ ← Modelling.addConstraint (.single (d.declare x).last) (.set s)) m = .ok () m' ∧
      m'.Follows (d.declare (ss.foldl DraftVariable.constrained x)) := by
  induction hs generalizing m with
  | nil x => exact ⟨m, rfl, h⟩
  | @cons x s ss hs hss ih =>
    obtain ⟨c, m₁, hrun, h₁⟩ := h.constrain hs
    obtain ⟨m₂, hrest, h₂⟩ := ih h₁
    rw [d.last_congr (x.constrained s) x] at hrest
    have hfirst : (do
        let _ ← Modelling.addConstraint (.single (d.declare x).last) (.set s) :
          Modelling Extended PUnit) m = .ok ⟨⟩ m₁ := by
      rw [bind_run, show Modelling.addConstraint (.single (d.declare x).last) (.set s) m =
        .ok c m₁ from hrun]
      rfl
    refine ⟨m₂, (bind_run m _ _).trans ?_, h₂⟩
    beta_reduce
    rw [hfirst]
    exact hrest

namespace Declaration

variable (e : Declaration) (name : String)

theorem takesAll_bounds : ({ name := name } : DraftVariable).TakesAll e.bounds := by
  obtain ⟨fixed, lower, upper, type⟩ := e
  have hfirst : ∀ s : ScalarSet Extended, s.type? = none →
      (∀ y ∈ s.values, Scalar.isNaN y = false) → ({ name := name } : DraftVariable).Takes s :=
    fun s ht hs => ⟨hs, by simp [ht], fun _ => rfl, fun _ => rfl⟩
  cases fixed with
  | some x => exact .cons (hfirst _ rfl (by simp [ScalarSet.values])) (.nil _)
  | none =>
    cases lower with
    | none =>
      cases upper with
      | none => exact .nil _
      | some u => exact .cons (hfirst _ rfl (by simp [ScalarSet.values])) (.nil _)
    | some l =>
      refine .cons (hfirst _ rfl (by simp [ScalarSet.values])) ?_
      cases upper with
      | none => exact .nil _
      | some u =>
        exact .cons ⟨by simp [ScalarSet.values], fun _ => rfl, by simp [ScalarSet.boundsBelow],
          fun _ => rfl⟩ (.nil _)

theorem takesAll_types :
    (e.bounds.foldl DraftVariable.constrained { name := name }).TakesAll e.types := by
  have htype : (e.bounds.foldl DraftVariable.constrained { name := name }).record.type =
      .continuous := by
    obtain ⟨fixed, lower, upper, type⟩ := e
    cases fixed <;> cases lower <;> cases upper <;> rfl
  rw [types]
  cases e.type with
  | continuous => exact .nil _
  | binary =>
    exact .cons ⟨by simp [ScalarSet.values], fun _ => htype, by simp [ScalarSet.boundsBelow],
      by simp [ScalarSet.boundsAbove]⟩ (.nil _)
  | integer =>
    exact .cons ⟨by simp [ScalarSet.values], fun _ => htype, by simp [ScalarSet.boundsBelow],
      by simp [ScalarSet.boundsAbove]⟩ (.nil _)

theorem drafted_name : (e.drafted name).name = name := by
  have hfold : ∀ (ss : List (ScalarSet Extended)) (x : DraftVariable),
      (ss.foldl DraftVariable.constrained x).name = x.name := by
    intro ss
    induction ss with
    | nil => exact fun _ => rfl
    | cons s ss ih => exact fun x => (ih _).trans (x.name_constrained s)
  exact hfold _ _

theorem record_drafted : (e.drafted name).record = {
    below := e.fixed.elim (e.lower.map fun l => .greaterThan (rat l)) fun x => some (.equalTo (rat x))
    above := e.fixed.elim (e.upper.map fun u => .lessThan (rat u)) fun x => some (.equalTo (rat x))
    type := e.type } := by
  obtain ⟨fixed, lower, upper, type⟩ := e
  cases fixed <;> cases lower <;> cases upper <;> cases type <;> rfl

theorem sides_fixed {x : ℚ} (hx : e.fixed = some x) :
    (e.drafted name).lower = rat x ∧ (e.drafted name).upper = rat x := by
  have hstored : storedBounds (rat x) (rat x) = (.fixed, rat x, rat x) := by
    simp [storedBounds, boundKind, BoundKind.sides]
  obtain ⟨fixed, lower, upper, type⟩ := e
  cases hx
  cases type <;> exact ⟨congrArg (·.2.1) hstored, congrArg (·.2.2) hstored⟩

theorem sides_free (hfixed : e.fixed = none) :
    ((e.drafted name).lower, (e.drafted name).upper) = storedSides e.lower e.upper := by
  obtain ⟨fixed, lower, upper, type⟩ := e
  cases hfixed
  cases lower <;> cases upper <;> cases type <;> rfl

/-- Inside the range a bound that is dropped makes no difference. -/
theorem InRange.le_of_dropped {e : Declaration} {q : ℚ} (hq : e.InRange q) :
    (∀ l ∈ e.lower, (rat l : Extended) ≤ -Scalar.largest → l ≤ q) ∧
      ∀ u ∈ e.upper, Scalar.largest ≤ (rat u : Extended) → q ≤ u := by
  rw [largest_eq, neg_rat]
  simp only [rat_le_rat]
  rcases hq with hq | ⟨hlower, hupper⟩
  · exact ⟨fun l _ hle => hle.trans (abs_le.1 hq).1, fun u _ hle => (abs_le.1 hq).2.trans hle⟩
  · exact ⟨fun l hl hle => absurd hle (not_le.2 (hlower l hl)),
      fun u hu hle => absurd hle (not_le.2 (hupper u hu))⟩

/-- The sets of a declaration let through what was said of the variable. -/
theorem admits_drafted {q : ℚ} (hq : e.InRange q) : (e.drafted name).Admits q ↔ e.Holds q := by
  rw [DraftVariable.admits_iff, record_drafted, Holds]
  refine and_congr ?_ Iff.rfl
  cases hfixed : e.fixed with
  | some x =>
    obtain ⟨hl, hu⟩ := e.sides_fixed name hfixed
    simp [ScalarSet.kind, Column.set, ScalarSet.Contains, hl]
  | none =>
    obtain ⟨hl, hu⟩ := storedSides_iff hq.le_of_dropped.1 hq.le_of_dropped.2
    rw [← e.sides_free name hfixed] at hl hu
    rw [← hl, ← hu]
    cases hlower : e.lower <;> cases hupper : e.upper <;>
      simp_all [or_imp, forall_and, ScalarSet.kind, Column.set, ScalarSet.Contains]

end Declaration

end MixedInteger
