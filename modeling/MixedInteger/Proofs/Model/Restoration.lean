import MixedInteger.Model.Optimize
import MixedInteger.Proofs.Model.Bounds
import MixedInteger.Proofs.Model.Ending
import MixedInteger.Proofs.Model.Sound
import MixedInteger.Proofs.Number.Extended

/-! A solve leaves the model as it was. What is rounded or set for the search is undone on every
way out of it: when the solver fails, when the callback does, and when the search is refused.
The bounds that are written back have the kind that the column had, so nothing but the bounds
has to be remembered. The exact method, which switches presolving off for its run, gives the
parameters of the simplex method back on every way out as well. -/

namespace MixedInteger

variable {α σ β γ : Type} [Scalar α]

/-! ### One column -/

namespace Column

/-- The kind of the column is that of its bounds, which are numbers, and leaves both alone. -/
structure Settled (c : Column α) : Prop where
  lower : Scalar.isNaN c.lower = false
  upper : Scalar.isNaN c.upper = false
  bound : c.bound = boundKind c.lower c.upper
  sides : c.bound.sides c.lower c.upper = (c.lower, c.upper)

variable (c : Column α) (t : TypeState)

/-- Are there other bounds for a variable of this type? -/
def rounds : Bool :=
  t ≠ .continuous &&
    !((Solving.integerBox t c).1 == c.lower && (Solving.integerBox t c).2 == c.upper)

variable {c t} in
theorem type_of_rounds (h : c.rounds t = true) : t ≠ .continuous := by
  rintro rfl
  cases h

def box : BoundChange α :=
  { lower := some (Solving.integerBox t c).1, upper := some (Solving.integerBox t c).2 }

/-- The column as a search sees it. -/
def inner : Column α := if c.rounds t then c.rebound (c.box t) else c

def bounds : BoundChange α := { lower := some c.lower, upper := some c.upper }

/-- Bounds that are written over. -/
def oldBounds : Option (BoundChange α) := if c.rounds t then some c.bounds else none

@[simp] theorem kind_inner : (c.inner t).kind = c.kind := by
  unfold inner
  split_ifs <;> rfl

@[simp] theorem cost_inner : (c.inner t).cost = c.cost := by
  unfold inner
  split_ifs <;> rfl

variable {c}

theorem Settled.rebound_bounds (h : c.Settled) (b : BoundChange α) :
    (c.rebound b).rebound c.bounds = c := by
  simp only [rebound, bounds, Option.getD_some, storedBounds, ← h.bound, h.sides]

open OrderedScalar LawfulScalar in
theorem Settled.isNaN_integerBox [LawfulScalar α] (h : c.Settled) :
    Scalar.isNaN (Solving.integerBox t c).1 = false ∧
      Scalar.isNaN (Solving.integerBox t c).2 = false := by
  have hlower : Scalar.isNaN (if Scalar.isFinite c.lower then
      Scalar.ofInt (Scalar.ceilInt c.lower) else c.lower) = false := by
    split_ifs
    · exact isNaN_ofInt _
    · exact h.lower
  have hupper : Scalar.isNaN (if Scalar.isFinite c.upper then
      Scalar.ofInt (Scalar.floorInt c.upper) else c.upper) = false := by
    split_ifs
    · exact isNaN_ofInt _
    · exact h.upper
  unfold Solving.integerBox
  dsimp only
  by_cases ht : t = .binary
  · rw [if_pos ht]
    exact ⟨larger_of (P := fun x => Scalar.isNaN x = false) isNaN_zero hlower,
      smaller_of (P := fun x => Scalar.isNaN x = false) isNaN_one hupper⟩
  · rw [if_neg ht]
    exact ⟨hlower, hupper⟩

end Column

/-! ### All columns -/

namespace Model

/-- The model with other columns. -/
def withColumns (m : Model α) (cs : List (Column α)) : Model α :=
  { m with problem := { m.problem with columns := cs } }

/-- The columns as a search sees them. -/
def innerColumns (m : Model α) : List (Column α) :=
  List.zipWith (fun info c => c.inner info.type) m.vars.values m.problem.columns

/-- The kinds of the columns stay. -/
theorem map_kind_innerColumns {m : Model α} (h : m.vars.values.length = m.problem.columnCount) :
    m.innerColumns.map (·.kind) = m.problem.columns.map (·.kind) := by
  refine List.ext_getElem (by simp [innerColumns, h, Problem.columnCount]) fun i hi hi' => ?_
  simp only [innerColumns, List.getElem_map, List.getElem_zipWith, Column.kind_inner]

end Model

theorem modify_length {β : Type} (f : β → β) (x : β) (ys : List β) :
    ∀ xs : List β, (xs ++ x :: ys).modify xs.length f = xs ++ f x :: ys
  | [] => rfl
  | _ :: xs => congrArg _ (modify_length f x ys xs)

namespace Solving

/-- The bounds that are written over, with the numbers of their columns. -/
def oldBounds (infos : List VariableInfo) (cs : List (Column α)) :
    List (Option (Nat × BoundChange α)) :=
  List.zipWith (fun info c => (c.oldBounds info.type).map (info.column, ·)) infos cs

/-- The variables of these columns in their order, which is counted from `n` on. -/
def Numbered : Nat → List VariableInfo → List (Column α) → Prop
  | _, [], [] => True
  | n, info :: infos, _ :: cs => info.column = n + 1 ∧ Numbered (n + 1) infos cs
  | _, _, _ => False

section
variable [LawfulScalar α] {m : Model α}

theorem writeBounds_run {c : Column α} {done rest : List (Column α)}
    (hm : m.problem.columns = done ++ c :: rest) {b : BoundChange α}
    (hl : Scalar.isNaN (b.lower.getD c.lower) = false)
    (hu : Scalar.isNaN (b.upper.getD c.upper) = false) :
    Modelling.setVariableBound (done.length + 1) b m =
      .ok () (m.withColumns (done ++ c.rebound b :: rest)) := by
  have hget : m.problem.columns[done.length]? = some c := by rw [hm]; simp
  rw [Modelling.setVariableBound_run hget,
    if_neg (by rw [Modelling.refusesChange_eq_false _ hl hu]; simp), Model.withColumn,
    Model.withColumns, hm, modify_length]

theorem roundBounds_run {info : VariableInfo} {c : Column α} {done rest : List (Column α)}
    (hm : m.problem.columns = done ++ c :: rest) (hn : info.column = done.length + 1)
    (hc : info.type ≠ .continuous → c.Settled) : roundBounds info m =
      .ok ((c.oldBounds info.type).map (info.column, ·))
        (m.withColumns (done ++ c.inner info.type :: rest)) := by
  have hsame : m.withColumns (done ++ c :: rest) = m := by rw [← hm]; rfl
  by_cases ht : info.type = .continuous
  · have hrounds : c.rounds info.type = false := by simp [Column.rounds, ht]
    rw [roundBounds, if_pos ht, Column.oldBounds, Column.inner, hrounds, if_neg (by simp),
      if_neg (by simp), hsame]
    rfl
  · have hget : m.problem.columns[done.length]? = some c := by rw [hm]; simp
    have hcolumn : m.problem.column info.column = .ok c := by
      rw [hn, Problem.column_of_getElem hget]
    have hrounds : c.rounds info.type = !((integerBox info.type c).1 == c.lower &&
        (integerBox info.type c).2 == c.upper) := by simp [Column.rounds, ht]
    simp only [roundBounds, ht, if_false, bind_run, get_run, hcolumn, Column.oldBounds,
      Column.inner, hrounds, Bool.not_eq_true']
    cases hbox : ((integerBox info.type c).1 == c.lower &&
        (integerBox info.type c).2 == c.upper) with
    | true => simp [hsame]
    | false =>
      obtain ⟨hl, hu⟩ := (hc ht).isNaN_integerBox info.type
      have hrun := writeBounds_run hm (b := c.box info.type) hl hu
      rw [← hn, Column.box] at hrun
      simp [hrun, Column.bounds, Column.box]

/-- The columns of integer variables have the kinds of their bounds. -/
def Settles (infos : List VariableInfo) (cs : List (Column α)) : Prop :=
  ∀ e ∈ infos.zip cs, e.1.type ≠ .continuous → e.2.Settled

/-- The bounds of all columns that are left are rounded, in their order. -/
theorem mapM_roundBounds (done : List (Column α)) {infos : List VariableInfo} {cs : List (Column α)}
    (hm : m.problem.columns = done ++ cs) (hn : Numbered done.length infos cs)
    (hc : Settles infos cs) : infos.mapM roundBounds m = .ok (oldBounds infos cs)
      (m.withColumns (done ++ List.zipWith (fun info c => c.inner info.type) infos cs)) := by
  induction infos generalizing done cs m with
  | nil =>
    cases cs with
    | nil =>
      rw [List.append_nil] at hm
      simp [oldBounds, Model.withColumns, ← hm]
    | cons c cs => exact hn.elim
  | cons info infos ih =>
    cases cs with
    | nil => exact hn.elim
    | cons c cs =>
      have hhead := roundBounds_run hm hn.1 (hc (info, c) List.mem_cons_self)
      have htail := ih (m := m.withColumns (done ++ c.inner info.type :: cs))
        (done ++ [c.inner info.type]) (by simp [Model.withColumns])
        (by rw [List.length_append]; exact hn.2) fun e he => hc e (List.mem_cons_of_mem _ he)
      rw [List.mapM_cons]
      simp only [bind_run, hhead, htail, pure_run]
      simp [oldBounds, Model.withColumns]

/-- Old bounds are written back in the same order. -/
theorem forM_oldBounds (done : List (Column α)) {infos : List VariableInfo} {cs : List (Column α)}
    (hm : m.problem.columns = done ++ List.zipWith (fun info c => c.inner info.type) infos cs)
    (hn : Numbered done.length infos cs) (hc : Settles infos cs) :
    ((oldBounds infos cs).filterMap id).forM (fun b => Modelling.setVariableBound b.1 b.2) m =
      .ok () (m.withColumns (done ++ cs)) := by
  induction infos generalizing done cs m with
  | nil =>
    cases cs with
    | nil =>
      rw [List.zipWith_nil_left] at hm
      simp [oldBounds, Model.withColumns, ← hm]
    | cons c cs => exact hn.elim
  | cons info infos ih =>
    cases cs with
    | nil => exact hn.elim
    | cons c cs =>
      have htail : ∀ m : Model α, m.problem.columns = done ++ c ::
          List.zipWith (fun info c => c.inner info.type) infos cs →
          ((oldBounds infos cs).filterMap id).forM
            (fun b => Modelling.setVariableBound b.1 b.2) m = .ok () (m.withColumns (done ++ c :: cs)) := by
        intro m hm
        rw [List.append_cons] at hm ⊢
        exact ih _ hm (by rw [List.length_append]; exact hn.2) fun e he =>
          hc e (List.mem_cons_of_mem _ he)
      rw [List.zipWith_cons_cons] at hm
      cases hrounds : c.rounds info.type with
      | false =>
        have hinner : c.inner info.type = c := by simp [Column.inner, hrounds]
        rw [hinner] at hm
        simpa [oldBounds, Column.oldBounds, hrounds] using htail m hm
      | true =>
        have hinner : c.inner info.type = c.rebound (c.box info.type) := by
          simp [Column.inner, hrounds]
        have hsettled : c.Settled := hc (info, c) List.mem_cons_self (Column.type_of_rounds hrounds)
        have hwrite := writeBounds_run hm (b := c.bounds) hsettled.lower hsettled.upper
        rw [hinner, hsettled.rebound_bounds, ← hn.1] at hwrite
        simpa [oldBounds, Column.oldBounds, hrounds, hwrite, Model.withColumns] using
          htail (m.withColumns _) rfl

end

end Solving

/-! ### Models without their solutions -/

namespace Model

/-- The model without what solving leaves behind. -/
def unsolved (m : Model α) : Model α := { m with last := {}, problem := m.problem.unsolved }

end Model

namespace Solving

/-- Steps that keep a property of the model, whatever is stored of solves. -/
def Keeps (I : Model α → Prop) (x : Solving α σ β) : Prop :=
  ∀ w, I w.model.unsolved →
    Runs x w (fun _ w' => I w'.model.unsolved) fun w' => I w'.model.unsolved

namespace Keeps

variable {I : Model α → Prop}

theorem pure (b : β) : Keeps I (Pure.pure b : Solving α σ β) := fun _ h => h

theorem throw (e : Fault α) : Keeps I (MonadExcept.throw e : Solving α σ β) := fun _ h => h

theorem bind {x : Solving α σ β} {f : β → Solving α σ γ} (hx : Keeps I x)
    (hf : ∀ b, Keeps I (f b)) : Keeps I (x >>= f) :=
  fun w h => (hx w h).bind fun b w' h' => hf b w' h'

theorem model : Keeps I (Solving.model : Solving α σ (Model α)) := fun _ h => h

theorem ofTask (x : Task α σ β) : Keeps I (Solving.ofTask x) := by
  intro w h
  unfold Runs Solving.ofTask
  cases x w.session with
  | ok b session => exact h
  | error e session => exact h

theorem ofExcept (x : Except (Fault α) β) : Keeps I (Solving.ofExcept x : Solving α σ β) := by
  cases x with
  | ok b => exact pure b
  | error e => exact throw e

theorem modifyModel {f : Model α → Model α} (hf : ∀ m, I m.unsolved → I (f m).unsolved) :
    Keeps I (Solving.modifyModel f : Solving α σ Unit) := fun w h => hf w.model h

theorem modifyLast (f : SolveRecord α → SolveRecord α) :
    Keeps I (Solving.modifyLast f : Solving α σ Unit) := modifyModel fun _ h => h

theorem engage {run : Problem α → Task α σ (Problem α × ReturnCode)}
    (hrun : ∀ p, (run p).Spares p) : Keeps I (Solving.engage run) := by
  intro w h
  have hspares := hrun w.model.problem w.session trivial
  unfold Runs at hspares ⊢
  have hstep : Solving.engage run w = match run w.model.problem w.session with
      | .ok r session => .ok r.2 ⟨session, { w.model with problem := r.1 }⟩
      | .error e session => .error e ⟨session, w.model⟩ := by
    simp only [Solving.engage, Solving.model, bind_run, get_run, pure_run, Solving.ofTask]
    cases run w.model.problem w.session <;> rfl
  rw [hstep]
  cases hr : run w.model.problem w.session with
  | error e session => exact h
  | ok r session =>
    rw [hr] at hspares
    have hsame : ({ w.model with problem := r.1 } : Model α).unsolved = w.model.unsolved := by
      simp only [Model.unsolved, hspares.1]
    dsimp only
    rw [hsame]
    exact h

end Keeps

/-! ### Solves without a search -/

section
variable {I : Model α → Prop} (host : Host α σ)

theorem solveContinuous_keeps : Keeps I (solveContinuous host) := by
  rw [solveContinuous_eq]
  refine (Keeps.modifyLast _).bind fun _ => Keeps.model.bind fun m => ?_
  refine Keeps.bind (Keeps.engage fun p => ?_) fun code => Keeps.modifyLast _
  cases m.method with
  | simplex => exact simplex_spares host p _
  | exact => exact exact_spares host p _
  | interior => exact interior_spares host p _

theorem certify_keeps : Keeps I (certify host) := by
  unfold certify
  refine Keeps.model.bind fun m => (Keeps.ofExcept _).bind fun primal => ?_
  have hdual : Keeps I (do
      if (← ofExcept (← Solving.model (σ := σ)).dualStatus) = .certificate then
        let ray ← Solving.ofTask (infeasibilityRay host (← Solving.model).problem)
        Solving.modifyLast fun r => { r with certificate := some ray } : Solving α σ Unit) := by
    refine Keeps.model.bind fun m => (Keeps.ofExcept _).bind fun dual => ?_
    split_ifs
    · exact Keeps.model.bind fun m => (Keeps.ofTask _).bind fun ray => Keeps.modifyLast _
    · exact Keeps.pure _
  split_ifs
  · exact Keeps.model.bind fun m => (Keeps.ofTask _).bind fun ray =>
      (Keeps.modifyLast _).bind fun _ => hdual
  · exact hdual

end

/-! ### Rounding and putting back -/

/-- What every change of a bound keeps is kept when all bounds are rounded. -/
theorem roundAllBounds_keeps_of {I E : Model α → Prop}
    (hset : ∀ j b m, I m → Runs (Modelling.setVariableBound j b) m (fun _ m' => I m') E)
    (hE : ∀ m, I m → E m) {m : Model α} (h : I m) :
    Runs roundAllBounds m (fun _ m' => I m') E := by
  have hround : ∀ (info : VariableInfo) (m : Model α), I m →
      Runs (roundBounds info) m (fun _ m' => I m') E := by
    intro info m hm
    unfold roundBounds
    split_ifs
    · exact .pure hm
    refine Runs.bind (P := fun m' s => s = m) (.of_ok rfl rfl) ?_
    rintro m' _ rfl
    split
    · exact .throw _ (hE _ hm)
    · dsimp only
      split_ifs
      · exact .pure hm
      · exact (hset _ _ _ hm).bind fun _ _ h => .pure h
  unfold roundAllBounds
  refine Runs.bind (P := fun m' s => s = m) (.of_ok rfl rfl) ?_
  rintro m' _ rfl
  exact (Runs.mapM _ hround h).bind fun _ _ h => .pure h

/-- The variables have the columns in their order, and the columns of integer variables have the
kinds of their bounds. -/
structure Roundable (m : Model α) : Prop where
  numbered : Numbered 0 m.vars.values m.problem.columns
  settled : Settles m.vars.values m.problem.columns

section
variable [LawfulScalar α] {m : Model α} (h : Roundable m)
include h

theorem roundAllBounds_run : roundAllBounds m =
    .ok ((oldBounds m.vars.values m.problem.columns).filterMap id)
      (m.withColumns m.innerColumns) := by
  have hrun := mapM_roundBounds (m := m) [] rfl h.numbered h.settled
  rw [roundAllBounds, bind_run, get_run]
  simp only [bind_run, hrun, pure_run, List.nil_append]
  rfl

theorem restoreBounds_run {m' : Model α} (hm' : m'.problem.columns = m.innerColumns) :
    ((oldBounds m.vars.values m.problem.columns).filterMap id).forM
        (fun b => Modelling.setVariableBound b.1 b.2) m' =
      .ok () (m'.withColumns m.problem.columns) :=
  forM_oldBounds [] hm' h.numbered h.settled

omit h in
/-- A search undoes what was done for it, also when it is broken off. -/
theorem solveInteger_runs {w : Workbench α σ} (h : Roundable w.model) {host : Host α σ}
    {callback : Option (Callback α σ)} {fuel : Nat}
    {Q : ReturnCode → Solution α → Watched α σ → Prop} {e : Prop}
    (hsearch : Runs (search host callback fuel)
      ⟨w.session, w.model.withColumns w.model.innerColumns⟩
      (fun _ w' => Ended (w.model.withColumns w.model.innerColumns) Q w'.model)
      fun w' => e ∧ BrokenOff σ (w.model.withColumns w.model.innerColumns) w'.model) :
    Runs (solveInteger host callback fuel) w
      (fun _ w' => ∃ b code s v, Q code s v ∧
        w'.model = ((w.model.withBasis b).withWatched v).concluded code s)
      fun w' => e ∧ ∃ (b : Solution α) (v : Watched α σ),
        w'.model = (w.model.withBasis b).withWatched v := by
  let inner : Model α := w.model.withColumns w.model.innerColumns
  let old := (oldBounds w.model.vars.values w.model.problem.columns).filterMap id
  have hround : ofModelling roundAllBounds w = .ok old { w with model := inner } := by
    rw [ofModelling, roundAllBounds_run h]
  have hpresolve : (Solving.model : Solving α σ (Model α)) { w with model := inner } =
      .ok inner { w with model := inner } := rfl
  have hrestore : ∀ w' : Workbench α σ, w'.model.problem.columns = w.model.innerColumns →
      ∃ w'', restore old inner.stores.search.presolve w' = .ok () w'' ∧ w''.model =
        (w'.model.withColumns w.model.problem.columns).withPresolve
          w.model.stores.search.presolve := by
    intro w' hw'
    let back := w'.model.withColumns w.model.problem.columns
    refine ⟨⟨w'.session, back.withPresolve w.model.stores.search.presolve⟩, ?_, rfl⟩
    rw [restore, bind_run, ofModelling, restoreBounds_run h hw']
    rfl
  unfold solveInteger
  rw [Runs, bind_run, hround]
  dsimp only
  rw [bind_run, hpresolve]
  refine Runs.bind (P := fun outcome w' => CameBack inner Q e outcome w'.model) ?_ ?_
  · unfold Runs at hsearch ⊢
    dsimp only
    cases hrun : search host callback fuel { w with model := inner } with
    | ok b w' =>
      rw [hrun] at hsearch
      exact hsearch
    | error _ w' =>
      rw [hrun] at hsearch
      exact hsearch
  · rintro (_ | u) w' hw'
    · obtain ⟨he, b, k, v, hw'⟩ := hw'
      obtain ⟨w'', hback, hw''⟩ := hrestore w' (by rw [hw']; rfl)
      rw [Runs, bind_run, hback]
      refine ⟨he, b, v, ?_⟩
      rw [hw'', hw']
      rfl
    · obtain ⟨b, k, code, s, v, hQ, hw'⟩ := hw'
      obtain ⟨w'', hback, hw''⟩ := hrestore w' (by rw [hw']; rfl)
      rw [Runs, bind_run, hback]
      refine ⟨b, code, s, v, hQ, ?_⟩
      rw [hw'', hw']
      rfl

end

/-! ### The whole solve -/

section
variable {m : Model α}

theorem Roundable.congr (h : Roundable m) {m' : Model α} (hm : m'.unsolved = m.unsolved) :
    Roundable m' := by
  have hcolumns : m'.problem.columns = m.problem.columns :=
    congrArg (fun m => m.problem.columns) hm
  have hvars : m'.vars = m.vars := congrArg (fun m => m.vars) hm
  exact ⟨by rw [hvars, hcolumns]; exact h.numbered, by rw [hvars, hcolumns]; exact h.settled⟩

/-- What is done before and after the algorithms touches the record of the last solve only. -/
theorem optimize_keeps_of {I : Model α → Prop} (host : Host α σ)
    (callback : Option (Callback α σ)) (fuel : Nat)
    (hinteger : Keeps I (solveInteger host callback fuel)) :
    Keeps I (optimize host callback fuel) := by
  have hrest : ∀ start, Keeps I (do
      certify host
      let seconds := (← ofTask (Task.now host)) - start
      modifyLast fun r => { r with seconds := seconds }
      let status ← ofExcept (← Solving.model).terminationStatus
      ofTask (Task.tell (.finished status (← Solving.model).last.code seconds)) :
        Solving α σ Unit) := fun start =>
    (certify_keeps host).bind fun _ => (Keeps.ofTask _).bind fun _ =>
      (Keeps.modifyLast _).bind fun _ => Keeps.model.bind fun _ => (Keeps.ofExcept _).bind
        fun _ => Keeps.model.bind fun _ => Keeps.ofTask _
  unfold optimize
  refine (Keeps.ofTask _).bind fun start => (Keeps.modifyLast _).bind fun _ =>
    Keeps.model.bind fun _ => ?_
  split_ifs
  · exact (Keeps.ofTask _).bind fun _ => hinteger.bind fun _ => hrest start
  · exact (Keeps.ofTask _).bind fun _ => (solveContinuous_keeps host).bind fun _ => hrest start

theorem optimize_keeps [LawfulScalar α] (h : Roundable m) (host : Host α σ)
    (callback : Option (Callback α σ)) (fuel : Nat) :
    Keeps (fun m' => m' = m.unsolved) (optimize host callback fuel) := by
  refine optimize_keeps_of host callback fuel fun w hw => ?_
  have hany : Finds (w.model.withColumns w.model.innerColumns) host callback fuel
      fun _ _ _ => True := fun b k session => .anything
  have hsearch := (search_runs (w := ⟨w.session, _⟩) hany).weaken fun _ hw' => And.intro trivial hw'
  refine ((solveInteger_runs (h.congr hw) hsearch).imp ?_).weaken ?_
  · rintro _ w' ⟨b, code, s, v, -, hw'⟩
    rw [hw', ← hw]
    rfl
  · rintro w' ⟨-, b, v, hw'⟩
    rw [hw', ← hw]
    rfl

end

end Solving

end MixedInteger
