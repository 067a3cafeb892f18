import MixedInteger.Proofs.Continuous.Finding
import MixedInteger.Proofs.Problem.Program

/-! What the simplex method concludes when there is no optimum. The solver is truthful but may
say little: it may stop early, and it need not tell an infeasible program from an unbounded one.
The method then asks again without the objective. When the second answer comes, the conclusion
is right; when the second question is cut off, an unbounded problem is called infeasible. -/

namespace MixedInteger

open Extended Finset

/-! ### Truthful solvers -/

namespace LinearProgram

variable (lp : LinearProgram Extended)

/-- There are points as cheap as one likes. -/
def Falls : Prop := ∀ b : ℚ, ∃ y, lp.Satisfied y ∧ dot lp.cost (lp.values y) < rat b

/-- An answer that is true of a program, though it may not say all that is. -/
inductive Truthful : Answer Extended → Prop where
  | point {a : Answer Extended} {x : ℕ → ℚ} : a.status = 0 → a.point = lp.values x →
      lp.Satisfied x → Truthful a
  | stopped {a : Answer Extended} : a.status = 1 ∨ a.status = 4 → Truthful a
  | noOptimum {a : Answer Extended} : a.status = 2 → (∀ y, ¬lp.Satisfied y) ∨ lp.Falls → Truthful a
  | unbounded {a : Answer Extended} : a.status = 3 → lp.Falls → Truthful a

variable {lp}

/-- Where nothing costs anything, nothing is cheap. -/
theorem not_falls_costless : ¬lp.costless.Falls := by
  intro h
  obtain ⟨y, -, hlt⟩ := h 0
  have hcost : lp.costless.cost = firstValues lp.cost.length fun _ => 0 := by
    simp only [costless, firstValues, List.map_const', List.length_range]
    rfl
  rw [values, length_costless, hcost, Row.dot_firstValues, rat_lt_rat] at hlt
  simp at hlt

/-- What is learnt from a program without its cost. -/
theorem Truthful.costless {a : Answer Extended} (ha : lp.costless.Truthful a) :
    (a.status = 0 ∧ ∃ x, lp.Satisfied x) ∨ (a.status ≠ 0 ∧ ∀ x, ¬lp.Satisfied x) ∨
      a.status = 1 ∨ a.status = 4 := by
  cases ha with
  | point hstatus _ hsat => exact .inl ⟨hstatus, _, satisfied_costless.1 hsat⟩
  | stopped hstatus => exact .inr (.inr hstatus)
  | noOptimum hstatus h =>
    obtain hnone | hfalls := h
    · refine .inr (.inl ⟨by simp [hstatus], fun x hx => hnone x (satisfied_costless.2 hx)⟩)
    · exact absurd hfalls not_falls_costless
  | unbounded _ hfalls => exact absurd hfalls not_falls_costless

end LinearProgram

/-- Whenever the host answers, the data of the program are numbers and the answer is true. -/
def Host.IsTruthful {σ : Type} (host : Host Extended σ) : Prop :=
  ∀ r w a, (host.solve r w).1 = .ok a → r.program.IsNumeric ∧ r.program.Truthful a

/-! ### Diagnoses -/

/-- What a run says of its problem, by its code or by the status that it stores, is so. -/
structure Diagnosis (r : Problem Extended × ReturnCode) (Unbounded Infeasible : Prop) : Prop where
  unbounded : r.2 = .noDual ∨ r.1.basic.status = .unbounded → Unbounded
  infeasible : r.2 = .noPrimal ∨ r.1.basic.status = .noFeasible ∨ r.1.basic.status = .infeasible →
    Infeasible

theorem Diagnosis.imp {r : Problem Extended × ReturnCode} {U I U' I' : Prop} (h : Diagnosis r U I)
    (hU : U → U') (hI : I → I') : Diagnosis r U' I' :=
  ⟨fun hr => hU (h.unbounded hr), fun hr => hI (h.infeasible hr)⟩

/-- In this world the solver says that there is no optimum, and asked without the objective it
stops before it has found a point. -/
def Problem.CutOff {σ : Type} (host : Host Extended σ) (p : Problem Extended) (w : σ) : Prop :=
  ∃ options a b w', host.solve ⟨p.linearProgram, .simplex, options⟩ w = (.ok a, w') ∧
    a.status = 2 ∧ (host.solve ⟨p.linearProgram.costless, .simplex, options⟩ w').1 = .ok b ∧
    (b.status = 1 ∨ b.status = 4)

section
variable {σ : Type} {host : Host Extended σ} {p : Problem Extended}

theorem ask_runs (r : Request Extended) (s : Session Extended σ) :
    Runs (Task.ask host r) s (fun a s' => host.solve r s.world = (.ok a, s'.world)) fun _ => True := by
  unfold Runs Task.ask
  cases hsolve : host.solve r s.world with
  | mk answer w =>
    cases answer with
    | error e => trivial
    | ok a => rfl

/-- An early end says nothing of the problem. -/
theorem diagnosis_stopped {code : ReturnCode} (hdual : code ≠ .noDual) (hprimal : code ≠ .noPrimal)
    {U I : Prop} : Diagnosis (p.withBasic {}, code) U I :=
  ⟨by simp [Problem.withBasic, hdual], by simp [Problem.withBasic, hprimal]⟩

/-- Nor does an optimum. -/
theorem diagnosis_optimum (params : Parameter.Simplex Extended) {s : Solution Extended}
    (hs : s.status = .optimal) {U I : Prop} :
    Diagnosis (p.withBasic s, objectiveLimit params p s.objective) U I := by
  have hcode : objectiveLimit params p s.objective ≠ .noDual ∧
      objectiveLimit params p s.objective ≠ .noPrimal := by
    unfold objectiveLimit
    split_ifs <;> simp
  exact ⟨by simp [Problem.withBasic, hs, hcode.1], by simp [Problem.withBasic, hs, hcode.2]⟩

/-- The code and the status tell what the method has found. -/
theorem noOptimum_diagnosis {W : σ → Prop} (params : Parameter.Simplex Extended) (name : String)
    (unbounded : Bool) : Task.Keeps W (noOptimum (σ := σ) params name p unbounded) fun r =>
      Diagnosis r (unbounded = true) (unbounded = false) := by
  unfold noOptimum
  cases unbounded with
  | true =>
    simp only [Bool.not_true, Bool.false_and, Bool.false_eq_true, if_false, if_true]
    split_ifs
    · exact (Task.Keeps.tellAt _ _ _).bind fun _ _ => .pure ⟨fun _ => trivial, by simp [Problem.withBasic]⟩
    · exact (Task.Keeps.tellAt _ _ _).bind fun _ _ => .pure ⟨fun _ => trivial, by simp [Problem.withBasic]⟩
  | false =>
    simp only [Bool.not_false, Bool.true_and, Bool.false_eq_true, if_false]
    split_ifs
    · exact (Task.Keeps.tellAt _ _ _).bind fun _ _ => .pure ⟨by simp [Problem.withBasic], fun _ => trivial⟩
    · exact .pure ⟨by simp [Problem.withBasic], fun _ => trivial⟩
    · exact (Task.Keeps.tellAt _ _ _).bind fun _ _ => .pure ⟨by simp [Problem.withBasic], fun _ => trivial⟩

variable (hhost : host.IsTruthful)
include hhost

/-- Without its objective a program shows a point, has none, or is cut off. -/
theorem isUnbounded_diagnosis (r : Request Extended) (s : Session Extended σ) :
    Runs (isUnbounded host r) s (fun b _ =>
      (b = true → ∃ x, r.program.Satisfied x) ∧ (b = false → (∀ x, ¬r.program.Satisfied x) ∨
        ∃ c, (host.solve { r with program := r.program.costless } s.world).1 = .ok c ∧
          (c.status = 1 ∨ c.status = 4))) fun _ => True := by
  unfold isUnbounded
  refine (ask_runs _ s).bind fun c s' hc => .pure ?_
  have hanswer : (host.solve { r with program := r.program.costless } s.world).1 = .ok c :=
    congrArg Prod.fst hc
  obtain ⟨hstatus, hpoint⟩ | ⟨hstatus, hnone⟩ | hstatus := (hhost _ _ _ hanswer).2.costless
  · simp [hstatus, hpoint]
  · simp [hstatus, hnone]
  · refine ⟨fun h => ?_, fun _ => .inr ⟨c, hanswer, hstatus⟩⟩
    obtain h' | h' := hstatus <;> simp [h'] at h

variable (hp : p.Uncrossed)
include hp

omit hhost in
/-- A program that falls for ever is the one of an unbounded problem. -/
theorem admits_unbounded (hlp : p.linearProgram.IsNumeric) (h : p.linearProgram.Falls) :
    p.Admits .unbounded := by
  intro b
  obtain ⟨y, hsat, hlt⟩ := h (b - p.sign * p.constant.value)
  rw [hlp.dot_cost hp, rat_lt_rat] at hlt
  exact ⟨y, (hlp.satisfied_iff hp).1 hsat, by linarith⟩

theorem solveBasic_diagnosis (hcolumns : p.columns ≠ []) (params : Parameter.Simplex Extended)
    (options : SolverOptions Extended) (name : String) (s : Session Extended σ) :
    Runs (solveBasic host params options name p) s (fun r _ =>
      Diagnosis r (p.Admits .unbounded)
        (p.Admits .infeasible ∨ p.CutOff host s.world ∧ p.Admits .unbounded)) fun _ => True := by
  -- up to the first question the world stays as it is
  have hsilent {β : Type} {x : Task Extended σ β} {P : β → Prop}
      (hx : Task.Keeps (fun w => w = s.world) x P) (t : Session Extended σ) (ht : t.world = s.world) :
      Runs x t (fun b t' => P b ∧ t'.world = s.world) fun _ => True :=
    (hx t ht).weaken fun _ _ => trivial
  unfold solveBasic
  refine (hsilent (.now host) s rfl).bind fun start s₁ h₁ => ?_
  refine (hsilent (.tellAt _ _ _) s₁ h₁.2).bind fun _ s₂ h₂ => ?_
  rw [if_neg (by rwa [List.isEmpty_iff])]
  refine (hsilent (limited_keeps params options) s₂ h₂.2).bind fun options s₃ h₃ => ?_
  refine (ask_runs _ s₃).bind fun a s₄ ha => ?_
  rw [h₃.2] at ha
  obtain ⟨hlp, htrue⟩ := hhost _ _ _ (congrArg Prod.fst ha)
  have hstops {code : ReturnCode} (n : Notice Extended) (least level : ℤ) (hdual : code ≠ .noDual)
      (hprimal : code ≠ .noPrimal) {U I : Prop} (t : Session Extended σ) :
      Runs (do Task.tellAt least level n; return (p.withBasic {}, code)) t
        (fun r _ => Diagnosis r U I) fun _ => True :=
    .onward fun _ _ => .pure (diagnosis_stopped hdual hprimal)
  cases htrue with
  | point hstatus _ _ =>
    simp only [hstatus]
    exact .onward fun now s₅ => .onward fun _ s₆ => .pure (diagnosis_optimum params rfl)
  | stopped hstatus =>
    obtain hstatus | hstatus := hstatus
    · simp only [hstatus, if_true]
      split_ifs
      · exact hstops _ _ _ (by simp) (by simp) s₄
      · exact hstops _ _ _ (by simp) (by simp) s₄
    · simp only [hstatus]
      exact hstops _ _ _ (by simp) (by simp) s₄
  | noOptimum hstatus hnone =>
    simp only [hstatus]
    refine (isUnbounded_diagnosis hhost _ s₄).bind fun b s₅ hb => ?_
    refine ((noOptimum_diagnosis (W := fun _ => True) params name b s₅ trivial).imp
      fun r _ h => h.1.imp (fun hfound => ?_) fun hlost => ?_).weaken fun _ _ => trivial
    · obtain ⟨x, hx⟩ := hb.1 hfound
      exact admits_unbounded hp hlp (hnone.resolve_left fun h => h x hx)
    · obtain hnone' | ⟨c, hc, hstopped⟩ := hb.2 hlost
      · exact .inl fun x hx => hnone' x ((hlp.satisfied_iff hp).2 hx)
      · obtain hnone | hfalls := hnone
        · exact .inl fun x hx => hnone x ((hlp.satisfied_iff hp).2 hx)
        · exact .inr ⟨⟨options, a, c, s₄.world, ha, hstatus, hc, hstopped⟩,
            admits_unbounded hp hlp hfalls⟩
  | unbounded hstatus hfalls =>
    simp only [hstatus]
    refine ((noOptimum_diagnosis (W := fun _ => True) params name true s₄ trivial).imp
      fun r _ h => h.1.imp (fun _ => admits_unbounded hp hlp hfalls) ?_).weaken fun _ _ => trivial
    rintro ⟨⟩

/-- When the simplex method calls a problem unbounded, it has points as good as one likes. When
the method says that there is no point, there is none, or else the second question was cut off
and the problem is unbounded. -/
theorem diagnosis_sound (hcolumns : p.columns ≠ []) (params : Parameter.Simplex Extended)
    (s : Session Extended σ) :
    Runs (simplex host params p) s (fun r _ =>
        Diagnosis r (p.Admits .unbounded)
          (p.Admits .infeasible ∨ p.CutOff host s.world ∧ p.Admits .unbounded)) (fun _ => True) ∧
      Runs (exact host params p) s (fun r _ =>
        Diagnosis r (p.Admits .unbounded)
          (p.Admits .infeasible ∨ p.CutOff host s.world ∧ p.Admits .unbounded)) fun _ => True := by
  have hrefused : ∀ (params : Parameter.Simplex Extended) (name : String) (why : Obstacle Extended),
      Runs (refuse params name p why) s (fun r _ =>
        Diagnosis r (p.Admits .unbounded)
          (p.Admits .infeasible ∨ p.CutOff host s.world ∧ p.Admits .unbounded)) fun _ => True :=
    fun params name why => .onward fun _ _ => .pure (diagnosis_stopped (by simp) (by simp))
  constructor
  · unfold simplex
    cases p.badBounds with
    | some why => exact hrefused _ _ why
    | none => exact solveBasic_diagnosis hhost hp hcolumns _ _ _ s
  · rw [exact_eq]
    dsimp only
    split_ifs
    · exact .onward fun _ _ => .pure (diagnosis_stopped (by simp) (by simp))
    · cases p.badBounds with
      | some why => exact hrefused _ _ why
      | none => exact solveBasic_diagnosis hhost hp hcolumns _ _ _ s

end

/-! ### A second question that is cut off -/

/-- One column that may fall for ever. -/
def plunge : Problem Extended where
  columns := [{ cost := 1 }]

theorem plunge_uncrossed : plunge.Uncrossed where
  room := by
    intro c hc
    rw [List.mem_singleton.1 hc]
    exact ⟨0, rfl, rfl⟩
  sides := by simp [plunge]

/-- A host that takes programs with one free column and no rows. It says of those with a cost
that there is no optimum, and stops before it has solved those without. -/
def Host.hasty : Host Extended Unit where
  solve r w :=
    let answer : Except SolverError (Answer Extended) :=
      match r.program with
      | ⟨[.rat c], _, none, none, none, none, [(none, none)], _, _, _⟩ =>
        .ok (LinearProgram.noAnswer (if c = 0 then 1 else 2))
      | _ => .error .exhausted
    (answer, w)
  now _ := 0

theorem Host.hasty_isTruthful : Host.hasty.IsTruthful := by
  intro r w a ha
  obtain ⟨lp, method, options⟩ := r
  simp only [hasty] at ha
  split at ha
  · next c matrix ubRows eqRows sense =>
    cases ha
    refine ⟨⟨by simp [Extended.isRat_rat], by simp, by simp, by simp, by simp⟩, ?_⟩
    by_cases hc : c = 0
    · exact .stopped (.inl (by simp [LinearProgram.noAnswer, hc]))
    · refine .noOptimum (by simp [LinearProgram.noAnswer, hc]) (.inr fun b => ?_)
      refine ⟨fun _ => (b - 1) / c, ⟨by simp, by simp, ?_⟩, ?_⟩
      · intro e he
        simp only [LinearProgram.values, firstValues, List.length_singleton, List.range_one,
          List.map_singleton, List.zip_cons_cons, List.zip_nil_right, List.mem_singleton] at he
        simp [he]
      · have hdot : dot [rat c] [rat ((b - 1) / c)] = rat (c * ((b - 1) / c)) :=
          LinearProgram.dot_single (isRat_rat c) _
        change dot [rat c] [rat ((b - 1) / c)] < rat b
        rw [hdot, mul_div_cancel₀ _ hc, rat_lt_rat]
        exact sub_one_lt b
  · cases ha

theorem plunge_unbounded : plunge.Admits .unbounded := by
  intro b
  refine ⟨fun _ => b - 1, ⟨?_, by simp [plunge]⟩, ?_⟩
  · intro j c hc
    obtain rfl : c = { cost := 1 } := List.mem_singleton.1 (List.mem_of_getElem? hc)
    exact ⟨rfl, rfl⟩
  · have hvalue : plunge.valueOf (fun _ => b - 1) = b - 1 := by
      simp [Problem.valueOf, Problem.columnCount, Problem.costAt, plunge, value, zero_eq, one_eq]
    rw [hvalue]
    simp [Problem.sign, plunge]

/-- The method stores that the falling column has no feasible point. -/
theorem simplex_plunge : ∃ r s, simplex Host.hasty {} plunge ⟨(), #[]⟩ = .ok r s ∧
    r.1.basic.status = .noFeasible := by
  obtain ⟨r, s, hrun, htest⟩ := exists_of_passes (x := simplex Host.hasty {} plunge)
    (s := ⟨(), #[]⟩) (fun r => r.1.basic.status = .noFeasible) (by decide +kernel)
  exact ⟨r, s, hrun, of_decide_eq_true htest⟩

theorem diagnosis_sound_plunge : Host.hasty.IsTruthful ∧ plunge.Uncrossed ∧ plunge.columns ≠ [] ∧
    (∃ r s, simplex Host.hasty {} plunge ⟨(), #[]⟩ = .ok r s ∧ r.1.basic.status = .noFeasible) ∧
    Runs (simplex Host.hasty {} plunge) ⟨(), #[]⟩ (fun r _ =>
      Diagnosis r (plunge.Admits .unbounded) (plunge.Admits .infeasible ∨
        plunge.CutOff Host.hasty () ∧ plunge.Admits .unbounded)) fun _ => True :=
  ⟨Host.hasty_isTruthful, plunge_uncrossed, by simp [plunge], simplex_plunge,
    (diagnosis_sound Host.hasty_isTruthful plunge_uncrossed (by simp [plunge]) {} ⟨(), #[]⟩).1⟩

/-- The solver may be truthful, and yet a problem with points be said to have none. -/
theorem not_forall_diagnosis : ¬∀ (host : Host Extended Unit) (p : Problem Extended),
    host.IsTruthful → p.Uncrossed → p.columns ≠ [] →
    ∀ (params : Parameter.Simplex Extended) (s : Session Extended Unit),
      Runs (simplex host params p) s (fun r _ =>
        Diagnosis r (p.Admits .unbounded) (p.Admits .infeasible)) fun _ => True := by
  intro h
  obtain ⟨r, s, hrun, hstatus⟩ := simplex_plunge
  have hdiagnosis := (h Host.hasty plunge Host.hasty_isTruthful plunge_uncrossed (by simp [plunge])
    {} ⟨(), #[]⟩).ok hrun
  obtain ⟨x, hx, -⟩ := plunge_unbounded 0
  exact hdiagnosis.infeasible (.inr (.inl hstatus)) x hx

end MixedInteger
