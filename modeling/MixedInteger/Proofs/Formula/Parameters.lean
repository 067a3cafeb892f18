import Mathlib.Data.List.Forall2
import MixedInteger.Job.Solve
import MixedInteger.Proofs.Formula.Evaluation

/-! Parameters that are formulas. Each is replaced by its value over the numbers among the
parameters, in whatever order these stand, and everything else is left as it is; if one of them has
no value, the first such parameter is named with its text and the cause. Two causes go past this: a
number that is too large for a double, and, after a negative number was raised to a power that is
not whole, an operation that is for real numbers only. -/

namespace MixedInteger

/-- An effect on every item of a list either succeeds on all of them or stops at the first
failure. -/
theorem mapM_cases {ε β γ : Type} (f : β → Except ε γ) (xs : List β) :
    (∃ ys, xs.mapM f = .ok ys ∧ List.Forall₂ (fun x y => f x = .ok y) xs ys) ∨
      ∃ before x after e, xs = before ++ x :: after ∧ (∀ b ∈ before, ∃ y, f b = .ok y) ∧
        f x = .error e ∧ xs.mapM f = .error e := by
  induction xs with
  | nil => exact .inl ⟨[], rfl, .nil⟩
  | cons x xs ih =>
    rw [List.mapM_cons]
    cases hx : f x with
    | error e => exact .inr ⟨[], x, xs, e, rfl, by simp, hx, by simp⟩
    | ok y =>
      rcases ih with ⟨ys, run, all⟩ | ⟨before, z, after, e, rfl, passed, failed, run⟩
      · exact .inl ⟨y :: ys, by simp [run], .cons hx all⟩
      · refine .inr ⟨x :: before, z, after, e, rfl, ?_, failed, by simp [run]⟩
        simpa using ⟨⟨y, hx⟩, passed⟩

namespace Options

/-! ### Formulas among values -/

/-- The formula that a value is, if it is one: a text with one of the marks in it, without the
blanks around it. -/
def formulaOf? : Value Float → Option String
  | .text s => if s.toList.any formulaMarks.contains then some (Text.stripText s) else none
  | _ => none

theorem any_strip {p : Char → Bool} (h : ∀ c, p c = true → Text.isBlank c = false) (cs : List Char) :
    (Text.strip cs).any p = cs.any p := by
  have any_dropWhile (ds : List Char) : (ds.dropWhile Text.isBlank).any p = ds.any p := by
    induction ds with
    | nil => rfl
    | cons d ds ih =>
      rw [List.dropWhile_cons]
      split
      · have : p d ≠ true := fun hp => by simp_all
        simp [ih, this]
      · rfl
  simp [Text.strip, any_dropWhile]

/-- No mark is a blank, so blanks at either end make no formula. -/
theorem any_marks (s : String) : (Text.stripText s).toList.any formulaMarks.contains =
    s.toList.any formulaMarks.contains := by
  have marks : (formulaMarks.all fun c => !Text.isBlank c) = true := by decide +kernel
  simp only [Text.stripText, String.toList_ofList]
  refine any_strip (fun c hc => ?_) _
  simpa using List.all_eq_true.mp marks c (List.contains_iff_mem.mp hc)

/-- How the failure of a formula is told. -/
def told (key text : String) (why : FormulaError) : Fault Float :=
  if isReported why then .options (.parameter key text why) else .formula why

theorem resolve_of_none {names : Names} {key v : Value Float} (h : formulaOf? v = none) :
    resolve names key v = .ok v := by
  cases v with
  | text s =>
    have : s.toList.any formulaMarks.contains ≠ true := fun hs => by simp [formulaOf?, hs] at h
    simp [resolve, any_marks, this]
  | _ => rfl

theorem resolve_of_some {names : Names} {key v : Value Float} {s : String}
    (h : formulaOf? v = some s) : resolve names key v = match Formula.compute names s with
      | .ok q => .ok q.toValue
      | .error e => .error (told key.shown v.asText e) := by
  cases v <;> try cases h
  case text t =>
    simp only [formulaOf?] at h
    split at h
    · cases h
      rename_i marked
      simp only [resolve, any_marks, marked, if_true, told, Value.asText]
      cases Formula.compute names (Text.stripText t) <;> simp
      split <;> rfl
    · cases h

/-! ### All parameters -/

/-- The parameters that are numbers, in any order. -/
def NumbersOf (params names : Names) : Prop :=
  names.Perm (params.filter fun e => (Quantity.ofValue? e.2).isSome)

theorem distinctKeys_perm {names others : Names} (h : names.Perm others) :
    DistinctKeys names ↔ DistinctKeys others :=
  h.pairwise_iff fun hab s hb ha => hab s ha hb

theorem NumbersOf.evaluate_iff {params names : Names} (hd : DistinctKeys params)
    (hn : NumbersOf params names) {f : Formula} {q : Quantity} :
    f.evaluate names = .ok q ↔ f.evaluate params = .ok q := by
  have distinct : DistinctKeys names := (distinctKeys_perm hn).mpr (hd.filter _)
  rw [Formula.evaluate_iff distinct, Formula.evaluate_iff hd]
  constructor
  · exact .mono fun e he _ => List.mem_of_mem_filter (hn.mem_iff.mp he)
  · exact .mono fun e he number => hn.mem_iff.mpr (List.mem_filter.mpr ⟨he, number⟩)

/-- What becomes of an entry: a formula is replaced by its value, which is an integer or a double
unless it leaves the real numbers. -/
inductive Resolved (params : Names) : Value Float × Value Float → Value Float × Value Float → Prop
  | kept {key v : Value Float} (h : formulaOf? v = none) : Resolved params (key, v) (key, v)
  | computed {key v : Value Float} {s : String} {f : Formula} {q : Quantity}
      (h : formulaOf? v = some s) (reads : Formula.read s = .ok f)
      (value : ∀ names, NumbersOf params names → f.evaluate names = .ok q)
      (real : q.IsReal ∨ f.LeavesReals params) : Resolved params (key, v) (key, q.toValue)

/-- A formula without a value, and how it is told: by the name of its parameter, unless a number was
too large for a double or the formula left the real numbers and then asked for them. -/
inductive Refused (params : Names) (key : Value Float) (text : String) : Fault Float → Prop
  | named {s : String} {why : FormulaError} (h : formulaOf? (.text text) = some s)
      (cause : Formula.compute params s = .error why)
      (none : ∀ names, NumbersOf params names → ∀ q, Formula.compute names s ≠ .ok q) :
      Refused params key text (.options (.parameter key.shown text why))
  | overflow {s : String} {f : Formula} (h : formulaOf? (.text text) = some s)
      (reads : Formula.read s = .ok f)
      (large : f.evaluate params = .error (.arithmetic .overflow)) :
      Refused params key text (.formula (.arithmetic .overflow))
  | notReal {s : String} {f : Formula} (h : formulaOf? (.text text) = some s)
      (reads : Formula.read s = .ok f) (leaves : f.LeavesReals params) :
      Refused params key text (.formula (.arithmetic .notReal))

theorem resolve_ok {params : Names} (hd : DistinctKeys params) {key v w : Value Float}
    (h : resolve params key v = .ok w) : Resolved params (key, v) (key, w) := by
  cases hf : formulaOf? v with
  | none =>
    rw [resolve_of_none hf] at h
    cases h
    exact .kept hf
  | some s =>
    rw [resolve_of_some hf, Formula.compute] at h
    cases hr : Formula.read s with
    | error e => simp [hr] at h
    | ok f =>
      simp only [hr] at h
      cases he : f.evaluate params with
      | error e => simp [he] at h
      | ok q =>
        obtain rfl : q.toValue = w := by simpa [he] using h
        exact .computed hf hr (fun names hn => (hn.evaluate_iff hd).mpr he)
          ((Formula.evaluate_iff hd).mp he).isReal

theorem compute_ne {params : Names} (hd : DistinctKeys params) {s : String} {e : FormulaError}
    (h : Formula.compute params s = .error e) {names : Names} (hn : NumbersOf params names)
    (q : Quantity) : Formula.compute names s ≠ .ok q := by
  unfold Formula.compute at h ⊢
  cases hr : Formula.read s with
  | error why => simp
  | ok f =>
    simp only [hr] at h ⊢
    rw [Ne, hn.evaluate_iff hd, h]
    exact nofun

theorem resolve_error {params : Names} (hd : DistinctKeys params) {key v : Value Float}
    {fault : Fault Float} (h : resolve params key v = .error fault) :
    ∃ t, v = .text t ∧ Refused params key t fault := by
  cases hf : formulaOf? v with
  | none => simp [resolve_of_none hf] at h
  | some s =>
    cases v <;> try cases hf
    case text t =>
      refine ⟨t, rfl, ?_⟩
      rw [resolve_of_some hf] at h
      cases hc : Formula.compute params s with
      | ok q => simp [hc] at h
      | error why =>
        obtain rfl : told key.shown t why = fault := by simpa [hc, Value.asText] using h
        have evaluated {e : ArithmeticError} (he : why = .arithmetic e) :
            ∃ f, Formula.read s = .ok f ∧ f.evaluate params = .error (.arithmetic e) := by
          subst he
          unfold Formula.compute at hc
          cases hr : Formula.read s with
          | error _ => simp [hr] at hc
          | ok f => exact ⟨f, rfl, by simpa [hr] using hc⟩
        by_cases overflow : why = .arithmetic .overflow
        · obtain ⟨f, hr, he⟩ := evaluated overflow
          subst overflow
          exact .overflow hf hr he
        by_cases notReal : why = .arithmetic .notReal
        · obtain ⟨f, hr, he⟩ := evaluated notReal
          subst notReal
          exact .notReal hf hr (Formula.leavesReals_of_notReal hd he)
        have reported : isReported why = true := by
          unfold isReported
          split <;> simp_all
        rw [told, if_pos reported]
        exact .named hf hc fun names hn => compute_ne hd hc hn

/-- Resolving parameters either replaces every formula by its value and keeps everything else, in
the same order, or fails at the first formula that has no value. -/
theorem resolveAll_cases (params : Names) (hd : DistinctKeys params) :
    (∃ out, resolveAll params = .ok out ∧ List.Forall₂ (Resolved params) params out) ∨
      ∃ before key t after fault, params = before ++ (key, .text t) :: after ∧
        (∀ e ∈ before, ∃ r, Resolved params e r) ∧ Refused params key t fault ∧
        resolveAll params = .error fault := by
  have entry (e r : Value Float × Value Float)
      (h : (do return (e.1, ← resolve params e.1 e.2)) = Except.ok (ε := Fault Float) r) :
      Resolved params e r := by
    obtain ⟨w, hw, h⟩ := except_bind_eq_ok.mp h
    cases h
    exact resolve_ok hd hw
  rcases mapM_cases (fun e => do return (e.1, ← resolve params e.1 e.2)) params with
    ⟨out, run, all⟩ | ⟨before, ⟨key, v⟩, after, fault, split, passed, failed, run⟩
  · exact .inl ⟨out, run, all.imp entry⟩
  · have failure : resolve params key v = .error fault := by
      cases hr : resolve params key v with
      | ok w => simp [hr] at failed
      | error e => simpa [hr] using failed
    obtain ⟨t, rfl, refused⟩ := resolve_error hd failure
    exact .inr ⟨before, key, t, after, fault, split,
      fun e he => (passed e he).imp fun r hr => entry e r hr, refused, run⟩

/-- A limit in minutes beside its unit. -/
def limitParams : Names :=
  [(.text "tm_lim", .text " 60 * unit "), (.text "unit", .int 1000), (.text "name", .text "plain")]

theorem resolveAll_cases_limit : DistinctKeys limitParams ∧
    ∃ out, resolveAll limitParams = .ok out ∧
      List.Forall₂ (Resolved limitParams) limitParams out := by
  have distinct : DistinctKeys limitParams := by simp [DistinctKeys, limitParams]
  have runs : (resolveAll limitParams).isOk = true := by decide +kernel
  refine ⟨distinct, (resolveAll_cases limitParams distinct).resolve_right ?_⟩
  rintro ⟨_, _, _, _, _, -, -, -, failed⟩
  rw [failed] at runs
  cases runs

/-! ### Numbers that are too large -/

/-- Formulas become integers or doubles, or one of them is refused by the name of its parameter. -/
def AlwaysNamed (params : Names) : Prop :=
  (∃ out, resolveAll params = .ok out ∧ List.Forall₂ (fun e r => Resolved params e r ∧
      ((formulaOf? e.2).isSome → (Quantity.ofValue? r.2).isSome)) params out) ∨
    ∃ key t why, (key, .text t) ∈ params ∧
      resolveAll params = .error (.options (.parameter key.shown t why))

def hugeParams : Names := [(.text "x", .text "10**400*1.0")]

/-- Did a number outgrow the doubles? -/
def overflowed : Except (Fault Float) Names → Bool
  | .error (.formula (.arithmetic .overflow)) => true
  | _ => false

/-- An integer too large for a double ends everything without a word about the parameter. -/
theorem not_forall_named : ¬ ∀ params, DistinctKeys params → AlwaysNamed params := by
  intro h
  have overflows : overflowed (resolveAll hugeParams) = true := by decide +kernel
  rcases h hugeParams (by simp [DistinctKeys, hugeParams]) with
    ⟨out, run, -⟩ | ⟨key, t, why, -, run⟩
  all_goals simp [run, overflowed] at overflows

end Options

end MixedInteger
