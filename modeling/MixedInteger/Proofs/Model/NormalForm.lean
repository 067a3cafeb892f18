import MixedInteger.Proofs.Model.Instruction
import MixedInteger.Proofs.Model.LazyRows

/-! The canonical form of an affine function is a normal form: functions with the same value at
every assignment have the same one. It is also what a model keeps of a function, in a row or in
the costs. Rows are read by column, and the columns of live variables stand in the order of their
identities, so what is read back is listed as in the canonical form. -/

namespace MixedInteger

open Extended

/-! ### Lists of terms -/

section
variable {α : Type}

/-- Terms in the order of their variables are told by what they are. -/
theorem terms_ext {ts us : List (Term α)}
    (hts : ts.Pairwise fun t u => t.var.value < u.var.value)
    (hus : us.Pairwise fun t u => t.var.value < u.var.value) (h : ∀ t, t ∈ ts ↔ t ∈ us) :
    ts = us := by
  have hne : ∀ {t u : Term α}, t.var.value < u.var.value → t ≠ u := by
    rintro t _ hlt rfl
    exact absurd hlt (lt_irrefl _)
  have hperm : ts.Perm us := (List.perm_ext_iff_of_nodup (hts.imp hne) (hus.imp hne)).2 h
  exact hperm.eq_of_pairwise (fun t u _ _ htu hut => absurd htu (lt_asymm hut)) hts hus

variable [Scalar α]

/-- Functions whose terms are the same have the same terms in their canonical forms. -/
theorem AffineFunction.canonical_terms_congr [OrderedScalar α] {f g : AffineFunction α}
    (h : f.term? = g.term?) : f.canonical.terms = g.canonical.terms := by
  refine terms_ext f.pairwise_canonical g.pairwise_canonical fun t => ?_
  have hf := termIn_eq_some (v := t.var) (x := t.coefficient) f.nodup_vars_canonical
  have hg := termIn_eq_some (v := t.var) (x := t.coefficient) g.nodup_vars_canonical
  rw [termIn_canonical] at hf hg
  rw [← hf, ← hg, h]

end

/-! ### Values -/

namespace Extended

theorem IsRat.add {x y : Extended} (hx : x.IsRat) (hy : y.IsRat) :
    (x + y).IsRat ∧ (x + y).value = x.value + y.value := by
  rw [hx.eq, hy.eq, rat_add_rat]
  exact ⟨rfl, rfl⟩

theorem IsRat.inj {x y : Extended} (hx : x.IsRat) (hy : y.IsRat) (h : x.value = y.value) :
    x = y := by
  rw [hx.eq, hy.eq, h]

theorem value_of_beq_zero {x : Extended} (h : (x == 0) = true) : x.value = 0 := by
  have hvalue := value_nonzero? x
  rw [nonzero?, if_pos h] at hvalue
  exact hvalue.symm

end Extended

/-- The value of a term at an assignment. -/
def Term.valueAt (t : Term Extended) (z : Assignment) : ℚ := t.coefficient.value * z t.var

/-- Merging a term into others adds its value to theirs. -/
theorem sum_addTerm {t : Term Extended} (ht : t.coefficient.IsRat) (z : Assignment)
    {ts : List (Term Extended)} (hts : ∀ u ∈ ts, u.coefficient.IsRat) :
    (∀ u ∈ addTerm t ts, u.coefficient.IsRat) ∧
      ((addTerm t ts).map (·.valueAt z)).sum = (ts.map (·.valueAt z)).sum + t.valueAt z := by
  induction ts with
  | nil =>
    obtain ⟨hrat, hvalue⟩ := (isRat_rat 0).add ht
    have hzero : (0 + t.coefficient).value = t.coefficient.value := hvalue.trans (zero_add _)
    refine ⟨List.forall_mem_singleton.2 hrat, ?_⟩
    simp [addTerm, Term.valueAt, hzero]
  | cons u us ih =>
    have hu := hts u List.mem_cons_self
    have hus : ∀ u ∈ us, u.coefficient.IsRat := fun u hu => hts u (List.mem_cons_of_mem _ hu)
    by_cases hvar : u.var = t.var
    · obtain ⟨hrat, hvalue⟩ := hu.add ht
      rw [addTerm, if_pos hvar]
      refine ⟨List.forall_mem_cons.2 ⟨hrat, hus⟩, ?_⟩
      simp only [List.map_cons, List.sum_cons, Term.valueAt, hvalue, hvar]
      ring
    · obtain ⟨hrest, hsum⟩ := ih hus
      rw [addTerm, if_neg hvar]
      refine ⟨List.forall_mem_cons.2 ⟨hu, hrest⟩, ?_⟩
      rw [List.map_cons, List.sum_cons, hsum, List.map_cons, List.sum_cons, add_assoc]

theorem sum_foldl_addTerm (z : Assignment) {ts : List (Term Extended)}
    (hts : ∀ t ∈ ts, t.coefficient.IsRat) {us : List (Term Extended)}
    (hus : ∀ u ∈ us, u.coefficient.IsRat) :
    ((ts.foldl (fun us t => addTerm t us) us).map (·.valueAt z)).sum =
      (us.map (·.valueAt z)).sum + (ts.map (·.valueAt z)).sum := by
  induction ts generalizing us with
  | nil => simp
  | cons t ts ih =>
    obtain ⟨hrat, hsum⟩ := sum_addTerm (hts t List.mem_cons_self) z hus
    rw [List.foldl_cons, ih (fun u hu => hts u (List.mem_cons_of_mem t hu)) hrat, hsum,
      List.map_cons, List.sum_cons, add_assoc]

/-- Terms whose coefficients are zero have no value. -/
theorem sum_filter_nonzero (z : Assignment) (ts : List (Term Extended)) :
    ((ts.filter fun t => !(t.coefficient == 0)).map (·.valueAt z)).sum =
      (ts.map (·.valueAt z)).sum := by
  induction ts with
  | nil => rfl
  | cons t ts ih =>
    rw [List.filter_cons, List.map_cons, List.sum_cons, ← ih]
    split_ifs with ht
    · rw [List.map_cons, List.sum_cons]
    · have hzero : (t.coefficient == 0) = true := by simpa using ht
      rw [Term.valueAt, value_of_beq_zero hzero, zero_mul, zero_add]

/-! ### The normal form -/

namespace AffineFunction

/-- All numbers of the function are rational. -/
structure Rational (f : AffineFunction Extended) : Prop where
  constant : f.constant.IsRat
  coefficient : ∀ t ∈ f.terms, t.coefficient.IsRat

/-- The canonical form stands for the function, and for all that have its values. -/
structure Normalised (f : AffineFunction Extended) : Prop where
  increasing : f.canonical.terms.Pairwise fun t u => t.var.value < u.var.value
  nonzero : ∀ t ∈ f.canonical.terms, (t.coefficient == 0) = false
  value : ∀ z, f.canonical.valueAt z = f.valueAt z
  stable : f.canonical.canonical = f.canonical
  unique : ∀ g : AffineFunction Extended, g.Rational →
    (f.canonical = g.canonical ↔ ∀ z, f.valueAt z = g.valueAt z)

variable {f g : AffineFunction Extended}

theorem Rational.canonical (hf : f.Rational) : f.canonical.Rational where
  constant := hf.constant
  coefficient t ht := by
    rw [(of_mem_canonical ht).2]
    exact isRat_coefficient hf.coefficient _

theorem Rational.valueAt_canonical (hf : f.Rational) (z : Assignment) :
    f.canonical.valueAt z = f.valueAt z := by
  have hperm := (f.canonical_terms_perm.map (·.valueAt z)).sum_eq
  have hmerged := sum_foldl_addTerm z hf.coefficient
    (List.forall_mem_nil fun u : Term Extended => u.coefficient.IsRat)
  rw [sum_filter_nonzero, hmerged, List.map_nil, List.sum_nil, zero_add] at hperm
  exact congrArg (f.constant.value + ·) hperm

/-- The value where all variables are zero. -/
theorem valueAt_zero (f : AffineFunction Extended) : f.valueAt 0 = f.constant.value := by
  simp [valueAt]

/-- The value where one variable is one, and all others are zero. -/
theorem Rational.valueAt_single (hf : f.Rational) (v : VariableIndex) :
    f.valueAt (Pi.single v 1) = f.constant.value + (f.coefficient v).value := by
  have hterms : ∀ ts : List (Term Extended),
      (ts.map fun t => t.coefficient.value * (Pi.single v 1 : Assignment) t.var).sum =
        ((ts.filter fun t => t.var = v).map fun t => t.coefficient.value).sum := by
    intro ts
    induction ts with
    | nil => rfl
    | cons t ts ih =>
      rw [List.map_cons, List.sum_cons, ih, List.filter_cons, Pi.single_apply]
      by_cases hv : t.var = v <;> simp [hv]
  have hcoefficient : (f.coefficient v).value =
      ((f.terms.filter fun t => t.var = v).map fun t => t.coefficient.value).sum := by
    rw [AffineFunction.coefficient, sum_eq, List.map_map]
    · rfl
    · intro x hx
      obtain ⟨t, ht, rfl⟩ := List.mem_map.1 hx
      exact hf.coefficient t (List.mem_filter.1 ht).1
  rw [valueAt, hterms, hcoefficient]

theorem Rational.canonical_eq_iff (hf : f.Rational) (hg : g.Rational) :
    f.canonical = g.canonical ↔ ∀ z, f.valueAt z = g.valueAt z := by
  constructor
  · intro h z
    rw [← hf.valueAt_canonical, h, hg.valueAt_canonical]
  · intro h
    have hconstant : f.constant = g.constant := by
      refine hf.constant.inj hg.constant ?_
      rw [← f.valueAt_zero, h, g.valueAt_zero]
    have hcoefficient : f.coefficient = g.coefficient := by
      funext v
      have hv := h (Pi.single v 1)
      rw [hf.valueAt_single, hg.valueAt_single, hconstant, add_right_inj] at hv
      exact (isRat_coefficient hf.coefficient v).inj (isRat_coefficient hg.coefficient v) hv
    have hterms : f.canonical.terms = g.canonical.terms :=
      canonical_terms_congr (funext fun v => congrArg nonzero? (congrFun hcoefficient v))
    calc f.canonical = ⟨f.canonical.terms, f.constant⟩ := rfl
      _ = ⟨g.canonical.terms, g.constant⟩ := by rw [hterms, hconstant]

theorem Rational.normalised (hf : f.Rational) : f.Normalised where
  increasing := f.pairwise_canonical
  nonzero _ ht := nonzero_of_mem_canonical ht
  value := hf.valueAt_canonical
  stable := (hf.canonical.canonical_eq_iff hf).2 hf.valueAt_canonical
  unique _ hg := hf.canonical_eq_iff hg

end AffineFunction

/-! ### Reading back -/

namespace Model

variable {α : Type} [Scalar α]

/-- What is read of a function that was written. The sets are those that a row can lie in, and the
constraints those that have a row. -/
structure ReadsBack (m : Model α) (f : AffineFunction α) : Prop where
  added : (f.constant == 0) = true → ∀ s : ScalarSet α, s.isRow = true →
    ∃ c m', Modelling.addConstraint (.affine f) (.set s) m = .ok c m' ∧
      m'.constraintFunction (.constraint c) = .ok (.affine { f.canonical with constant := 0 })
  replaced : (f.constant == 0) = true → ∀ c : ConstraintIndex, c.function = .scalarAffine →
    m.isValid (.constraint c) = true →
      ∃ m', Modelling.setConstraintFunction (.constraint c) (.affine f) m = .ok () m' ∧
        m'.constraintFunction (.constraint c) = .ok (.affine { f.canonical with constant := 0 })
  objective : ∃ m', Modelling.setObjective (.affine f) m = .ok () m' ∧
    m'.objective = .affine f.canonical

section
variable {m : Model α} (hm : m.WellFormed)
include hm

theorem WellFormed.mem_variableIndices {v : VariableIndex} :
    v ∈ m.variableIndices ↔ (m.vars.get? v.value).isSome = true := by
  rw [hm.variableIndices_eq, List.mem_map, Option.isSome_iff_exists]
  constructor
  · rintro ⟨k, hk, rfl⟩
    obtain ⟨e, he, rfl⟩ := List.mem_map.1 hk
    exact ⟨e.2, hm.vars.get?_of_mem he⟩
  · rintro ⟨info, hinfo⟩
    obtain ⟨k, hk, he⟩ := hm.vars.get?_eq_some_iff_mem.1 hinfo
    exact ⟨k, List.mem_map.2 ⟨_, he, rfl⟩, congrArg VariableIndex.mk hk.symm⟩

theorem WellFormed.pairwise_list (t : Terms α) :
    (m.list t).Pairwise fun a b => a.var.value < b.var.value := by
  have hvars : m.variableIndices.Pairwise fun v w => v.value < w.value := by
    rw [hm.variableIndices_eq]
    exact List.pairwise_map.2 (hm.vars.sorted.imp Int.ofNat_lt.2)
  refine List.Pairwise.filterMap _ (fun v w hvw a ha b hb => ?_) hvars
  obtain ⟨x, -, rfl⟩ := Option.map_eq_some_iff.1 ha
  obtain ⟨y, -, rfl⟩ := Option.map_eq_some_iff.1 hb
  exact hvw

/-- The terms of a function over live variables are listed as in the canonical form. -/
theorem WellFormed.list_term? [OrderedScalar α] {f : AffineFunction α}
    (hlive : ∀ t ∈ f.terms, (m.vars.get? t.var.value).isSome = true) :
    m.list f.term? = f.canonical.terms := by
  refine terms_ext (hm.pairwise_list _) f.pairwise_canonical fun t => ?_
  have hterm := termIn_eq_some (v := t.var) (x := t.coefficient) f.nodup_vars_canonical
  rw [f.termIn_canonical] at hterm
  rw [list, List.mem_filterMap, ← hterm]
  constructor
  · rintro ⟨v, -, ht⟩
    obtain ⟨x, hx, rfl⟩ := Option.map_eq_some_iff.1 ht
    exact hx
  · intro ht
    obtain ⟨u, hu, hvar⟩ := List.mem_map.1 (AffineFunction.mem_vars_canonical (hterm.1 ht))
    have hsome := hlive u hu
    rw [hvar] at hsome
    exact ⟨t.var, hm.mem_variableIndices.2 hsome, by rw [ht]; rfl⟩

/-- A live affine constraint has a row. -/
theorem WellFormed.rowAt_of_isValid {c : ConstraintIndex} (hc : c.function = .scalarAffine)
    (hvalid : m.isValid (.constraint c) = true) :
    ∃ (i k : Nat) (info : ConstraintInfo α) (r : Row α),
      c = ⟨.scalarAffine, info.set.kind, k⟩ ∧ m.RowAt i k info r := by
  obtain ⟨function, set, value⟩ := c
  obtain rfl : function = .scalarAffine := hc
  rw [isValid, carries] at hvalid
  cases hget : m.affine.get? value with
  | none =>
    simp only [hget] at hvalid
    cases hvalid
  | some info =>
    obtain ⟨i, k, r, rfl, hat⟩ := hm.rowAt hget
    have hkind : info.set.kind = set := by simpa [hget] using hvalid
    exact ⟨i, k, info, r, by rw [hkind], hat⟩

/-- The function of an affine constraint lists the terms of its row. -/
theorem WellFormed.constraintFunction_row {i k : Nat} {info : ConstraintInfo α} {r : Row α}
    (hat : m.RowAt i k info r) {kind : Kind} (hk : info.set.kind = kind) :
    m.constraintFunction (.constraint ⟨.scalarAffine, kind, k⟩) =
      .ok (.affine ⟨m.list (m.termOf r), 0⟩) := by
  have hrow : m.problem.matrixRow info.row = .ok r.entries := by
    rw [Problem.matrixRow, hat.number, Problem.row_of_getElem hat.row]
    rfl
  have hinfo := Modelling.affineInfo_ok (hat.get? hm) hk
  simp [constraintFunction, IndexArg.constraint?, hinfo, hrow, hm.terms_eq hat, bind,
    Except.bind, pure, Except.pure, Except.mapError]

variable [OrderedScalar α] {f : AffineFunction α}
  (hlive : ∀ t ∈ f.terms, (m.vars.get? t.var.value).isSome = true)
include hlive

/-- A function that is written into a row is read back in canonical form. -/
theorem WellFormed.constraintFunction_coefsOf {m' : Model α} (hm' : m'.WellFormed)
    (hvars : m'.vars = m.vars) {i k : Nat} {info : ConstraintInfo α} {r : Row α}
    (hat : m'.RowAt i k info r) (hr : r.coefs = m.coefsOf f) {kind : Kind}
    (hk : info.set.kind = kind) :
    m'.constraintFunction (.constraint ⟨.scalarAffine, kind, k⟩) =
      .ok (.affine { f.canonical with constant := 0 }) := by
  have hterm : m'.termOf r = f.term? := by
    rw [← hm.termOf_coefsOf (firstDead_canonical_eq_none hlive) r, ← hr]
    exact congrFun (termOf_congr fun v => by rw [hvars]) r
  have hlist : m'.list f.term? = f.canonical.terms := by
    rw [list, variableIndices, hvars]
    exact hm.list_term? hlive
  rw [hm'.constraintFunction_row hat hk, hterm, hlist]

theorem WellFormed.readsBack : m.ReadsBack f where
  added hf s hs := by
    obtain ⟨b, hb⟩ : ∃ b, s.rowBound? = some b := by
      cases s <;> first | exact ⟨_, rfl⟩ | cases hs
    have hrun := Modelling.addAffineConstraint_run hm hf (firstDead_canonical_eq_none hlive) hb
    have hadd : Modelling.addConstraint (.affine f) (.set s) m =
        Modelling.addAffineConstraint f s m := by
      rw [Modelling.addConstraint, if_pos hs]
    have hfits := hm.fits_coefsOf f {}
    have hwf := hm.withRow (r := ({ coefs := m.coefsOf f } : Row α).within b) hb
      (hfits.within b)
    have hat : (m.withRow s (({ coefs := m.coefsOf f } : Row α).within b)).RowAt
        m.affine.entries.length (m.affine.last + 1) ⟨m.affine.size + 1, s, ""⟩
        (({ coefs := m.coefsOf f } : Row α).within b) := by
      refine ⟨by simp [Model.withRow, Registry.add], ?_, rfl, hb⟩
      simp [Model.withRow, Problem.padSolutions, ← hm.rowCount]
    exact ⟨_, _, hadd.trans hrun, hm.constraintFunction_coefsOf hlive hwf rfl hat rfl rfl⟩
  replaced hf c hc hvalid := by
    obtain ⟨i, k, info, r, rfl, hat⟩ := hm.rowAt_of_isValid hc hvalid
    have hd := firstDead_canonical_eq_none hlive
    have hwf := hm.withRowAt hat (f := fun r => { r with coefs := m.coefsOf f }) rfl
      (hm.fits_coefsOf f r)
    have hat' : (m.withRowAt i fun r => { r with coefs := m.coefsOf f }).RowAt i k info
        { r with coefs := m.coefsOf f } := by
      refine ⟨hat.entry, ?_, hat.number, hat.bounds⟩
      simp [Model.withRowAt, hat.row]
    exact ⟨_, Modelling.setConstraintFunction_run hm hat rfl hf hd,
      hm.constraintFunction_coefsOf hlive hwf rfl hat' rfl rfl⟩
  objective := by
    have hd := firstDead_eq_none hlive
    have hcosts := (hm.withObjective f .scalarAffine).affineObjective_eq
    have hlist : (m.withObjective f .scalarAffine).list f.term? = f.canonical.terms :=
      hm.list_term? hlive
    rw [hm.cost?_withObjective hd, hlist] at hcosts
    exact ⟨_, Modelling.setAffineObjective_run hm hd .scalarAffine, congrArg Function.affine hcosts⟩

end

end Model

/-- Canonical forms. In exact arithmetic the canonical form of a function lists its variables in
increasing order with coefficients other than zero. It has the values of the function, it is its own
canonical form, and it tells functions with different values apart. Whatever became of a model,
a function over its live variables is read back in canonical form from a constraint, if it has no
constant, and from the objective. -/
theorem canonical_normalises :
    (∀ f : AffineFunction Extended, f.Rational → f.Normalised) ∧
      ∀ {α : Type} [Scalar α] [OrderedScalar α] {m : Model α}, m.Attained →
        ∀ f : AffineFunction α, (∀ t ∈ f.terms, m.isValid (.var t.var) = true) →
          m.ReadsBack f := by
  refine ⟨fun f hf => hf.normalised, fun {α} _ _ m hm f hlive => ?_⟩
  refine hm.wellFormed.readsBack fun t ht => ?_
  rw [← hm.wellFormed.vars.contains_eq]
  exact hlive t ht

/-- Two terms that cancel, and another one before them in the order of variables. -/
def cancelling : AffineFunction Extended :=
  ⟨[⟨rat 2, ⟨3⟩⟩, ⟨rat 1, ⟨1⟩⟩, ⟨rat (-2), ⟨3⟩⟩], rat 1⟩

/-- Two terms of one variable. -/
def repeated : AffineFunction Float := ⟨[⟨2, ⟨1⟩⟩, ⟨3, ⟨1⟩⟩], 0⟩

theorem canonical_normalises_cancelling :
    cancelling.Normalised ∧ freeModel.ReadsBack repeated := by
  have hrational : cancelling.Rational := ⟨rfl, by simp [cancelling, isRat_rat]⟩
  have hlive : freeModel.isValid (.var ⟨1⟩) = true := by
    rw [Model.isValid, freeModel_attained.wellFormed.vars.contains_eq, Option.isSome_iff_exists]
    exact ⟨_, freeModel_variable.get? freeModel_attained.wellFormed⟩
  refine ⟨canonical_normalises.1 _ hrational,
    canonical_normalises.2 freeModel_attained _ fun t ht => ?_⟩
  have hvar : t.var = ⟨1⟩ := by
    simp only [repeated, List.mem_cons, List.not_mem_nil, or_false] at ht
    obtain rfl | rfl := ht <;> rfl
  rw [hvar, hlive]

end MixedInteger
