import MixedInteger.Model.Basic
import MixedInteger.Proofs.Number.Extended
import MixedInteger.Proofs.Number.Order
import MixedInteger.Proofs.Problem.Row

/-! The coefficients of an affine function. The coefficient of a variable is the sum of
its coefficients in the terms, from the left, and a coefficient that equals zero is
no term. The canonical form lists exactly the remaining ones, by identity. -/

namespace MixedInteger

variable {α : Type}

/-- The coefficient that a list of terms gives to a variable. -/
def termIn (ts : List (Term α)) (v : VariableIndex) : Option α :=
  (ts.map fun t => (t.var, t.coefficient)).lookup v

@[simp] theorem termIn_nil (v : VariableIndex) : termIn ([] : List (Term α)) v = none := rfl

theorem termIn_cons (t : Term α) (ts : List (Term α)) (v : VariableIndex) :
    termIn (t :: ts) v = if t.var = v then some t.coefficient else termIn ts v := by
  simp only [termIn, List.map_cons, lookup_cons_ite, eq_comm]

theorem termIn_eq_some {ts : List (Term α)} (hn : (ts.map (·.var)).Nodup) {v : VariableIndex}
    {x : α} : termIn ts v = some x ↔ ⟨x, v⟩ ∈ ts := by
  have hn' : ((ts.map fun t => (t.var, t.coefficient)).map (·.1)).Nodup := by
    rw [List.map_map]
    exact hn
  rw [termIn, lookup_eq_some_iff_mem hn', List.mem_map]
  constructor
  · rintro ⟨t, ht, heq⟩
    cases heq
    exact ht
  · intro h
    exact ⟨_, h, rfl⟩

variable [Scalar α]

/-- A coefficient, unless it is zero. -/
def nonzero? (x : α) : Option α := if x == 0 then none else some x

theorem nonzero?_eq_some {x y : α} : nonzero? x = some y ↔ x = y ∧ (y == 0) = false := by
  rw [nonzero?]
  split_ifs with h
  · refine iff_of_false (by simp) fun ⟨heq, hy⟩ => ?_
    rw [heq, hy] at h
    exact absurd h (by simp)
  · rw [Option.some.injEq]
    exact ⟨fun heq => ⟨heq, by simpa [heq] using h⟩, fun heq => heq.1⟩

namespace AffineFunction

def coefficient (f : AffineFunction α) (v : VariableIndex) : α :=
  Scalar.sum ((f.terms.filter fun t => t.var = v).map (·.coefficient))

/-- The term of a variable, if its coefficient is not zero. -/
def term? (f : AffineFunction α) (v : VariableIndex) : Option α := nonzero? (f.coefficient v)

end AffineFunction

/-! ### Merging terms -/

theorem termIn_addTerm (t : Term α) : ∀ (ts : List (Term α)) (v : VariableIndex),
    termIn (addTerm t ts) v =
      if t.var = v then some ((termIn ts v).getD 0 + t.coefficient) else termIn ts v
  | [], v => by simp [addTerm, termIn_cons]
  | u :: us, v => by
    have ih := termIn_addTerm t us v
    by_cases hu : u.var = t.var
    · simp only [addTerm, if_pos hu, termIn_cons]
      by_cases hv : t.var = v <;> simp [hu, hv]
    · simp only [addTerm, if_neg hu, termIn_cons, ih]
      by_cases hv : u.var = v
      · rw [if_pos hv, if_pos hv, if_neg fun h => hu (hv.trans h.symm)]
      · rw [if_neg hv, if_neg hv]

theorem mem_vars_addTerm (t : Term α) : ∀ (ts : List (Term α)) (v : VariableIndex),
    v ∈ (addTerm t ts).map (·.var) ↔ v ∈ ts.map (·.var) ∨ v = t.var
  | [], v => by simp [addTerm]
  | u :: us, v => by
    have ih := mem_vars_addTerm t us v
    by_cases hu : u.var = t.var
    · simp only [addTerm, if_pos hu, List.map_cons, List.mem_cons]
      rw [hu]
      tauto
    · simp only [addTerm, if_neg hu, List.map_cons, List.mem_cons, ih]
      tauto

theorem nodup_vars_addTerm (t : Term α) : ∀ ts : List (Term α),
    (ts.map (·.var)).Nodup → ((addTerm t ts).map (·.var)).Nodup
  | [], _ => by simp [addTerm]
  | u :: us, hn => by
    rw [List.map_cons, List.nodup_cons] at hn
    by_cases hu : u.var = t.var
    · simp only [addTerm, if_pos hu, List.map_cons, List.nodup_cons]
      exact hn
    · simp only [addTerm, if_neg hu, List.map_cons, List.nodup_cons, mem_vars_addTerm, not_or]
      exact ⟨⟨hn.1, hu⟩, nodup_vars_addTerm t us hn.2⟩

/-- Terms merged into others: those of a variable are added up from the left. -/
theorem termIn_foldl_addTerm : ∀ (ts us : List (Term α)) (v : VariableIndex),
    termIn (ts.foldl (fun us t => addTerm t us) us) v =
      if v ∈ ts.map (·.var) then
        some (((ts.filter fun t => t.var = v).map (·.coefficient)).foldl (· + ·)
          ((termIn us v).getD 0))
      else termIn us v
  | [], us, v => by simp
  | t :: ts, us, v => by
    rw [List.foldl_cons, termIn_foldl_addTerm ts, termIn_addTerm]
    by_cases hv : t.var = v
    · by_cases hmem : v ∈ ts.map (·.var)
      · simp [hv, hmem]
      · have hfilter : ts.filter (fun t => t.var = v) = [] := by
          rw [List.filter_eq_nil_iff]
          intro u hu heq
          exact hmem (List.mem_map.2 ⟨u, hu, by simpa using heq⟩)
        simp [hv, hmem, hfilter]
    · have hv' : v ≠ t.var := fun h => hv h.symm
      simp [hv, hv']

theorem nodup_vars_foldl_addTerm : ∀ ts us : List (Term α), (us.map (·.var)).Nodup →
    ((ts.foldl (fun us t => addTerm t us) us).map (·.var)).Nodup
  | [], _, hn => hn
  | t :: ts, us, hn => nodup_vars_foldl_addTerm ts _ (nodup_vars_addTerm t us hn)

/-! ### The canonical form -/

namespace AffineFunction

/-- The terms of the canonical form before zeros are dropped. -/
theorem canonical_terms_perm (f : AffineFunction α) : f.canonical.terms.Perm
    ((f.terms.foldl (fun ts t => addTerm t ts) []).filter fun t => !(t.coefficient == 0)) :=
  (List.mergeSort_perm ..).filter _

theorem nodup_vars_canonical (f : AffineFunction α) : (f.canonical.terms.map (·.var)).Nodup := by
  have hn := nodup_vars_foldl_addTerm f.terms [] (by simp)
  exact (f.canonical_terms_perm.map _).nodup_iff.2 (hn.sublist (List.filter_sublist.map _))

theorem pairwise_canonical (f : AffineFunction α) :
    f.canonical.terms.Pairwise fun a b => a.var.value < b.var.value := by
  have hle : f.canonical.terms.Pairwise fun a b => a.var.value ≤ b.var.value := by
    let before (a b : Term α) : Bool := decide (a.var.value ≤ b.var.value)
    have htrans : ∀ a b c : Term α, before a b → before b c → before a c := by
      simp only [before, decide_eq_true_eq]
      omega
    have htotal : ∀ a b : Term α, before a b || before b a := by
      simp only [before, Bool.or_eq_true, decide_eq_true_eq]
      omega
    refine List.Pairwise.filter _ ?_
    simpa [before] using List.pairwise_mergeSort htrans htotal
      (f.terms.foldl (fun ts t => addTerm t ts) [])
  refine hle.imp₂ (fun a b hab hne => ?_) (List.pairwise_map.1 f.nodup_vars_canonical)
  exact lt_of_le_of_ne hab fun heq => hne (congrArg VariableIndex.mk heq)

theorem nonzero_of_mem_canonical {f : AffineFunction α} {t : Term α} (h : t ∈ f.canonical.terms) :
    (t.coefficient == 0) = false := by
  simpa using (List.mem_filter.1 h).2

/-- A canonical form names no variable that the function does not name. -/
theorem mem_vars_canonical {f : AffineFunction α} {t : Term α}
    (ht : t ∈ f.canonical.terms) : t.var ∈ f.terms.map (·.var) := by
  have hn := nodup_vars_foldl_addTerm f.terms [] (by simp)
  have hmerged := (List.mem_filter.1 (f.canonical_terms_perm.mem_iff.1 ht)).1
  by_contra hnot
  have hterm := (termIn_eq_some hn).2 hmerged
  rw [termIn_foldl_addTerm, if_neg hnot] at hterm
  cases hterm

theorem canonical_single [LawfulScalar α] {x : α} (hx : (x == 0) = false) (v : VariableIndex)
    (k : α) : (⟨[⟨x, v⟩], k⟩ : AffineFunction α).canonical.terms = [⟨x, v⟩] := by
  refine List.perm_singleton.1 ((canonical_terms_perm _).trans (.of_eq ?_))
  simp [addTerm, LawfulScalar.zero_add hx, hx]

variable [OrderedScalar α]

/-- The canonical form keeps all coefficients. -/
theorem termIn_canonical (f : AffineFunction α) (v : VariableIndex) :
    termIn f.canonical.terms v = f.term? v := by
  have hmerged := termIn_foldl_addTerm f.terms [] v
  have hn := nodup_vars_foldl_addTerm f.terms [] (by simp)
  ext x
  rw [termIn_eq_some f.nodup_vars_canonical, f.canonical_terms_perm.mem_iff, List.mem_filter,
    ← termIn_eq_some hn, hmerged]
  by_cases hv : v ∈ f.terms.map (·.var)
  · simp only [if_pos hv, termIn_nil, Option.getD_none,
      Option.some.injEq, term?, nonzero?_eq_some, coefficient, Scalar.sum, Bool.not_eq_eq_eq_not,
      Bool.not_true]
  · have hfilter : f.terms.filter (fun t => t.var = v) = [] := by
      rw [List.filter_eq_nil_iff]
      intro u hu heq
      exact hv (List.mem_map.2 ⟨u, hu, by simpa using heq⟩)
    simp [hv, term?, nonzero?, coefficient, hfilter, Scalar.sum]

end AffineFunction

end MixedInteger
