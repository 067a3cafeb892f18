import MixedInteger.Proofs.Model.Memory
import MixedInteger.Proofs.Model.Sound
import Mathlib.Data.List.Perm.Subperm

/-! Identities over time. Entries are kept in the order of their identities, and an identity that
was given out never becomes live again. So when a model has changed by calls, what has lost
nothing that came before it is in its old place, and what was added since comes after everything
that was there. -/

namespace MixedInteger

variable {α : Type} [Scalar α]

/-! ### Places and identities -/

/-- Entries of an increasing list below the one at place `i`. -/
theorem filter_lt_eq_take {xs : List Nat} (h : xs.Pairwise (· < ·)) {i k : Nat}
    (hi : xs[i]? = some k) : xs.filter (· < k) = xs.take i := by
  induction xs generalizing i with
  | nil => cases hi
  | cons x xs ih =>
    obtain ⟨hx, hxs⟩ := List.pairwise_cons.1 h
    cases i with
    | zero =>
      cases hi
      refine List.filter_eq_nil_iff.2 fun y hy => ?_
      obtain rfl | hy := List.mem_cons.1 hy
      · simp
      · simpa using (hx y hy).le
    | succ i =>
      have hlt : x < k := hx k (List.mem_of_getElem? hi)
      rw [List.filter_cons_of_pos (by simpa using hlt), ih hxs hi, List.take_succ_cons]

namespace Registry

variable {V : Type}

/-- The other registry came later: what is live there and was given out before was live here. -/
structure Precedes (r r' : Registry V) : Prop where
  last : r.last ≤ r'.last
  live : ∀ k : Int, k ≤ r.last → (r'.get? k).isSome = true → (r.get? k).isSome = true

theorem Precedes.trans {r r' r'' : Registry V} (h : r.Precedes r') (h' : r'.Precedes r'') :
    r.Precedes r'' where
  last := h.last.trans h'.last
  live k hk hlive := h.live k hk (h'.live k (hk.trans (by exact_mod_cast h.last)) hlive)

theorem Valid.contains_iff {r : Registry V} (hr : r.Valid) {key : Int} :
    r.contains key = true ↔ ∃ n : Nat, key = n ∧ n ∈ r.keys := by
  rw [hr.contains_eq, Option.isSome_iff_exists]
  simp only [hr.get?_eq_some_iff_mem, keys, List.mem_map, Prod.exists, exists_and_right,
    exists_eq_right]
  tauto

theorem Valid.mem_keys {r : Registry V} (hr : r.Valid) {n : Nat} :
    n ∈ r.keys ↔ (r.get? n).isSome = true := by
  rw [← hr.contains_eq, hr.contains_iff]
  exact ⟨fun h => ⟨n, rfl, h⟩, fun ⟨k, hk, h⟩ => Int.ofNat.inj hk ▸ h⟩

theorem Valid.mem_keys_of_contains {r r' : Registry V} (hr : r.Valid) (hr' : r'.Valid) {n : Nat}
    (h : r.contains n = true → r'.contains n = true) (hn : n ∈ r.keys) : n ∈ r'.keys := by
  rw [hr.contains_eq, hr'.contains_eq] at h
  rw [hr.mem_keys] at hn
  exact hr'.mem_keys.2 (h hn)

variable {r r' : Registry V} {i j k : Nat} {v v' : V}

theorem Valid.filter_keys_lt (hr : r.Valid) (h : r.entries[i]? = some (k, v)) :
    r.keys.filter (· < k) = r.keys.take i :=
  filter_lt_eq_take hr.sorted (by rw [keys, List.getElem?_map, h]; rfl)

theorem Valid.length_filter_keys_lt (hr : r.Valid) (h : r.entries[i]? = some (k, v)) :
    (r.keys.filter (· < k)).length = i := by
  have hi : i < r.entries.length := (List.getElem?_eq_some_iff.1 h).1
  rw [hr.filter_keys_lt h, List.length_take, keys, List.length_map, min_eq_left hi.le]

namespace Precedes

variable (h : r.Precedes r') (hr : r.Valid) (hr' : r'.Valid)
include h hr hr'

/-- What has lost nothing that came before it is where it was. -/
theorem place_eq (hi : r.entries[i]? = some (k, v)) (hj : r'.entries[j]? = some (k, v'))
    (hkept : ∀ n < k, n ∈ r.keys → n ∈ r'.keys) : i = j := by
  have hk : k ≤ r.last := hr.le_last k (List.mem_map_of_mem (List.mem_of_getElem? hi))
  have hkeys : r.keys.filter (· < k) = r'.keys.filter (· < k) := by
    refine List.Perm.eq_of_pairwise (fun a b _ _ hab hba => by omega) (hr.sorted.filter _)
      (hr'.sorted.filter _) ((List.perm_ext_iff_of_nodup (hr.nodup.filter _)
        (hr'.nodup.filter _)).2 fun n => ?_)
    simp only [List.mem_filter, decide_eq_true_eq]
    refine and_congr_left fun hn => ⟨hkept n hn, fun hlive => ?_⟩
    exact hr.mem_keys.2 (h.live n (by omega) (hr'.mem_keys.1 hlive))
  rw [← hr.length_filter_keys_lt hi, ← hr'.length_filter_keys_lt hj, hkeys]

/-- What is new comes after all that was there, if nothing of it is lost. -/
theorem length_le_place (hj : r'.entries[j]? = some (k, v')) (hnew : k ∉ r.keys)
    (hkept : ∀ n ∈ r.keys, n ∈ r'.keys) : r.entries.length ≤ j := by
  have hlive : (r'.get? k).isSome = true :=
    hr'.mem_keys.1 (List.mem_map_of_mem (List.mem_of_getElem? hj))
  have hk : r.last < k := by
    by_contra hle
    exact hnew (hr.mem_keys.2 (h.live k (by omega) hlive))
  have hsub : r.keys ⊆ r'.keys.filter (· < k) := fun n hn => List.mem_filter.2
    ⟨hkept n hn, by simpa using (hr.le_last n hn).trans_lt hk⟩
  have hle := (List.subperm_of_subset hr.nodup hsub).length_le
  rwa [hr'.length_filter_keys_lt hj, keys, List.length_map] at hle

end Precedes

end Registry

/-! ### Calls -/

namespace Ledger

/-- The other ledger came later: what is live there and was given out before was live here. -/
structure Precedes (L L' : Ledger α) : Prop where
  lastVariable : L.lastVariable ≤ L'.lastVariable
  vars : ∀ v : VariableIndex, v.value ≤ L.lastVariable → (L'.vars v).isSome = true →
    (L.vars v).isSome = true
  lastAffine : L.lastAffine ≤ L'.lastAffine
  affine : ∀ k : Int, k ≤ L.lastAffine → (L'.affine k).isSome = true → (L.affine k).isSome = true

variable {L L' : Ledger α} {e : Edit α} {a : Reply}

theorem Precedes.refl (L : Ledger α) : L.Precedes L :=
  ⟨le_rfl, fun _ _ h => h, le_rfl, fun _ _ h => h⟩

/-- An edit makes no variable live again. -/
theorem Step.vars_isSome (h : L.Step e a L') {v : VariableIndex} (hv : v.value ≤ L.lastVariable)
    (hlive : (L'.vars v).isSome = true) : (L.vars v).isSome = true := by
  obtain ⟨r, hr⟩ := Option.isSome_iff_exists.1 hlive
  cases h with
  | grown n =>
    have hold : ¬(L.lastVariable < v.value ∧ v.value ≤ L.lastVariable + n) := fun h => by omega
    dsimp only [addVariables] at hlive
    rwa [if_neg hold] at hlive
  | @record _ w r _ hL =>
    by_cases hvw : v = w
    · rw [hvw, hL]
      rfl
    · dsimp only [setVariable] at hlive
      rwa [Function.update_of_ne hvw] at hlive
  | erased w =>
    by_cases hvw : v = w
    · dsimp only [eraseVariable] at hlive
      rw [hvw, Function.update_self] at hlive
      cases hlive
    · dsimp only [eraseVariable] at hlive
      rwa [Function.update_of_ne hvw] at hlive
  | rows n hvars => rwa [← hvars]

theorem affine_of_affineOf {c : ConstraintIndex} {r : AffineRecord α} (h : L.affineOf c = .ok r) :
    (L.affine c.value).isSome = true := by
  unfold affineOf at h
  split at h
  · next hfound =>
    obtain ⟨hfound, -⟩ := Option.filter_eq_some_iff.1 hfound
    split_ifs at hfound
    rw [hfound]
    rfl
  · cases h

/-- A record that is written anew was there before. -/
theorem setAffine_isSome {c : ConstraintIndex} {r r' : AffineRecord α} (h : L.affineOf c = .ok r)
    {k : Int} (hlive : ((L.setAffine c.value r').affine k).isSome = true) :
    (L.affine k).isSome = true := by
  by_cases hk : k = c.value
  · rw [hk]
    exact affine_of_affineOf h
  · dsimp only [setAffine] at hlive
    rwa [Function.update_of_ne hk] at hlive

theorem addConstraint_affine {f : FunctionArg α} {s : SetArg α} {c : ConstraintIndex}
    (h : L.addConstraint f s = .ok (c, L')) {k : Int} (hk : k ≤ L.lastAffine) :
    L'.affine k = L.affine k := by
  have hsingle : ∀ {v : VariableIndex} {s : ScalarSet α}, L.addSingle v s = .ok (c, L') →
      L'.affine k = L.affine k := by
    intro v s h
    obtain ⟨e, -, h⟩ := except_bind_eq_ok.1 h
    dsimp only at h
    split at h
    · split_ifs at h
      cases h
      rfl
    · split at h
      · cases h
      · cases h
        rfl
  unfold addConstraint at h
  split at h
  · exact hsingle h
  · exact hsingle h
  · split_ifs at h
    unfold addAffine at h
    split_ifs at h
    obtain ⟨u, -, h⟩ := except_bind_eq_ok.1 h
    cases h
    exact Function.update_of_ne (by omega) _ _
  · cases h
  · cases h
  · cases h

theorem delete_affine {i : IndexArg α} (h : L.delete i = .ok L') {k : Int}
    (hlive : (L'.affine k).isSome = true) : (L.affine k).isSome = true := by
  cases i with
  | var v =>
    obtain ⟨e, -, h⟩ := except_bind_eq_ok.1 h
    cases h
    rwa [eraseVariable, Option.isSome_map] at hlive
  | raw x => cases h
  | constraint c =>
    unfold delete at h
    dsimp only at h
    split at h
    · obtain ⟨r, -, h⟩ := except_bind_eq_ok.1 h
      cases h
      exact hlive
    · obtain ⟨r, -, h⟩ := except_bind_eq_ok.1 h
      cases h
      dsimp only at hlive
      by_cases hk : k = c.value
      · rw [hk, Function.update_self] at hlive
        cases hlive
      · rwa [Function.update_of_ne hk] at hlive
    · cases h

theorem setConstraintSet_affine {i : IndexArg α} {s : SetArg α}
    (h : L.setConstraintSet i s = .ok L') {k : Int} (hlive : (L'.affine k).isSome = true) :
    (L.affine k).isSome = true := by
  obtain ⟨c, -, h⟩ := except_bind_eq_ok.1 h
  split_ifs at h
  · obtain ⟨r, -, h⟩ := except_bind_eq_ok.1 h
    cases s <;> cases h <;> exact hlive
  · obtain ⟨r, hr, h⟩ := except_bind_eq_ok.1 h
    cases s with
    | set s =>
      cases h
      exact setAffine_isSome hr hlive
    | raw x =>
      cases h
      exact hlive

theorem setConstraintFunction_affine {i : IndexArg α} {f : FunctionArg α}
    (h : L.setConstraintFunction i f = .ok L') {k : Int} (hlive : (L'.affine k).isSome = true) :
    (L.affine k).isSome = true := by
  obtain ⟨c, -, h⟩ := except_bind_eq_ok.1 h
  split_ifs at h
  cases f with
  | affine f =>
    dsimp only at h
    split_ifs at h
    obtain ⟨r, hr, h⟩ := except_bind_eq_ok.1 h
    obtain ⟨u, -, h⟩ := except_bind_eq_ok.1 h
    cases h
    exact setAffine_isSome hr hlive
  | _ => cases h

theorem setObjective_affine {f : FunctionArg α} (h : L.setObjective f = .ok L') :
    L'.affine = L.affine := by
  have haffine : ∀ {kind : ObjectiveKind} {f : AffineFunction α},
      L.setAffineObjective kind f = .ok L' → L'.affine = L.affine := by
    intro kind f h
    obtain ⟨u, -, h⟩ := except_bind_eq_ok.1 h
    cases h
    rfl
  cases f with
  | raw x => cases h
  | _ => exact haffine h

/-- An edit makes no affine constraint live again. -/
theorem run_affine (h : L.run e = .ok (a, L')) {k : Int} (hk : k ≤ L.lastAffine)
    (hlive : (L'.affine k).isSome = true) : (L.affine k).isSome = true := by
  cases e with
  | addVariable =>
    cases h
    exact hlive
  | addVariables n =>
    cases h
    exact hlive
  | addConstraint f s =>
    obtain ⟨p, h', h⟩ := except_map_eq_ok.1 h
    cases h
    rwa [addConstraint_affine h' hk] at hlive
  | delete i =>
    obtain ⟨p, h', h⟩ := except_map_eq_ok.1 h
    cases h
    exact delete_affine h' hlive
  | setConstraintSet i s =>
    obtain ⟨p, h', h⟩ := except_map_eq_ok.1 h
    cases h
    exact setConstraintSet_affine h' hlive
  | setConstraintFunction i f =>
    obtain ⟨p, h', h⟩ := except_map_eq_ok.1 h
    cases h
    exact setConstraintFunction_affine h' hlive
  | modifyCoefficient i v x =>
    obtain ⟨p, h', h⟩ := except_map_eq_ok.1 h
    cases h
    obtain ⟨c, -, h'⟩ := except_bind_eq_ok.1 h'
    obtain ⟨r, hr, h'⟩ := except_bind_eq_ok.1 h'
    obtain ⟨w, -, h'⟩ := except_bind_eq_ok.1 h'
    cases h'
    exact setAffine_isSome hr hlive
  | setObjective f =>
    obtain ⟨p, h', h⟩ := except_map_eq_ok.1 h
    cases h
    rwa [setObjective_affine h'] at hlive
  | modifyObjectiveCoefficient v x =>
    obtain ⟨p, h', h⟩ := except_map_eq_ok.1 h
    cases h
    obtain ⟨w, -, h'⟩ := except_bind_eq_ok.1 h'
    cases h'
    exact hlive
  | modifyObjectiveConstant x =>
    cases h
    exact hlive

theorem run_precedes (h : L.run e = .ok (a, L')) : L.Precedes L' := by
  obtain ⟨⟨n, hn, -⟩, n', hn', -⟩ := (run_step h).fresh
  exact ⟨by omega, fun _ hv hlive => (run_step h).vars_isSome hv hlive, by omega,
    fun _ hk hlive => run_affine h hk hlive⟩

end Ledger

namespace Represents

variable {m m' : Model α} {L L' : Ledger α}

theorem isSome_affine (h : Represents m L) (k : Int) :
    (L.affine k).isSome = (m.affine.get? k).isSome := by
  obtain ⟨hL, hm⟩ | ⟨i, n, info, row, rfl, hat, hL⟩ := h.affine_cases k
  · rw [hL, hm]
    rfl
  · rw [hL, hat.get? h.wf]
    rfl

/-- Registries follow their ledgers. -/
theorem precedes (h : Represents m L) (h' : Represents m' L') (hL : L.Precedes L') :
    m.vars.Precedes m'.vars ∧ m.affine.Precedes m'.affine := by
  have hvars : ∀ v : VariableIndex, (L.vars v).isSome = (m.vars.get? v.value).isSome :=
    h.isSome_vars
  refine ⟨⟨?_, fun k hk hlive => ?_⟩, ⟨?_, fun k hk hlive => ?_⟩⟩
  · rw [← h.lastVariable, ← h'.lastVariable]
    exact hL.lastVariable
  · rw [← h.lastVariable] at hk
    rw [← h'.isSome_vars ⟨k⟩] at hlive
    rw [← h.isSome_vars ⟨k⟩]
    exact hL.vars ⟨k⟩ hk hlive
  · rw [← h.lastAffine, ← h'.lastAffine]
    exact hL.lastAffine
  · rw [← h.lastAffine] at hk
    rw [← h'.isSome_affine] at hlive
    rw [← h.isSome_affine]
    exact hL.affine k hk hlive

end Represents

namespace Model

/-- The other model came later, by calls. -/
structure Precedes (m m' : Model α) : Prop where
  last : m'.last = m.last
  vars : m.vars.Precedes m'.vars
  affine : m.affine.Precedes m'.affine

theorem Sound.precedes_call [OrderedScalar α] {m : Model α} (h : m.Sound) {c : Call α}
    (hc : c.InRange) : m.Precedes (Call.after m c) := by
  obtain ⟨L, hL, -⟩ := h.ledger
  have hend : ∃ L', Represents (Call.after m c) L' ∧ L.Precedes L' := by
    by_cases hname : c.edit? = none
    · exact ⟨L, hL.naming h.named hname, .refl L⟩
    cases c with
    | edit e =>
      have hagrees := hL.run e (hc e rfl).isNaN
      cases hrun : L.run e with
      | ok p =>
        obtain ⟨a, L'⟩ := p
        rw [hrun] at hagrees
        refine ⟨L', ?_, Ledger.run_precedes hrun⟩
        rw [Call.after, after]
        cases hm : e.run m with
        | ok b m' =>
          rw [hm] at hagrees
          cases hagrees with
          | ok h' => exact h'
        | error f m' =>
          rw [hm] at hagrees
          cases hagrees
      | error f =>
        rw [hrun] at hagrees
        refine ⟨L, ?_, .refl L⟩
        rw [Call.after, after]
        cases hm : e.run m with
        | ok b m' =>
          rw [hm] at hagrees
          cases hagrees
        | error f m' =>
          rw [hm] at hagrees
          cases hagrees
          exact hL
    | _ => exact absurd rfl hname
  obtain ⟨L', hL', hprecedes⟩ := hend
  exact ⟨Call.last_after m c, (hL.precedes hL' hprecedes).1, (hL.precedes hL' hprecedes).2⟩

theorem Sound.precedes_calls [OrderedScalar α] {m : Model α} (h : m.Sound) {cs : List (Call α)}
    (hcs : ∀ c ∈ cs, c.InRange) :
    (Call.afterAll m cs).Sound ∧ m.Precedes (Call.afterAll m cs) := by
  induction cs generalizing m with
  | nil => exact ⟨h, rfl, ⟨le_rfl, fun _ _ h => h⟩, ⟨le_rfl, fun _ _ h => h⟩⟩
  | cons c cs ih =>
    have hc := hcs c List.mem_cons_self
    obtain ⟨hsound, hlast, hvars, haffine⟩ := ih (h.call hc) fun c' hc' =>
      hcs c' (List.mem_cons_of_mem c hc')
    have hstep := h.precedes_call hc
    exact ⟨hsound, hlast.trans hstep.last, hstep.vars.trans hvars, hstep.affine.trans haffine⟩

end Model

end MixedInteger
