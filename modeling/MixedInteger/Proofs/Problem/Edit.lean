import MixedInteger.Proofs.Problem.Row
import MixedInteger.Proofs.Steps
import MixedInteger.Problem.Edit
import Mathlib.Data.List.Perm.Basic

/-! What the changes of a problem do to its lists. A number in range names one place,
so each change is told by the place: the column or row there is replaced or taken
out. A problem is well formed when all its rows fit. -/

namespace MixedInteger

/-! ### Changes at one place of a list -/

theorem modify_concat {β : Type} (xs : List β) (x : β) (f : β → β) :
    (xs ++ [x]).modify xs.length f = xs ++ [f x] :=
  List.modifyTailIdx_add (List.modifyHead f) 0 xs [x]

theorem modify_of_fixed {β : Type} {f : β → β} : ∀ {xs : List β} {i : Nat},
    (∀ x, xs[i]? = some x → f x = x) → xs.modify i f = xs := by
  intro xs i h
  refine List.ext_getElem? fun j => ?_
  rw [List.getElem?_modify]
  split_ifs with hij
  · subst hij
    cases hx : xs[i]? with
    | none => rfl
    | some x => simp [h x hx]
  · simp

/-- A count changes with one element. -/
theorem countP_modify {β : Type} {f : β → β} (p : β → Bool) : ∀ {xs : List β} {i : Nat} {x : β},
    xs[i]? = some x → (xs.modify i f).countP p + (if p x then 1 else 0) =
      xs.countP p + if p (f x) then 1 else 0
  | [], _, _, h => by cases h
  | _ :: xs, 0, _, h => by
    cases h
    simp only [List.modify_zero_cons, List.countP_cons]
    omega
  | _ :: xs, i + 1, x, h => by
    rw [List.getElem?_cons_succ] at h
    have ih := countP_modify (f := f) p h
    simp only [List.modify_succ_cons, List.countP_cons]
    omega

theorem countP_eraseIdx {β : Type} (p : β → Bool) {xs : List β} {i : Nat} {x : β}
    (h : xs[i]? = some x) :
    (xs.eraseIdx i).countP p + (if p x then 1 else 0) = xs.countP p := by
  obtain ⟨hi, rfl⟩ := List.getElem?_eq_some_iff.1 h
  rw [← List.Perm.countP_eq p (List.getElem_cons_eraseIdx_perm hi), List.countP_cons]

theorem modify_congr_of_getElem {β : Type} {f g : β → β} {xs : List β} {i : Nat} {x : β}
    (hx : xs[i]? = some x) (h : f x = g x) : xs.modify i f = xs.modify i g := by
  refine List.ext_getElem? fun j => ?_
  rw [List.getElem?_modify, List.getElem?_modify]
  split_ifs with hij
  · subst hij
    simp [hx, h]
  · rfl

/-- What holds of all elements and is kept by the change holds of all elements after it. -/
theorem forall_mem_modify {β : Type} {P : β → Prop} {xs : List β} {f : β → β} (i : Nat)
    (h : ∀ x ∈ xs, P x) (hf : ∀ x, P x → P (f x)) : ∀ x ∈ xs.modify i f, P x := by
  induction xs generalizing i with
  | nil => simp
  | cons y ys ih =>
    rw [List.forall_mem_cons] at h
    cases i with
    | zero => exact List.forall_mem_cons.2 ⟨hf y h.1, h.2⟩
    | succ i => exact List.forall_mem_cons.2 ⟨h.1, ih i h.2⟩

variable {α : Type} [Scalar α]

theorem valueAt_of_getElem {xs : List α} {i : Nat} {x : α} (h : xs[i]? = some x) :
    valueAt xs ((i + 1 : Nat) : Int) = x := by
  have hi : (((i + 1 : Nat) : Int) - 1).toNat = i := by omega
  rw [valueAt, if_neg (by omega), hi, List.getD_eq_getElem?_getD, h]
  rfl

namespace Problem

variable {p : Problem α} {i : Nat}

/-! ### Places -/

theorem column_of_getElem {c : Column α} (h : p.columns[i]? = some c) :
    p.column ((i + 1 : Nat) : Int) = .ok c := by
  have hi : (((i + 1 : Nat) : Int) - 1).toNat = i := by omega
  rw [column, if_neg (by omega), hi, h]

theorem row_of_getElem {r : Row α} (h : p.rows[i]? = some r) :
    p.row ((i + 1 : Nat) : Int) = .ok r := by
  have hi : (((i + 1 : Nat) : Int) - 1).toNat = i := by omega
  rw [row, if_neg (by omega), hi, h]

theorem column_of_range {j : Nat} (hj : 0 < j) (hn : j ≤ p.columnCount) :
    ∃ c, p.columns[j - 1]? = some c ∧ p.column (j : Int) = .ok c := by
  have hlt : j - 1 < p.columns.length := by
    rw [columnCount] at hn
    omega
  have hc := List.getElem?_eq_getElem hlt
  refine ⟨_, hc, ?_⟩
  have := column_of_getElem hc
  rwa [Nat.sub_add_cancel hj] at this

/-- The columns with their numbers, by place. -/
theorem mem_numberedColumns {e : Nat × Column α} :
    e ∈ p.numberedColumns ↔ ∃ j c, p.columns[j]? = some c ∧ e = (j + 1, c) := by
  unfold numberedColumns
  rw [List.mem_iff_getElem?]
  refine exists_congr fun j => ?_
  rw [List.getElem?_zip_eq_some, List.getElem?_map]
  constructor
  · rintro ⟨hb, hc⟩
    have hj := (List.getElem?_eq_some_iff.1 hc).1
    rw [columnCount, List.getElem?_range hj, Option.map_some, Option.some.injEq] at hb
    exact ⟨e.2, hc, by rw [hb]⟩
  · rintro ⟨c, hc, rfl⟩
    have hj := (List.getElem?_eq_some_iff.1 hc).1
    exact ⟨by rw [columnCount, List.getElem?_range hj]; rfl, hc⟩

theorem modifyColumn_succ (f : Column α → Column α) :
    p.modifyColumn ((i + 1 : Nat) : Int) f = { p with columns := p.columns.modify i f } := by
  have hi : (((i + 1 : Nat) : Int) - 1).toNat = i := by omega
  rw [modifyColumn, hi]

theorem modifyRow_succ (f : Row α → Row α) :
    p.modifyRow ((i + 1 : Nat) : Int) f = { p with rows := p.rows.modify i f } := by
  have hi : (((i + 1 : Nat) : Int) - 1).toNat = i := by omega
  rw [modifyRow, hi]

/-! ### Bounds, kinds, costs and names -/

/-- Only double bounds are ever refused. -/
theorem refuses_of_ne {kind : BoundKind} (h : kind ≠ .double) (l u : α) :
    p.refuses kind l u = false := by
  simp [refuses, h]

theorem setColumnBounds_of_getElem {c : Column α} (h : p.columns[i]? = some c) (kind : BoundKind)
    (l u : α) : p.setColumnBounds ((i + 1 : Nat) : Int) kind l u =
      if p.refuses kind (kind.sides l u).1 (kind.sides l u).2 then
        .error (.columnBounds ((i + 1 : Nat) : Int) (kind.sides l u).1 (kind.sides l u).2)
      else .ok { p with columns := p.columns.modify i fun c =>
        { c with bound := kind, lower := (kind.sides l u).1, upper := (kind.sides l u).2 } } := by
  rw [setColumnBounds, column_of_getElem h]
  simp only [modifyColumn_succ]
  rfl

theorem setRowBounds_of_getElem {r : Row α} (h : p.rows[i]? = some r) (kind : BoundKind)
    (hk : kind ≠ .double) (l u : α) : p.setRowBounds ((i + 1 : Nat) : Int) kind l u =
      .ok { p with rows := p.rows.modify i fun r =>
        { r with bound := kind, lower := (kind.sides l u).1, upper := (kind.sides l u).2 } } := by
  rw [setRowBounds, row_of_getElem h]
  simp only [modifyRow_succ]
  change (if p.refuses kind (kind.sides l u).1 (kind.sides l u).2 = true then _ else _) = _
  rw [refuses_of_ne hk]
  rfl

theorem setColumnKind_of_getElem {c : Column α} (h : p.columns[i]? = some c) (kind : ColumnKind) :
    p.setColumnKind ((i + 1 : Nat) : Int) kind =
      .ok { p with columns := p.columns.modify i fun c => { c with kind := kind } } := by
  rw [setColumnKind, column_of_getElem h, modifyColumn_succ]
  rfl

theorem setColumnName_of_getElem {c : Column α} (h : p.columns[i]? = some c) (name : String) :
    p.setColumnName ((i + 1 : Nat) : Int) name =
      .ok { p with columns := p.columns.modify i fun c => { c with name := name } } := by
  rw [setColumnName, column_of_getElem h, modifyColumn_succ]
  rfl

theorem setRowName_of_getElem {r : Row α} (h : p.rows[i]? = some r) (name : String) :
    p.setRowName ((i + 1 : Nat) : Int) name =
      .ok { p with rows := p.rows.modify i fun r => { r with name := name } } := by
  rw [setRowName, row_of_getElem h, modifyRow_succ]
  rfl

theorem setCost_of_getElem {c : Column α} (h : p.columns[i]? = some c) (cost : α) :
    p.setCost ((i + 1 : Nat) : Int) cost =
      .ok { p with columns := p.columns.modify i fun c => { c with cost := cost } } := by
  rw [setCost, if_neg (by omega), column_of_getElem h, modifyColumn_succ]
  rfl

theorem leniently_eq {f : Problem α → Except (ProblemError α) (Problem α)} {q : Problem α}
    (h : f { p with strict := false } = .ok q) :
    p.leniently f = .ok { q with strict := p.strict } := by
  rw [leniently, h]
  rfl

/-! ### Rows -/

/-- Coefficients in distinct columns of the problem pass the check. -/
theorem checkCoefs_ok (i : Int) : ∀ (es : List (Int × α)) (seen : List Int),
    (∀ e ∈ es, 0 < e.1 ∧ e.1 ≤ p.columnCount) → (es.map (·.1)).Nodup →
    (∀ e ∈ es, e.1 ∉ seen) → p.checkCoefs i seen es = .ok ()
  | [], _, _, _, _ => rfl
  | (j, x) :: es, seen, hr, hn, hs => by
    rw [List.map_cons, List.nodup_cons] at hn
    have hj := hr (j, x) List.mem_cons_self
    obtain ⟨k, rfl⟩ := Int.eq_ofNat_of_zero_le (Int.le_of_lt hj.1)
    obtain ⟨c, -, hc⟩ := p.column_of_range (j := k) (by omega) (by omega)
    have htail := checkCoefs_ok i es ((k : Int) :: seen)
      (fun e he => hr e (List.mem_cons_of_mem _ he)) hn.2 (fun e he => by
        rw [List.mem_cons, not_or]
        exact ⟨fun h => hn.1 (List.mem_map.2 ⟨e, he, h⟩), hs e (List.mem_cons_of_mem _ he)⟩)
    rw [checkCoefs, hc]
    simp only [if_neg (hs _ List.mem_cons_self)]
    exact htail

theorem setMatrixRow_of_getElem {r : Row α} (h : p.rows[i]? = some r) (es : List (Nat × α))
    (hr : ∀ e ∈ es, 0 < e.1 ∧ e.1 ≤ p.columnCount) (hn : (es.map (·.1)).Nodup) :
    p.setMatrixRow ((i + 1 : Nat) : Int) (es.map fun e => (e.1 : Int)) (es.map (·.2)) =
      .ok { p with rows := p.rows.modify i fun r =>
        { r with coefs := es.filter fun e => !(e.2 == 0) } } := by
  have hzip : (es.map fun e => (e.1 : Int)).zip (es.map (·.2)) =
      es.map fun e => ((e.1 : Int), e.2) := List.zip_map' ..
  have hcheck : p.checkCoefs ((i + 1 : Nat) : Int) [] (es.map fun e => ((e.1 : Int), e.2)) =
      .ok () := by
    refine checkCoefs_ok _ _ _ (fun e he => ?_) ?_ (by simp)
    · obtain ⟨e', he', rfl⟩ := List.mem_map.1 he
      have := hr e' he'
      simp only
      omega
    · rw [List.map_map]
      refine List.pairwise_map.2 ((List.pairwise_map.1 hn).imp fun h => ?_)
      exact fun heq => h (Int.ofNat.inj heq)
  have hnat : ((es.map fun e => (e.1 : Int)).map Int.toNat).zip (es.map (·.2)) = es := by
    rw [List.map_map, List.zip_map']
    simp
  rw [setMatrixRow, row_of_getElem h, hzip, hnat]
  simp only [List.length_map, ne_eq, not_true_eq_false, if_false, hcheck, modifyRow_succ]
  rfl

end Problem

/-! ### Deleting -/

theorem mem_of_mem_without {β : Type} {doomed : List Nat} {xs : List β} {x : β}
    (h : x ∈ without doomed xs) : x ∈ xs := by
  obtain ⟨e, he, hx⟩ := List.mem_filterMap.1 h
  split_ifs at hx
  cases hx
  exact (List.of_mem_zip he).2

theorem filterMap_zip_range' {β : Type} (s : Nat) : ∀ (xs : List β) (i : Nat),
    ((List.range' s xs.length).zip xs).filterMap
      (fun e => if e.1 + 1 ∈ [s + i + 1] then none else some e.2) = xs.eraseIdx i
  | [], _ => rfl
  | x :: xs, i => by
    have htail : ∀ t, s < t → ((List.range' t xs.length).zip xs).filterMap
        (fun e => if e.1 + 1 ∈ [s + 0 + 1] then none else some e.2) = xs := by
      induction xs with
      | nil => simp
      | cons y ys ih =>
        intro t ht
        rw [List.length_cons, List.range'_succ, List.zip_cons_cons, List.filterMap_cons]
        simp only [List.mem_singleton, Nat.add_zero, Nat.add_right_cancel_iff,
          if_neg (Nat.ne_of_gt ht)]
        simpa using ih (t + 1) (by omega)
    rw [List.length_cons, List.range'_succ, List.zip_cons_cons, List.filterMap_cons]
    cases i with
    | zero => simpa using htail (s + 1) (by omega)
    | succ i =>
      have hne : s ≠ s + (i + 1) := by omega
      have heq : s + (i + 1) = s + 1 + i := by omega
      have ih := filterMap_zip_range' (s + 1) xs i
      simp only [List.mem_singleton, Nat.add_right_cancel_iff, if_neg hne,
        List.eraseIdx_cons_succ] at ih ⊢
      rw [heq, ih]

theorem without_singleton {β : Type} (i : Nat) (xs : List β) :
    without [i + 1] xs = xs.eraseIdx i := by
  rw [without, List.range_eq_range', ← filterMap_zip_range' 0 xs i]
  simp

namespace Problem

variable {p : Problem α} {i : Nat}

theorem deleteColumns_of_getElem {c : Column α} (h : p.columns[i]? = some c) :
    p.deleteColumns [((i + 1 : Nat) : Int)] = .ok { p with
      columns := p.columns.eraseIdx i
      rows := p.rows.map (Row.dropColumns [i + 1]) }.forgetSolutions := by
  have hcheck : p.checkColumns [] [((i + 1 : Nat) : Int)] = .ok () := by
    simp only [checkColumns, column_of_getElem h]
    rfl
  rw [deleteColumns, hcheck]
  have hn : List.map Int.toNat [((i + 1 : Nat) : Int)] = [i + 1] := rfl
  simp only [hn, without_singleton]
  rfl

theorem deleteRows_of_getElem {r : Row α} (h : p.rows[i]? = some r) :
    p.deleteRows [((i + 1 : Nat) : Int)] =
      .ok { p with rows := p.rows.eraseIdx i }.forgetSolutions := by
  have hcheck : p.checkRows [] [((i + 1 : Nat) : Int)] = .ok () := by
    simp only [checkRows, row_of_getElem h]
    rfl
  rw [deleteRows, hcheck]
  have hn : List.map Int.toNat [((i + 1 : Nat) : Int)] = [i + 1] := rfl
  simp only [hn, without_singleton]
  rfl

/-! ### Adding -/

theorem addColumns_pos {n : Int} (h : 1 ≤ n) :
    p.addColumns n = .ok (({ p with
      columns := p.columns ++ List.replicate n.toNat ({} : Column α) }).padSolutions, p.columnCount + 1) := by
  rw [addColumns, if_neg (by omega)]

/-! ### Crossed bounds -/

/-- Bounds are bad when those of a column or a row are crossed. -/
theorem badBounds_eq_none_iff : p.badBounds = none ↔
    (∀ c ∈ p.columns, crossed c.bound c.lower c.upper = false) ∧
      ∀ r ∈ p.rows, crossed r.bound r.lower r.upper = false := by
  have hcolumns : p.numberedColumns.map (·.2) = p.columns :=
    List.map_snd_zip (by simp [columnCount])
  have hrows : p.numberedRows.map (·.2) = p.rows := List.map_snd_zip (by simp [rowCount])
  rw [← hcolumns, ← hrows]
  simp only [List.forall_mem_map, badBounds]
  cases hfound : p.numberedColumns.find? fun e => crossed e.2.bound e.2.lower e.2.upper with
  | some e =>
    have hcrossed := List.find?_some hfound
    refine iff_of_false (by simp) fun h => ?_
    rw [h.1 e (List.mem_of_find?_eq_some hfound)] at hcrossed
    cases hcrossed
  | none =>
    rw [Option.map_eq_none_iff, List.find?_eq_none]
    rw [List.find?_eq_none] at hfound
    simpa using fun _ => hfound

end Problem

/-! ### Fractional bounds -/

theorem fractionalBound_of_firstFractional {es : List (Nat × Column α)}
    (h : firstFractional es = .ok none) : ∀ e ∈ es, e.2.fractionalBound e.1 = .ok none := by
  induction es with
  | nil => simp
  | cons e es ih =>
    unfold firstFractional at h
    obtain ⟨o, ho, h⟩ := except_bind_eq_ok.1 h
    cases o with
    | some o => cases h
    | none => exact List.forall_mem_cons.2 ⟨ho, ih h⟩

end MixedInteger
