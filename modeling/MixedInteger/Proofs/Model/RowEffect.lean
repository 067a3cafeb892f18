import MixedInteger.Proofs.Model.Effect

/-! What calls about rows and about the objective do to a well-formed model. A function
is written into a row, or into the costs, by the columns of its variables. -/

namespace MixedInteger

variable {α : Type} [Scalar α]

theorem Row.Fits.within {n : Nat} {r : Row α} (h : r.Fits n)
    (b : BoundKind × α × α) : (r.within b).Fits n := ⟨h.nodup, h.range, h.nonzero⟩

/-- Sets of one kind bound rows alike. -/
theorem Model.RowAt.rowBound_of_kind {m : Model α} {i k : Nat} {info : ConstraintInfo α}
    {r : Row α} (h : m.RowAt i k info r) {s : ScalarSet α} (hs : s.kind = info.set.kind) :
    ∃ b, s.rowBound? = some b := by
  have hsame : ∀ t : ScalarSet α, s.kind = t.kind → s.rowBound?.isSome = t.rowBound?.isSome := by
    intro t hkind
    cases s <;> cases t <;> first | rfl | cases hkind
  rw [← Option.isSome_iff_exists, hsame info.set hs, h.bounds]
  rfl

omit [Scalar α] in
/-- A value that is no set has the kind of none. -/
theorem SetArg.eq_set_of_kind {s : SetArg α} {t : ScalarSet α} (h : s.kind = t.kind) :
    ∃ u, s = .set u := by
  cases s with
  | set u => exact ⟨u, rfl⟩
  | raw x => cases t <;> cases h

/-- The sense and right-hand side of a set become the bounds of the row. -/
theorem setRowSense_run {p : Problem α} {i : Nat} {r : Row α} (hr : p.rows[i]? = some r)
    {s : ScalarSet α} {b : BoundKind × α × α} (hb : s.rowBound? = some b) :
    ∃ sense rhs, (SetArg.set s).sense = .ok (sense, rhs) ∧
      Problem.setRowSense ((i + 1 : Nat) : Int) sense rhs p =
        .ok () { p with rows := p.rows.modify i (·.within b) } := by
  have hset : ∀ kind l u, kind ≠ .double →
      RowEdit.change (fun p => p.setRowBounds ((i + 1 : Nat) : Int) kind l u) p =
        .ok () { p with rows := p.rows.modify i (·.within (kind, kind.sides l u)) } := by
    intro kind l u hk
    rw [RowEdit.change, Problem.setRowBounds_of_getElem hr kind hk]
    rfl
  cases s <;> cases hb
  · exact ⟨_, _, rfl, hset .upper _ _ (by simp)⟩
  · exact ⟨_, _, rfl, hset .lower _ _ (by simp)⟩
  · exact ⟨_, _, rfl, hset .fixed _ _ (by simp)⟩

/-- The model with a function for its objective. -/
def Model.withObjective (m : Model α) (f : AffineFunction α) (kind : ObjectiveKind) : Model α :=
  { m with
    problem := { m.problem with
      columns := List.zipWith (fun c cost => { c with cost := cost }) m.problem.columns
        (m.vars.keys.map fun (k : Nat) => f.coefficient ⟨k⟩)
      constant := f.constant }
    objectiveKind := kind }

namespace Modelling

open Model

variable {m : Model α}

theorem affineInfo_ok {k : Int} {info : ConstraintInfo α} (hi : m.affine.get? k = some info)
    {kind : Kind} (hk : info.set.kind = kind) :
    m.affineInfo ⟨.scalarAffine, kind, k⟩ = .ok info := by
  rw [affineInfo_eq, if_pos rfl, hi]
  simp [Option.filter, hk]

/-! ### Sets -/

theorem setConstraintSet_affine_run (hm : m.WellFormed) {i k : Nat} {info : ConstraintInfo α}
    {r : Row α} (h : m.RowAt i k info r) {s : ScalarSet α} (hs : info.set.kind = s.kind)
    {b : BoundKind × α × α} (hb : s.rowBound? = some b) :
    setConstraintSet (.constraint ⟨.scalarAffine, s.kind, k⟩) (.set s) m =
      .ok () ((m.withRowAt i (·.within b)).withConstraint k
        fun info => { info with set := s }) := by
  obtain ⟨sense, rhs, hsense, hrun⟩ := setRowSense_run h.row hb
  simp only [setConstraintSet, IndexArg.constraint?, SetArg.kind, bind_run, ofExcept_ok, pure_run,
    ne_eq, not_true_eq_false, if_false, reduceCtorEq, query_run, affineInfo_ok (h.get? hm) hs,
    hsense, editRow, get_run, h.number, hrun, set_run, modify_run]
  rfl

/-! ### Adding and deleting -/

/-- The row that is appended for a function and a set. -/
theorem addAffineRow_run (p : Problem α) (es : List (Nat × α))
    (hes : ({ coefs := es } : Row α).Fits p.columns.length) {s : ScalarSet α}
    {b : BoundKind × α × α} (hb : s.rowBound? = some b) :
    ∃ sense rhs, (SetArg.set s).sense = .ok (sense, rhs) ∧
      Problem.addAffineRow (es.map fun e => (e.1 : Int)) (es.map (·.2)) sense rhs p =
        .ok (p.rowCount + 1)
          { p with rows := p.rows ++ [({ coefs := es } : Row α).within b] }.padSolutions := by
  set q : Problem α := { p with rows := p.rows ++ [({} : Row α)] }.padSolutions with hq
  have hq₀ : q.rows[p.rows.length]? = some {} := by simp [hq, Problem.padSolutions]
  have hfilter : es.filter (fun e => !(e.2 == 0)) = es :=
    List.filter_eq_self.2 fun e he => by simp [hes.nonzero e he]
  have hmatrix := Problem.setMatrixRow_of_getElem hq₀ es (fun e he => hes.range e he) hes.nodup
  rw [hfilter] at hmatrix
  have hrows : q.rows = p.rows ++ [({} : Row α)] := rfl
  rw [hrows, modify_concat] at hmatrix
  obtain ⟨sense, rhs, hsense, hrun⟩ := setRowSense_run
    (p := { q with rows := p.rows ++ [({ coefs := es } : Row α)] }) (i := p.rows.length)
    (r := { coefs := es }) (by simp) hb
  rw [modify_concat] at hrun
  refine ⟨sense, rhs, hsense, ?_⟩
  have hadd : RowEdit.change (fun p => (p.addRows 1).map (·.1)) p = .ok () q := rfl
  have hwrite : RowEdit.change (fun s => s.setMatrixRow ((p.rows.length + 1 : Nat) : Int)
      (es.map fun e => (e.1 : Int)) (es.map (·.2))) q =
      .ok () { q with rows := p.rows ++ [({ coefs := es } : Row α)] } := by
    rw [RowEdit.change, hmatrix]
  have hcount : q.rowCount = p.rows.length + 1 := by simp [Problem.rowCount, hrows]
  simp only [Problem.addAffineRow, List.length_map, ne_eq, not_true_eq_false, if_false, bind_run,
    pure_run, get_run, hadd, hcount, hwrite, hrun]
  simp only [hq, Problem.padSolutions, Problem.rowCount, Problem.columnCount, List.length_append,
    List.length_singleton]

theorem addAffineConstraint_run (hm : m.WellFormed) {f : AffineFunction α} {s : ScalarSet α}
    {b : BoundKind × α × α} (hf : (f.constant == 0) = true)
    (hd : m.firstDead f.canonical.terms = none) (hb : s.rowBound? = some b) :
    addAffineConstraint f s m = .ok ⟨.scalarAffine, s.kind, (m.affine.last + 1 : Nat)⟩
      (m.withRow s (({ coefs := m.coefsOf f } : Row α).within b)) := by
  have hrow : m.rowOf f =
      .ok ((m.coefsOf f).map fun e => (e.1 : Int), (m.coefsOf f).map (·.2)) := by
    rw [rowOf_eq, hd]
  obtain ⟨sense, rhs, hsense, hrun⟩ := addAffineRow_run m.problem (m.coefsOf f)
    (hm.fits_coefsOf f {}) hb
  simp only [addAffineConstraint, hf, Bool.not_true, Bool.false_eq_true, if_false, bind_run,
    pure_run, query_run, hrow, ofExcept_ok, get_run, set_run, hsense, editRow, hrun]
  rfl

theorem deleteAffineConstraint_run (hm : m.WellFormed) {i k : Nat} {info : ConstraintInfo α}
    {r : Row α} (h : m.RowAt i k info r) {kind : Kind} (hk : info.set.kind = kind) :
    deleteAffineConstraint ⟨.scalarAffine, kind, k⟩ m = .ok () (m.withoutRow i info) := by
  have hp : m.problem.forgetBasis.deleteRows [(info.row : Int)] =
      .ok (m.withoutRow i info).problem := by
    rw [h.number]
    exact Problem.deleteRows_of_getElem (p := m.problem.forgetBasis) h.row
  have hclose : (fun other : ConstraintInfo α =>
      if info.row < other.row then { other with row := other.row - 1 } else other) =
      ConstraintInfo.closeGap (i + 1) := by
    funext other
    rw [h.number, ConstraintInfo.closeGap, closeGap]
    split_ifs <;> rfl
  simp only [deleteAffineConstraint, bind_run, query_run, affineInfo_ok (h.get? hm) hk,
    ofExcept_ok, pure_run, modify_run]
  rw [change_ok (m := { m with problem := m.problem.forgetBasis }) hp]
  by_cases hn : info.name = "" <;>
    simp only [hn, ne_eq, not_true_eq_false, not_false_eq_true, if_true, if_false, bind_run,
      modify_run, hm.affine.delete?_of_getElem h.entry, hclose, withoutRow]

/-! ### Functions -/

theorem setConstraintFunction_run (hm : m.WellFormed) {i k : Nat} {info : ConstraintInfo α}
    {r : Row α} (h : m.RowAt i k info r) {kind : Kind} (hk : info.set.kind = kind)
    {f : AffineFunction α} (hf : (f.constant == 0) = true)
    (hd : m.firstDead f.canonical.terms = none) :
    setConstraintFunction (.constraint ⟨.scalarAffine, kind, k⟩) (.affine f) m =
      .ok () (m.withRowAt i fun r => { r with coefs := m.coefsOf f }) := by
  have hrow : m.rowOf f =
      .ok ((m.coefsOf f).map fun e => (e.1 : Int), (m.coefsOf f).map (·.2)) := by
    rw [rowOf_eq, hd]
  have hfits := hm.fits_coefsOf f r
  have hfilter : (m.coefsOf f).filter (fun e => !(e.2 == 0)) = m.coefsOf f :=
    List.filter_eq_self.2 fun e he => by simp [hfits.nonzero e he]
  have hmatrix := Problem.setMatrixRow_of_getElem h.row (m.coefsOf f)
    (fun e he => hfits.range e he) hfits.nodup
  rw [hfilter] at hmatrix
  simp only [setConstraintFunction, IndexArg.constraint?, ofExcept_ok, bind_run, pure_run,
    reduceCtorEq, if_false, hf, Bool.not_true, Bool.false_eq_true, query_run,
    affineInfo_ok (h.get? hm) hk, hrow, h.number]
  exact change_ok hmatrix

omit [Scalar α] in
theorem mem_keys_replaceCoef {j k : Nat} {x : α} {es : List (Nat × α)} :
    k ∈ (replaceCoef j x es).map (·.1) ↔ k ∈ es.map (·.1) ∨ k = j := by
  induction es with
  | nil => simp [replaceCoef]
  | cons e es ih =>
    by_cases he : e.1 = j
    · simp only [replaceCoef, if_pos he, List.map_cons, List.mem_cons]
      rw [he]
      tauto
    · simp only [replaceCoef, if_neg he, List.map_cons, List.mem_cons, ih]
      tauto

omit [Scalar α] in
theorem nodup_replaceCoef {j : Nat} {x : α} {es : List (Nat × α)} (hn : (es.map (·.1)).Nodup) :
    ((replaceCoef j x es).map (·.1)).Nodup := by
  induction es with
  | nil => simp [replaceCoef]
  | cons e es ih =>
    rw [List.map_cons, List.nodup_cons] at hn
    by_cases he : e.1 = j
    · simp only [replaceCoef, if_pos he, List.map_cons, List.nodup_cons]
      exact he ▸ hn
    · simp only [replaceCoef, if_neg he, List.map_cons, List.nodup_cons, mem_keys_replaceCoef,
        not_or]
      exact ⟨⟨hn.1, he⟩, ih hn.2⟩

omit [Scalar α] in
theorem lookup_replaceCoef {j k : Nat} {x : α} {es : List (Nat × α)} :
    (replaceCoef j x es).lookup k = if k = j then some x else es.lookup k := by
  induction es with
  | nil => simp [replaceCoef, lookup_cons_ite]
  | cons e es ih =>
    by_cases he : e.1 = j
    · rw [replaceCoef, if_pos he, lookup_cons_ite, lookup_cons_ite, he]
      split_ifs <;> rfl
    · simp only [replaceCoef, if_neg he, lookup_cons_ite, ih]
      by_cases h : k = e.1
      · simp [h, he]
      · simp [h]

/-- The entries after a coefficient is replaced: distinct columns that exist. -/
theorem fits_replaceCoef {n : Nat} {r : Row α} (hr : r.Fits n) {j : Nat} (hj : 0 < j)
    (hjn : j ≤ n) (x : α) :
    (∀ e ∈ replaceCoef j x r.entries, 0 < e.1 ∧ e.1 ≤ n) ∧
      ((replaceCoef j x r.entries).map (·.1)).Nodup ∧
      ∀ k, (replaceCoef j x r.entries).lookup k =
        if k = j then some x else r.coefs.lookup k := by
  refine ⟨fun e he => ?_, ?_, fun k => ?_⟩
  · rcases mem_keys_replaceCoef.1 (List.mem_map_of_mem he) with hk | hk
    · obtain ⟨e', he', heq⟩ := List.mem_map.1 hk
      have := hr.range e' (List.mem_mergeSort.1 he')
      omega
    · omega
  · exact nodup_replaceCoef (hr.pairwise_entries.imp fun h => Nat.ne_of_lt h)
  · rw [lookup_replaceCoef, hr.lookup_entries]

/-- What is kept of them is a row. -/
theorem fits_nonzero_replaceCoef {n : Nat} {r : Row α} (hr : r.Fits n) {j : Nat} (hj : 0 < j)
    (hjn : j ≤ n) (x : α) :
    let es := (replaceCoef j x r.entries).filter fun e => !(e.2 == 0)
    ({ r with coefs := es } : Row α).Fits n ∧
      ∀ k, es.lookup k = if k = j then nonzero? x else r.coefs.lookup k := by
  intro es
  obtain ⟨hrange, hnodup, hlookup⟩ := fits_replaceCoef hr hj hjn x
  have hkeys : (es.map (·.1)).Nodup := hnodup.sublist (List.filter_sublist.map _)
  refine ⟨⟨hkeys, fun e he => hrange e (List.mem_filter.1 he).1,
    fun e he => by simpa using (List.mem_filter.1 he).2⟩, fun k => ?_⟩
  ext y
  have hmem : es.lookup k = some y ↔
      (if k = j then some x else r.coefs.lookup k) = some y ∧ (y == 0) = false := by
    rw [lookup_eq_some_iff_mem hkeys, List.mem_filter, ← lookup_eq_some_iff_mem hnodup, hlookup]
    simp
  rw [hmem]
  split_ifs
  · rw [nonzero?_eq_some, Option.some.injEq]
  · exact ⟨fun hy => hy.1, fun hy => ⟨hy, hr.lookup_nonzero hy⟩⟩

theorem modifyCoefficient_run (hm : m.WellFormed) {i k : Nat} {info : ConstraintInfo α}
    {r : Row α} (h : m.RowAt i k info r) {kind : Kind} (hk : info.set.kind = kind)
    {v : IndexArg α} {vinfo : VariableInfo} (hv : m.info v = .ok vinfo) {x : α}
    (hj : 0 < vinfo.column) (hjn : vinfo.column ≤ m.problem.columns.length) :
    modifyCoefficient (.constraint ⟨.scalarAffine, kind, k⟩) v x m =
      .ok () (m.withRowAt i fun row => { row with
        coefs := (replaceCoef vinfo.column x r.entries).filter fun e => !(e.2 == 0) }) := by
  obtain ⟨hrange, hnodup, -⟩ := fits_replaceCoef (h.fits hm) hj hjn x
  have hmatrix := Problem.setMatrixRow_of_getElem h.row _ hrange hnodup
  have hentries : m.problem.matrixRow ((i + 1 : Nat) : Int) = .ok r.entries := by
    rw [Problem.matrixRow, Problem.row_of_getElem h.row]
    rfl
  simp only [modifyCoefficient, IndexArg.constraint?, ofExcept_ok, bind_run, pure_run, query_run,
    affineInfo_ok (h.get? hm) hk, hv, get_run, hentries, h.number]
  exact change_ok hmatrix

/-! ### The objective -/

/-- Costs by column, after terms are added to what is there for each variable. -/
theorem foldlM_costs (hm : m.WellFormed) : ∀ (ts : List (Term α)) (g : Nat → α),
    (ts.foldlM (fun costs t => do
        let info ← m.info (.var t.var)
        return costs.modify (info.column - 1) (· + t.coefficient))
      (m.vars.keys.map g) : Except (Fault α) (List α)) =
    match m.firstDead ts with
    | some v => .error (.model (.invalidIndex (.var v)))
    | none => .ok (m.vars.keys.map fun (k : Nat) =>
        ((ts.filter fun t => t.var = ⟨k⟩).map (·.coefficient)).foldl (· + ·) (g k))
  | [], g => rfl
  | t :: ts, g => by
    rw [List.foldlM_cons, info_var]
    cases ht : m.vars.get? t.var.value with
    | none => simp [firstDead, ht, bind, Except.bind]
    | some info =>
      have hdead : m.firstDead (t :: ts) = m.firstDead ts := by simp [firstDead, ht]
      obtain ⟨i, k, c, hk, hat⟩ := hm.variableAt ht
      have hvar : t.var = ⟨k⟩ := congrArg VariableIndex.mk hk
      have hmodify : (m.vars.keys.map g).modify (info.column - 1) (· + t.coefficient) =
          m.vars.keys.map fun n => if n = k then g n + t.coefficient else g n := by
        refine List.ext_getElem? fun j => ?_
        simp only [List.getElem?_modify, hat.number, Nat.add_sub_cancel, Registry.keys,
          List.getElem?_map]
        cases hj : m.vars.entries[j]? with
        | none => rfl
        | some e =>
          have hiff : i = j ↔ e.1 = k := by
            constructor
            · rintro rfl
              rw [hat.entry] at hj
              cases hj
              rfl
            · intro he
              exact hm.vars.getElem?_inj hat.entry (w := e.2) (he ▸ hj)
          simp only [Option.map_some, Option.map_eq_map, hiff]
      have ih := foldlM_costs hm ts fun n => if n = k then g n + t.coefficient else g n
      rw [← hmodify] at ih
      rw [hdead]
      refine ih.trans ?_
      cases m.firstDead ts with
      | some v => rfl
      | none =>
        simp only [Except.ok.injEq]
        refine List.map_congr_left fun n _ => ?_
        by_cases hn : n = k
        · simp [hn, hvar]
        · have hne : ¬t.var = ⟨(n : Int)⟩ := by
            rw [hvar]
            simpa using fun h : (k : Int) = n => hn (by omega)
          simp [hn, hne]

theorem costs_eq (hm : m.WellFormed) (f : AffineFunction α) : costs m f =
    match m.firstDead f.terms with
    | some v => .error (.model (.invalidIndex (.var v)))
    | none => .ok (m.vars.keys.map fun (k : Nat) => f.coefficient ⟨k⟩) := by
  have hzero : List.replicate m.problem.columnCount (0 : α) = m.vars.keys.map fun _ => 0 := by
    rw [Problem.columnCount, hm.columnCount, List.map_const', Registry.keys, List.length_map]
  rw [costs, hzero]
  exact foldlM_costs hm f.terms fun _ => 0

theorem setAffineObjective_run (hm : m.WellFormed) {f : AffineFunction α}
    (hd : m.firstDead f.terms = none) (kind : ObjectiveKind) :
    setAffineObjective kind f m = .ok () (m.withObjective f kind) := by
  simp only [setAffineObjective, bind_run, query_run, costs_eq hm, hd, ofExcept_ok, pure_run,
    modify_run]
  rfl

end Modelling

end MixedInteger
