import MixedInteger.Problem.LinearProgram
import MixedInteger.Proofs.Number.Extended
import MixedInteger.Proofs.Problem.Deletion

/-! Calls on a problem, one after the other and from the empty problem on. A call that is refused
changes nothing, so what is said of a problem has to be kept by the calls that succeed: rows list
distinct columns of the problem with coefficients that are not zero, and the stored bounds are such
as their kind allows. What more is known of the bounds depends on the check: while it is on, double
bounds leave room between their sides. -/

namespace MixedInteger

open Extended

variable {α : Type} [Scalar α]

/-! ### Bounds and their kind -/

/-- What a kind says of the two bounds that are stored with it. -/
def BoundKind.Suits (lower upper : α) : BoundKind → Prop
  | .free => lower = -Scalar.infinity ∧ upper = Scalar.infinity
  | .lower => upper = Scalar.infinity
  | .upper => lower = -Scalar.infinity
  | .double => True
  | .fixed => lower = upper

theorem BoundKind.suits_sides (kind : BoundKind) (l u : α) :
    kind.Suits (kind.sides l u).1 (kind.sides l u).2 := by
  cases kind with
  | free => exact ⟨rfl, rfl⟩
  | double => trivial
  | lower | upper | fixed => rfl

namespace Problem

/-! ### Calls -/

/-- A call that changes a problem. Numbers of columns and rows and the codes of kinds may be any
integers. -/
inductive Call (α : Type) [Scalar α] where
  | addColumns (n : Int)
  | addRows (n : Int)
  | deleteColumns (js : List Int)
  | deleteRows (is : List Int)
  | setColumnBounds (j code : Int) (lower upper : α)
  | setRowBounds (i code : Int) (lower upper : α)
  | setColumnKind (j code : Int)
  | setMatrixRow (i : Int) (columns : List Int) (values : List α)
  | setDirection (code : Int)
  | setCost (j : Int) (cost : α)
  | setName (name : String)
  | setColumnName (j : Int) (name : String)
  | setRowName (i : Int) (name : String)
  | forgetBasis
  /-- The copy takes the place of the problem. -/
  | copy
  /-- Switches the check of double bounds. -/
  | check (strict : Bool)
  /-- A call that is made while the check is suspended. -/
  | suspended (call : Call α)
  /-- What algorithms leave beside the data, whatever it is. -/
  | store (basic interior integer : Solution α)

namespace Call

/-- The changed problem, unless the call is refused. -/
def edit : Call α → Problem α → Except (ProblemError α) (Problem α)
  | addColumns n, p => (p.addColumns n).map (·.1)
  | addRows n, p => (p.addRows n).map (·.1)
  | deleteColumns js, p => p.deleteColumns js
  | deleteRows is, p => p.deleteRows is
  | setColumnBounds j code l u, p => p.setColumnBoundsByCode j code l u
  | setRowBounds i code l u, p => p.setRowBoundsByCode i code l u
  | setColumnKind j code, p => p.setColumnKindByCode j code
  | setMatrixRow i columns values, p => p.setMatrixRow i columns values
  | setDirection code, p => p.setDirectionByCode code
  | setCost j cost, p => p.setCost j cost
  | setName name, p => .ok { p with name := name }
  | setColumnName j name, p => p.setColumnName j name
  | setRowName i name, p => p.setRowName i name
  | forgetBasis, p => .ok p.forgetBasis
  | copy, p => .ok p.copy
  | check strict, p => .ok { p with strict := strict }
  | suspended call, p => p.leniently call.edit
  | store basic interior integer, p =>
    .ok { p with basic := basic, interior := interior, integer := integer }

/-- The strictness under which a call has its bounds checked. -/
def checkedUnder : Call α → Bool → Bool
  | suspended call, _ => call.checkedUnder false
  | _, strict => strict

/-- The strictness that a call leaves. -/
def strictAfter : Call α → Bool → Bool
  | check strict, _ => strict
  | _, strict => strict

/-- The call does not switch the check off. -/
def KeepsCheck : Call α → Prop
  | check strict => strict = true
  | suspended _ => False
  | _ => True

theorem KeepsCheck.checkedUnder {c : Call α} (h : c.KeepsCheck) (strict : Bool) :
    c.checkedUnder strict = strict := by
  cases c with
  | suspended => exact h.elim
  | _ => rfl

theorem KeepsCheck.strictAfter {c : Call α} (h : c.KeepsCheck) : c.strictAfter true = true := by
  cases c with
  | check => exact h
  | _ => rfl

/-- The problem after a call, which is the same as before when the call is refused. -/
def perform (p : Problem α) (c : Call α) : Problem α := after (RowEdit.change c.edit) p

theorem perform_cases (c : Call α) (p : Problem α) :
    c.edit p = .ok (perform p c) ∨ (∃ e, c.edit p = .error e) ∧ perform p c = p := by
  simp only [perform, after, RowEdit.change]
  cases c.edit p with
  | ok q => exact .inl rfl
  | error e => exact .inr ⟨⟨e, rfl⟩, rfl⟩

end Call

/-- The problem that calls lead to, starting with the empty one. -/
def reached (calls : List (Call α)) : Problem α := calls.foldl Call.perform {}

/-! ### What is kept -/

/-- The rows fit, and the stored bounds and their kinds are such as `B` tells. -/
structure Consistent (B : BoundKind → α → α → Prop) (p : Problem α) : Prop where
  fits : ∀ r ∈ p.rows, r.Fits p.columnCount
  columns : ∀ c ∈ p.columns, B c.bound c.lower c.upper
  rows : ∀ r ∈ p.rows, B r.bound r.lower r.upper

/-- Whatever bounds are asked for, those that pass the check are such as `B` tells. -/
def Ensures (B : BoundKind → α → α → Prop) (strict : Bool) : Prop :=
  ∀ (p : Problem α) (kind : BoundKind) (l u : α), p.strict = strict →
    p.refuses kind (kind.sides l u).1 (kind.sides l u).2 = false →
      B kind (kind.sides l u).1 (kind.sides l u).2

/-- How a problem is left by a call: with a known check, and consistent if it was. -/
structure Becomes (B : BoundKind → α → α → Prop) (strict : Bool) (p q : Problem α) : Prop where
  strict : q.strict = strict
  consistent : p.Consistent B → q.Consistent B

variable {B : BoundKind → α → α → Prop} {s : Bool} {p q : Problem α}

theorem Ensures.free (h : Ensures B s) : B .free (-Scalar.infinity) Scalar.infinity :=
  h { strict := s } .free 0 0 rfl (refuses_of_ne (by simp) _ _)

theorem Consistent.empty : ({} : Problem α).Consistent B :=
  ⟨by simp, by simp, by simp⟩

theorem Consistent.congr (h : p.Consistent B) (hcolumns : q.columns = p.columns)
    (hrows : q.rows = p.rows) : q.Consistent B where
  fits r hr := by
    rw [columnCount, hcolumns]
    exact h.fits r (hrows ▸ hr)
  columns c hc := h.columns c (hcolumns ▸ hc)
  rows r hr := h.rows r (hrows ▸ hr)

theorem Consistent.modifyColumn (h : p.Consistent B) (j : Int) {f : Column α → Column α}
    (hf : ∀ c, B c.bound c.lower c.upper → B (f c).bound (f c).lower (f c).upper) :
    (p.modifyColumn j f).Consistent B where
  fits r hr := by
    rw [columnCount, Problem.modifyColumn, List.length_modify]
    exact h.fits r hr
  columns := forall_mem_modify _ h.columns hf
  rows := h.rows

theorem Consistent.modifyRow (h : p.Consistent B) (i : Int) {f : Row α → Row α}
    (hfits : ∀ r : Row α, r.Fits p.columnCount → (f r).Fits p.columnCount)
    (hf : ∀ r, B r.bound r.lower r.upper → B (f r).bound (f r).lower (f r).upper) :
    (p.modifyRow i f).Consistent B where
  fits := forall_mem_modify _ h.fits hfits
  columns := h.columns
  rows := forall_mem_modify _ h.rows hf

/-! ### Adding and deleting -/

theorem becomes_addColumns (hB : Ensures B s) {n : Int}
    (hq : (p.addColumns n).map (·.1) = .ok q) : p.Becomes B p.strict q := by
  obtain ⟨r, hr, rfl⟩ := except_map_eq_ok.1 hq
  unfold addColumns at hr
  split_ifs at hr
  cases hr
  refine ⟨rfl, fun h => ⟨fun r hr => (h.fits r hr).mono ?_, fun c hc => ?_, h.rows⟩⟩
  · simp [columnCount, padSolutions]
  · obtain hold | hnew := List.mem_append.1 hc
    · exact h.columns c hold
    · rw [(List.mem_replicate.1 hnew).2]
      exact hB.free

theorem becomes_addRows (hB : Ensures B s) {n : Int}
    (hq : (p.addRows n).map (·.1) = .ok q) : p.Becomes B p.strict q := by
  obtain ⟨r, hr, rfl⟩ := except_map_eq_ok.1 hq
  unfold addRows at hr
  split_ifs at hr
  cases hr
  have hempty (m : Nat) : ({} : Row α).Fits m := ⟨.nil, by simp, by simp⟩
  refine ⟨rfl, fun h => ⟨fun r hr => ?_, h.columns, fun r hr => ?_⟩⟩
  · obtain hold | hnew := List.mem_append.1 hr
    · exact h.fits r hold
    · rw [(List.mem_replicate.1 hnew).2]
      exact hempty _
  · obtain hold | hnew := List.mem_append.1 hr
    · exact h.rows r hold
    · rw [(List.mem_replicate.1 hnew).2]
      exact hB.free

theorem Removal.eq_of_ok {remove : Problem α → List Int → Except (ProblemError α) (Problem α)}
    {size : Problem α → Nat} {rest : Problem α → List Int → Problem α}
    (h : Removal remove size rest) {js : List Int} (hq : remove p js = .ok q) :
    Deletable (size p) js ∧ q = rest p js := by
  by_cases hjs : Deletable (size p) js
  · rw [h.removes hjs] at hq
    exact ⟨hjs, (Except.ok.inj hq).symm⟩
  · obtain ⟨e, he⟩ := h.refuses hjs
    rw [he] at hq
    cases hq

/-- The rows of a problem fit when columns are deleted, with the columns under their new numbers. -/
theorem fits_withoutColumns {js : List Int} (hjs : Deletable p.columnCount js) {r : Row α}
    (h : r.Fits p.columnCount) :
    (r.dropColumns (js.map Int.toNat)).Fits (p.withoutColumns js).columnCount := by
  have hpos : ∀ j ∈ js, 1 ≤ j := fun j hj => (hjs.range j hj).1
  have hnumbers := (keepsColumns hjs).numbers
  have hmoved : ∀ {e e' : Nat × α}, moved? js e = some e' →
      (e.1 : Int) ∉ js ∧ e'.1 = newNumber js e.1 ∧ e'.2 = e.2 := by
    intro e e' he
    unfold moved? at he
    split_ifs at he with hmem
    cases he
    exact ⟨hmem, rfl, rfl⟩
  refine ⟨?_, fun e he => ?_, fun e he => ?_⟩
  · rw [Row.coefs_dropColumns_eq hpos, List.Nodup, List.pairwise_map, List.pairwise_filterMap]
    refine (List.pairwise_map.1 h.nodup).imp fun hne e he e' he' heq => ?_
    obtain ⟨hmem, hnew, -⟩ := hmoved he
    obtain ⟨hmem', hnew', -⟩ := hmoved he'
    rw [hnew, hnew'] at heq
    exact hne (newNumber_inj hpos hjs.nodup hmem hmem' heq)
  · rw [Row.coefs_dropColumns_eq hpos] at he
    obtain ⟨d, hd, hde⟩ := List.mem_filterMap.1 he
    obtain ⟨hmem, hnew, -⟩ := hmoved hde
    obtain ⟨hdpos, hdle⟩ := h.range d hd
    exact (hnumbers.range e.1).2 ⟨d.1, ⟨hdpos, hdle, hmem⟩, hnew.symm⟩
  · rw [Row.coefs_dropColumns_eq hpos] at he
    obtain ⟨d, hd, hde⟩ := List.mem_filterMap.1 he
    rw [(hmoved hde).2.2]
    exact h.nonzero d hd

theorem becomes_deleteColumns {js : List Int} (hq : p.deleteColumns js = .ok q) :
    p.Becomes B p.strict q := by
  obtain ⟨hjs, rfl⟩ := removal_columns.eq_of_ok hq
  refine ⟨rfl, fun h => ⟨?_, fun c hc => h.columns c (mem_of_mem_without hc), ?_⟩⟩
  · exact List.forall_mem_map.2 fun r hr => fits_withoutColumns hjs (h.fits r hr)
  · exact List.forall_mem_map.2 h.rows

theorem becomes_deleteRows {is : List Int} (hq : p.deleteRows is = .ok q) :
    p.Becomes B p.strict q := by
  obtain ⟨-, rfl⟩ := removal_rows.eq_of_ok hq
  exact ⟨rfl, fun h => ⟨fun r hr => h.fits r (mem_of_mem_without hr), h.columns,
    fun r hr => h.rows r (mem_of_mem_without hr)⟩⟩

/-! ### Bounds and coefficients -/

/-- A checked change of one column. -/
theorem becomes_column {f : Column α → Column α} {j : Int}
    (hf : ∀ c, B c.bound c.lower c.upper → B (f c).bound (f c).lower (f c).upper)
    (hq : (do let _ ← p.column j; return p.modifyColumn j f) = Except.ok q) :
    p.Becomes B p.strict q := by
  obtain ⟨c, -, hq⟩ := except_bind_eq_ok.1 hq
  cases hq
  exact ⟨rfl, fun h => h.modifyColumn j hf⟩

theorem becomes_setColumnBounds (hB : Ensures B p.strict) {j code : Int} {l u : α}
    (hq : p.setColumnBoundsByCode j code l u = .ok q) : p.Becomes B p.strict q := by
  obtain ⟨c, -, hq⟩ := except_bind_eq_ok.1 hq
  cases hkind : BoundKind.ofCode? code with
  | none =>
    rw [hkind] at hq
    cases hq
  | some kind =>
    rw [hkind] at hq
    obtain ⟨d, -, hq⟩ := except_bind_eq_ok.1 hq
    dsimp only at hq
    split_ifs at hq with hrefused
    cases hq
    have hpassed := hB p kind l u rfl (by simpa using hrefused)
    exact ⟨rfl, fun h => h.modifyColumn j fun _ _ => hpassed⟩

theorem becomes_setRowBounds (hB : Ensures B p.strict) {i code : Int} {l u : α}
    (hq : p.setRowBoundsByCode i code l u = .ok q) : p.Becomes B p.strict q := by
  obtain ⟨r, -, hq⟩ := except_bind_eq_ok.1 hq
  cases hkind : BoundKind.ofCode? code with
  | none =>
    rw [hkind] at hq
    cases hq
  | some kind =>
    rw [hkind] at hq
    obtain ⟨d, -, hq⟩ := except_bind_eq_ok.1 hq
    dsimp only at hq
    split_ifs at hq with hrefused
    cases hq
    have hpassed := hB p kind l u rfl (by simpa using hrefused)
    exact ⟨rfl, fun h => h.modifyRow i (fun _ hr => ⟨hr.nodup, hr.range, hr.nonzero⟩)
      fun _ _ => hpassed⟩

theorem becomes_setCost {j : Int} {cost : α} (hq : p.setCost j cost = .ok q) :
    p.Becomes B p.strict q := by
  unfold setCost at hq
  split_ifs at hq
  · cases hq
    exact ⟨rfl, fun h => h.congr rfl rfl⟩
  · exact becomes_column (f := fun c => { c with cost := cost }) (fun _ h => h) hq

theorem becomes_setColumnKind {j code : Int} (hq : p.setColumnKindByCode j code = .ok q) :
    p.Becomes B p.strict q := by
  unfold setColumnKindByCode at hq
  cases hkind : ColumnKind.ofCode? code with
  | none =>
    rw [hkind] at hq
    cases hq
  | some kind =>
    rw [hkind] at hq
    exact becomes_column (f := fun c => { c with kind := kind }) (fun _ h => h) hq

theorem becomes_setDirection {code : Int} (hq : p.setDirectionByCode code = .ok q) :
    p.Becomes B p.strict q := by
  unfold setDirectionByCode at hq
  cases hd : Direction.ofCode? code with
  | none =>
    rw [hd] at hq
    cases hq
  | some d =>
    rw [hd] at hq
    cases hq
    exact ⟨rfl, fun h => h.congr rfl rfl⟩

theorem becomes_setRowName {i : Int} {name : String} (hq : p.setRowName i name = .ok q) :
    p.Becomes B p.strict q := by
  obtain ⟨r, -, hq⟩ := except_bind_eq_ok.1 hq
  cases hq
  exact ⟨rfl, fun h => h.modifyRow i (fun _ hr => ⟨hr.nodup, hr.range, hr.nonzero⟩) fun _ h => h⟩

theorem checkCoefs_eq (i : Int) (es : List (Int × α)) (seen : List Int) :
    p.checkCoefs i seen es = checkNumbers p.column (.rowDuplicate i) seen (es.map (·.1)) := by
  induction es generalizing seen with
  | nil => rfl
  | cons e es ih => simp only [checkCoefs, checkNumbers, List.map_cons, ih]

/-- Coefficients that pass the check, without those that are zero. -/
theorem fits_of_checkCoefs {i : Int} {js : List Int} {xs : List α} (hlength : js.length = xs.length)
    (h : p.checkCoefs i [] (js.zip xs) = .ok ()) (r : Row α) :
    ({ r with coefs := ((js.map Int.toNat).zip xs).filter fun e => !(e.2 == 0) } : Row α).Fits
      p.columnCount := by
  have hlook : ∀ j, (∃ c, p.column j = .ok c) ↔ 1 ≤ j ∧ j ≤ p.columnCount := fun j => by
    rw [column_eq]
    exact exists_entryAt
  rw [checkCoefs_eq, checkNumbers_eq_ok hlook, List.map_fst_zip hlength.le] at h
  obtain ⟨hjs, -⟩ := h
  have hpos : ∀ j ∈ js, 1 ≤ j := fun j hj => (hjs.range j hj).1
  have hkeys : ((js.map Int.toNat).zip xs).map (·.1) = js.map Int.toNat :=
    List.map_fst_zip (by simp [hlength])
  have hnodup : (js.map Int.toNat).Nodup := by
    refine hjs.nodup.map_on fun a ha b hb hab => ?_
    have := hpos a ha
    have := hpos b hb
    omega
  refine ⟨?_, fun e he => ?_, fun e he => ?_⟩
  · rw [← hkeys] at hnodup
    exact hnodup.sublist (List.filter_sublist.map _)
  · have hmem : e.1 ∈ js.map Int.toNat := (List.of_mem_zip (List.mem_filter.1 he).1).1
    have := hjs.range _ ((mem_map_toNat hpos).1 hmem)
    omega
  · simpa using (List.mem_filter.1 he).2

theorem becomes_setMatrixRow {i : Int} {js : List Int} {xs : List α}
    (hq : p.setMatrixRow i js xs = .ok q) : p.Becomes B p.strict q := by
  obtain ⟨r, -, hq⟩ := except_bind_eq_ok.1 hq
  split_ifs at hq with hlength
  obtain ⟨_, hchecked, hq⟩ := except_bind_eq_ok.1 hq
  cases hq
  rw [not_not] at hlength
  exact ⟨rfl, fun h => h.modifyRow i (fun r _ => fits_of_checkCoefs hlength hchecked r) fun _ h => h⟩

/-! ### Calls in a row -/

theorem Call.becomes (c : Call α) (hB : Ensures B (c.checkedUnder p.strict))
    (hq : c.edit p = .ok q) : p.Becomes B (c.strictAfter p.strict) q := by
  induction c generalizing p q with
  | addColumns => exact becomes_addColumns hB hq
  | addRows => exact becomes_addRows hB hq
  | deleteColumns => exact becomes_deleteColumns hq
  | deleteRows => exact becomes_deleteRows hq
  | setColumnBounds => exact becomes_setColumnBounds hB hq
  | setRowBounds => exact becomes_setRowBounds hB hq
  | setColumnKind => exact becomes_setColumnKind hq
  | setMatrixRow => exact becomes_setMatrixRow hq
  | setDirection => exact becomes_setDirection hq
  | setCost => exact becomes_setCost hq
  | setColumnName j name =>
    exact becomes_column (f := fun c => { c with name := name }) (fun _ h => h) hq
  | setRowName => exact becomes_setRowName hq
  | setName | forgetBasis | copy | check | store =>
    cases hq
    exact ⟨rfl, fun h => h.congr rfl rfl⟩
  | suspended call ih =>
    obtain ⟨r, hr, hq⟩ := except_bind_eq_ok.1 hq
    cases hq
    have hinner := ih (p := { p with strict := false }) hB hr
    exact ⟨rfl, fun h => (hinner.consistent (h.congr rfl rfl)).congr rfl rfl⟩

/-- One call keeps a problem consistent, also when it is refused. -/
theorem Consistent.perform (h : p.Consistent B) (c : Call α)
    (hB : Ensures B (c.checkedUnder p.strict)) : (c.perform p).Consistent B := by
  obtain hq | ⟨-, hp⟩ := c.perform_cases p
  · exact (c.becomes hB hq).consistent h
  · rwa [hp]

theorem Call.KeepsCheck.perform {c : Call α} (hc : c.KeepsCheck) (hp : p.strict = true) :
    (c.perform p).strict = true := by
  obtain hq | ⟨-, hsame⟩ := c.perform_cases p
  · have hany : Ensures (fun _ (_ _ : α) => True) (c.checkedUnder p.strict) :=
      fun _ _ _ _ _ _ => trivial
    rw [(c.becomes hany hq).strict, hp]
    exact hc.strictAfter
  · rwa [hsame]

/-- While the check is on, no double bounds are stored that leave no room. -/
theorem ensures_roomy : Ensures (fun kind (l u : α) => kind = .double → l < u) true := by
  rintro p kind l u hs hpassed rfl
  rw [refuses, hs] at hpassed
  exact of_not_not fun hlt => by simp [hlt] at hpassed

theorem ensures_suits (s : Bool) : Ensures (fun kind (l u : α) => kind.Suits l u) s :=
  fun _ kind l u _ _ => kind.suits_sides l u

theorem reached_suits (calls : List (Call α)) :
    (reached calls).Consistent fun kind l u => kind.Suits l u :=
  List.foldlRecOn calls Call.perform .empty fun _ h c _ => h.perform c (ensures_suits _)

theorem reached_roomy {calls : List (Call α)} (hcalls : ∀ c ∈ calls, c.KeepsCheck) :
    (reached calls).strict = true ∧
      (reached calls).Consistent fun kind l u => kind = .double → l < u := by
  have hempty : ({} : Problem α).Consistent fun kind l u => kind = .double → l < u := .empty
  refine List.foldlRecOn (motive := fun p : Problem α =>
    p.strict = true ∧ p.Consistent fun kind l u => kind = .double → l < u)
    calls Call.perform ⟨rfl, hempty⟩ fun p ⟨hstrict, h⟩ c hc => ?_
  have hkeeps := hcalls c hc
  refine ⟨hkeeps.perform hstrict, h.perform c ?_⟩
  rw [hkeeps.checkedUnder, hstrict]
  exact ensures_roomy

end Problem

/-! ### The matrix, written coefficient by coefficient -/

/-- A number put at a place, counted from zero; places outside are refused. -/
def put? (xs : List α) (j : Int) (x : α) : Option (List α) :=
  if 0 ≤ j ∧ j < xs.length then some (xs.set j.toNat x) else none

/-- The coefficients of a row, put over `n` zeros in the order in which they are stored. -/
def Row.written? (n : Nat) (r : Row α) : Option (List α) :=
  r.coefs.foldlM (fun xs e => put? xs ((e.1 : Int) - 1) e.2) (List.replicate n 0)

/-- All rows of the matrix, unless a coefficient lies outside of its shape. -/
def Problem.written? (p : Problem α) : Option (List (List α)) :=
  p.rows.mapM fun r => r.written? p.columnCount

omit [Scalar α] in
/-- Coefficients in distinct columns are all put, and nothing else is. -/
theorem foldlM_put (n : Nat) (es : List (Nat × α)) (hrange : ∀ e ∈ es, 0 < e.1 ∧ e.1 ≤ n)
    (hnodup : (es.map (·.1)).Nodup) (f : Nat → α) :
    es.foldlM (fun xs e => put? xs ((e.1 : Int) - 1) e.2) ((List.range n).map f) =
      some ((List.range n).map fun j => (es.lookup (j + 1)).getD (f j)) := by
  induction es generalizing f with
  | nil => rfl
  | cons e es ih =>
    obtain ⟨k, x⟩ := e
    rw [List.forall_mem_cons] at hrange
    rw [List.map_cons, List.nodup_cons] at hnodup
    obtain ⟨⟨hk, hkn⟩, hrange⟩ := hrange
    have hput : put? ((List.range n).map f) ((k : Int) - 1) x =
        some ((List.range n).map (Function.update f (k - 1) x)) := by
      rw [put?, if_pos (by simp only [List.length_map, List.length_range]; omega)]
      have hindex : ((k : Int) - 1).toNat = k - 1 := by omega
      rw [hindex]
      refine congrArg some (List.ext_getElem (by simp) fun j hj hj' => ?_)
      rw [List.getElem_set, List.getElem_map, List.getElem_map, List.getElem_range]
      by_cases h : k - 1 = j
      · rw [if_pos h, ← h, Function.update_self]
      · rw [if_neg h, Function.update_of_ne (Ne.symm h)]
    have hnone : es.lookup k = none := by
      rw [List.lookup_eq_none_iff]
      rintro ⟨i, y⟩ hmem
      have : k ≠ i := fun h => hnodup.1 (List.mem_map.2 ⟨_, hmem, h.symm⟩)
      simpa using this
    rw [List.foldlM_cons, hput]
    refine (ih hrange hnodup.2 _).trans (congrArg some (List.map_congr_left fun j _ => ?_))
    rw [lookup_cons_ite]
    by_cases h : j + 1 = k
    · have hj : j = k - 1 := by omega
      rw [if_pos h, h, hnone, Option.getD_none, hj, Function.update_self, Option.getD_some]
    · rw [if_neg h, Function.update_of_ne (by omega)]

theorem Row.Fits.written_eq {n : Nat} {r : Row α} (h : r.Fits n) :
    r.written? n = some (r.dense n) := by
  have hzeros : List.replicate n (0 : α) = (List.range n).map fun _ => 0 := by simp
  rw [Row.written?, hzeros, foldlM_put n r.coefs h.range h.nodup]
  rfl

namespace Problem

variable {p : Problem α}

theorem written_eq (h : ∀ r ∈ p.rows, r.Fits p.columnCount) : p.written? = some p.matrix := by
  unfold written? matrix
  generalize p.rows = rs at h
  induction rs with
  | nil => rfl
  | cons r rs ih =>
    rw [List.forall_mem_cons] at h
    rw [List.mapM_cons, h.1.written_eq, ih h.2]
    rfl

/-! ### Questions -/

/-- Questions about a column or a row in range have an answer, whatever values and statuses are
stored. -/
structure Answers (p : Problem α) : Prop where
  constant : ∃ x, p.cost 0 = .ok x
  column : ∀ j : Int, 1 ≤ j → j ≤ p.columnCount →
    (∃ c, p.column j = .ok c) ∧ (∃ x, p.cost j = .ok x) ∧ (∃ es, p.matrixColumn j = .ok es) ∧
      (∃ b, p.columnBasis j = .ok b) ∧ ∀ values, ∃ x, p.columnValue values j = .ok x
  row : ∀ i : Int, 1 ≤ i → i ≤ p.rowCount →
    (∃ r, p.row i = .ok r) ∧ (∃ es, p.matrixRow i = .ok es) ∧ (∃ b, p.rowBasis i = .ok b) ∧
      ∀ values, ∃ x, p.rowValue values i = .ok x

theorem answers (p : Problem α) : p.Answers where
  constant := ⟨p.constant, rfl⟩
  column j hj hn := by
    obtain ⟨c, hc⟩ : ∃ c, p.column j = .ok c := by
      rw [column_eq]
      exact exists_entryAt.2 ⟨hj, hn⟩
    have hcost : p.cost j = .ok c.cost := by
      rw [cost, if_neg (by omega), hc]
      rfl
    refine ⟨⟨c, hc⟩, ⟨_, hcost⟩, ?_, ?_, fun values => ?_⟩
    · exact ⟨_, by rw [matrixColumn, hc]; rfl⟩
    · exact ⟨_, by rw [columnBasis, hc]; rfl⟩
    · exact ⟨_, by rw [columnValue, hc]; rfl⟩
  row i hi hn := by
    obtain ⟨r, hr⟩ : ∃ r, p.row i = .ok r := by
      rw [row_eq]
      exact exists_entryAt.2 ⟨hi, hn⟩
    refine ⟨⟨r, hr⟩, ?_, ?_, fun values => ?_⟩
    · exact ⟨_, by rw [matrixRow, hr]; rfl⟩
    · exact ⟨_, by rw [rowBasis, hr]; rfl⟩
    · exact ⟨_, by rw [rowValue, hr]; rfl⟩

/-! ### Every problem that calls lead to -/

/-- What is stored fits together. Each row lists distinct columns of the problem with coefficients
that are not zero, so that writing them one by one gives the matrix and leaves its shape nowhere;
stored bounds match their kind; questions are answered. -/
structure Sound (p : Problem α) : Prop where
  fits : ∀ r ∈ p.rows, r.Fits p.columnCount
  columnBounds : ∀ c ∈ p.columns, c.bound.Suits c.lower c.upper
  rowBounds : ∀ r ∈ p.rows, r.bound.Suits r.lower r.upper
  written : p.written? = some p.matrix
  answers : p.Answers

/-- Double bounds leave room between them, and none are reported as bad. -/
structure Roomy (p : Problem α) : Prop where
  columns : ∀ c ∈ p.columns, c.bound = .double → c.lower < c.upper
  rows : ∀ r ∈ p.rows, r.bound = .double → r.lower < r.upper
  reported : p.badBounds = none

theorem crossed_eq_false {kind : BoundKind} {l u : α} (h : kind = .double → l < u) :
    crossed kind l u = false := by
  by_cases hk : kind = .double
  · simp [crossed, h hk]
  · simp [crossed, hk]

/-- Whatever is called, what is stored fits together; and double bounds leave room unless one of
the calls switches the check off. -/
theorem reached_sound (calls : List (Call α)) :
    (reached calls).Sound ∧ ((∀ c ∈ calls, c.KeepsCheck) → (reached calls).Roomy) := by
  have hsuits := reached_suits calls
  refine ⟨⟨hsuits.fits, hsuits.columns, hsuits.rows, written_eq hsuits.fits, answers _⟩,
    fun hcalls => ?_⟩
  obtain ⟨-, hroomy⟩ := reached_roomy hcalls
  refine ⟨hroomy.columns, hroomy.rows, badBounds_eq_none_iff.2 ⟨fun c hc => ?_, fun r hr => ?_⟩⟩
  · exact crossed_eq_false (hroomy.columns c hc)
  · exact crossed_eq_false (hroomy.rows r hr)

/-- Three columns and a row that has coefficients in the outer ones; the column between them is
deleted. Bounds without room, a column that is not there and a column that is named twice are refused
on the way. -/
def thinned : List (Call Extended) :=
  [.addColumns 3, .addRows 1, .setColumnBounds 1 4 (rat 0) (rat 2),
    .setColumnBounds 3 4 (rat 2) (rat 2), .setMatrixRow 1 [1, 2, 3] [rat 2, rat 0, rat 5],
    .setMatrixRow 1 [1, 1] [rat 2, rat 5], .setRowBounds 1 5 (rat 7) (rat 9), .deleteColumns [2],
    .deleteColumns [1, 3], .setColumnBounds 2 5 (rat 1) (rat 3)]

example : (reached thinned).rows.map (·.coefs) = [[(1, rat 2), (2, rat 5)]] := rfl

theorem reached_sound_thinned : (reached thinned).columnCount = 2 ∧
    (∀ c ∈ thinned, c.KeepsCheck) ∧ (reached thinned).Sound ∧ (reached thinned).Roomy := by
  have hchecks : ∀ c ∈ thinned, c.KeepsCheck := by simp [thinned, Call.KeepsCheck]
  exact ⟨by decide +kernel, hchecks, (reached_sound thinned).1, (reached_sound thinned).2 hchecks⟩

end Problem

end MixedInteger
