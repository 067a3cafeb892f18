import MixedInteger.Job.Description
import MixedInteger.Proofs.Model.Declaration
import MixedInteger.Proofs.Steps

/-! Models described by data. What a description says is stated on the data: which values each
variable may have, which rows hold, what the objective is worth. Building goes through for every
description that is in order, from whatever model there was before, and the model then says what
the description says; a description that is not in order is refused as such. Numbers may be
anything that reads as a number. Variables are numbered in the order of their declarations, so a
point by identity is a point by name. -/

namespace MixedInteger

open Extended

/-! ### Identities of names -/

/-- Names with the identities that their variables get, in order. -/
def inOrder (names : List String) : Declared :=
  names.zipIdx.map fun e => (e.1, ⟨((e.2 + 1 : ℕ) : ℤ)⟩)

/-- The identity of the variable of a name. -/
def placed (names : List String) (s : String) : VariableIndex := ⟨((names.idxOf s + 1 : ℕ) : ℤ)⟩

theorem inOrder_concat (names : List String) (s : String) :
    inOrder (names ++ [s]) = inOrder names ++ [(s, ⟨((names.length + 1 : ℕ) : ℤ)⟩)] := by
  simp [inOrder, List.zipIdx_append]

theorem inOrder_names (names : List String) : (inOrder names).map (·.1) = names := by
  induction names using List.reverseRecOn with
  | nil => rfl
  | append_singleton names s ih => rw [inOrder_concat, List.map_append, ih]; rfl

theorem inOrder_indices (names : List String) : (inOrder names).map (·.2) =
    (List.range names.length).map fun (i : ℕ) => ⟨((i + 1 : ℕ) : ℤ)⟩ := by
  induction names using List.reverseRecOn with
  | nil => rfl
  | append_singleton names s ih =>
    rw [inOrder_concat, List.map_append, ih, List.length_append, List.length_singleton,
      List.range_succ, List.map_append]
    rfl

theorem mem_inOrder {names : List String} {e : String × VariableIndex} :
    e ∈ inOrder names ↔ ∃ i : ℕ, names[i]? = some e.1 ∧ e.2 = ⟨((i + 1 : ℕ) : ℤ)⟩ := by
  obtain ⟨s, v⟩ := e
  simp only [inOrder, List.mem_map, Prod.mk.injEq, Prod.exists, List.mem_zipIdx_iff_getElem?]
  constructor
  · rintro ⟨t, i, hi, rfl, rfl⟩
    exact ⟨i, hi, rfl⟩
  · rintro ⟨i, hi, rfl⟩
    exact ⟨s, i, hi, rfl, rfl⟩

theorem lookup_inOrder (names : List String) (s : String) :
    (inOrder names).lookup s = if s ∈ names then some (placed names s) else none := by
  induction names using List.reverseRecOn with
  | nil => rfl
  | append_singleton names t ih =>
    rw [inOrder_concat, List.lookup_append, ih]
    by_cases hs : s ∈ names
    · simp [hs, placed, List.idxOf_append_of_mem hs]
    · by_cases ht : s = t
      · subst ht
        simp [hs, placed, List.idxOf_append_of_notMem hs]
      · have hbeq : (s == t) = false := by simpa using ht
        simp [hs, ht, hbeq, List.lookup]

theorem placed_mem {names : List String} {s : String} (hs : s ∈ names) :
    (s, placed names s) ∈ inOrder names :=
  mem_inOrder.2 ⟨names.idxOf s, List.getElem?_idxOf hs, rfl⟩

/-- A point by identity and one by name are the same. -/
def SamePoint (names : List String) (z : Assignment) (w : String → ℚ) : Prop :=
  ∀ e ∈ inOrder names, z e.2 = w e.1

/-! ### Terms by name -/

/-- Terms by name as terms by identity. -/
def spelled (names : List String) (ts : List (ℚ × String)) : List (Term Extended) :=
  ts.map fun t => ⟨rat t.1, placed names t.2⟩

/-- The value of terms by name. -/
def namedSum (ts : List (ℚ × String)) (w : String → ℚ) : ℚ := (ts.map fun t => t.1 * w t.2).sum

section
variable {names : List String} {ts : List (ℚ × String)} (hts : ∀ t ∈ ts, t.2 ∈ names)
include hts

theorem valueAt_spelled {z : Assignment} {w : String → ℚ} (hzw : SamePoint names z w) (k : ℚ) :
    (⟨spelled names ts, rat k⟩ : AffineFunction Extended).valueAt z = k + namedSum ts w := by
  rw [AffineFunction.valueAt, spelled, List.map_map, namedSum]
  refine congrArg (fun xs => k + List.sum xs) (List.map_congr_left fun t ht => ?_)
  exact congrArg (t.1 * ·) (hzw _ (placed_mem (hts t ht)))

theorem spans_spelled (k : ℚ) :
    (⟨spelled names ts, rat k⟩ : AffineFunction Extended).Spans names.length where
  rational := ⟨isRat_rat k, fun t ht => by
    obtain ⟨u, -, rfl⟩ := List.mem_map.1 ht
    exact isRat_rat _⟩
  within t ht := by
    obtain ⟨u, hu, rfl⟩ := List.mem_map.1 ht
    have := List.idxOf_lt_length_of_mem (hts u hu)
    simp only [placed]
    omega

end

/-! ### Models from declarations -/

section
variable {β : Type} (name : β → String) (declaration : β → Declaration)

/-- The variables of declarations. -/
def draftedAll (xs : List β) : List DraftVariable :=
  xs.map fun x => (declaration x).drafted (name x)

theorem draftedAll_names (xs : List β) :
    (draftedAll name declaration xs).map (·.name) = xs.map name := by
  simp [draftedAll, Declaration.drafted_name]

variable {m : Model Extended} {d : Draft} {xs : List β} (h : m.Follows d)
  (hd : d.vars = draftedAll name declaration xs)
include h hd

/-- The model is satisfied when the declarations and the rows hold. -/
theorem Model.Follows.satisfied_named {z : Assignment} {w : String → ℚ}
    (hzw : SamePoint (xs.map name) z w) (hrange : ∀ x ∈ xs, (declaration x).InRange (w (name x))) :
    m.Satisfied z ↔ (∀ x ∈ xs, (declaration x).Holds (w (name x))) ∧
      ∀ e ∈ d.rows, e.2.Contains (e.1.valueAt z) := by
  rw [h.satisfied_iff]
  refine and_congr ?_ Iff.rfl
  have hvalue : ∀ {i : ℕ} {x : β}, xs[i]? = some x → z ⟨((i + 1 : ℕ) : ℤ)⟩ = w (name x) :=
    fun {i x} hi => hzw (name x, _) (mem_inOrder.2 ⟨i, by simp [hi], rfl⟩)
  constructor
  · intro hall x hx
    obtain ⟨i, hi⟩ := List.mem_iff_getElem?.1 hx
    have hadmits := hall ⟨((i + 1 : ℕ) : ℤ)⟩ _ (nth?_eq_some.2 ⟨i, rfl, by
      rw [hd, draftedAll, List.getElem?_map, hi, Option.map_some]⟩)
    rwa [hvalue hi, (declaration x).admits_drafted _ (hrange x hx)] at hadmits
  · intro hall v y hy
    obtain ⟨i, hv, hi⟩ := nth?_eq_some.1 hy
    rw [hd, draftedAll, List.getElem?_map] at hi
    obtain ⟨x, hx, rfl⟩ := Option.map_eq_some_iff.1 hi
    have hmem := List.mem_of_getElem? hx
    rw [show v = ⟨((i + 1 : ℕ) : ℤ)⟩ from congrArg VariableIndex.mk hv, hvalue hx,
      (declaration x).admits_drafted _ (hrange x hmem)]
    exact hall x hmem

theorem Model.Follows.indices_named : (inOrder (xs.map name)).map (·.2) = m.variableIndices := by
  rw [inOrder_indices, h.variableIndices, hd, draftedAll, List.length_map, List.length_map]

theorem Model.Follows.found_by_name (hdistinct : (xs.map name).Nodup)
    {e : String × VariableIndex} (he : e ∈ inOrder (xs.map name)) (hne : e.1 ≠ "") :
    ∃ m', Modelling.variableByName e.1 m = .ok (some (.var e.2)) m' := by
  obtain ⟨i, hi, hv⟩ := mem_inOrder.1 he
  rw [List.getElem?_map] at hi
  obtain ⟨x, hx, hname⟩ := Option.map_eq_some_iff.1 hi
  have hnth : nth? d.vars e.2.value = some ((declaration x).drafted (name x)) :=
    nth?_eq_some.2 ⟨i, by rw [hv], by rw [hd, draftedAll, List.getElem?_map, hx, Option.map_some]⟩
  have hfound := h.variableByName (by rwa [hd, draftedAll_names]) hnth
  rw [Declaration.drafted_name, hname] at hfound
  exact hfound hne

end

/-! ### Parts of data -/

namespace Value

/-- The rational number that a value stands for. -/
def rational? (v : Value Extended) : Option ℚ :=
  match v.toReal with
  | .ok (rat q) => some q
  | _ => none

def rational (v : Value Extended) : ℚ := v.rational?.getD 0

/-- The elements of a list; what counts as false is an empty one. -/
def listed? (v : Value Extended) : Option (List (Value Extended)) :=
  if v.truthy then v.elements? else some []

/-- The entries of a mapping; what counts as false is an empty one. -/
def mapped? (v : Value Extended) : Option (List (Value Extended × Value Extended)) :=
  if v.truthy then
    match v with
    | .map es => some es
    | _ => none
  else some []

theorem toReal_of_rational? {v : Value Extended} (h : v.rational?.isSome = true) :
    v.toReal = .ok (rat v.rational) := by
  rw [rational, rational?] at *
  cases hv : v.toReal with
  | error e => simp [hv] at h
  | ok x => cases x <;> simp_all

end Value

namespace Description

open Modelling

/-! ### What a description says -/

variable (v item : Value Extended)

def variableItems : List (Value Extended) := ((v.field "variables").listed?).getD []

def constraintItems : List (Value Extended) := ((v.field "constraints").listed?).getD []

def objectiveItem : Value Extended := .map (((v.field "objective").mapped?).getD [])

/-- The terms of a constraint or an objective, by name. -/
def entriesOf : List (Value Extended × Value Extended) := ((item.field "terms").mapped?).getD []

def coefficients : List (ℚ × String) := (entriesOf item).map fun e => (e.2.rational, e.1.shown)

def nameOf : String := (item.field "name").shown

def names : List String := (variableItems v).map nameOf

def typeWord : String := Text.lower (item.fieldOr "type" (.text "continuous")).shown

def typeOf : TypeState :=
  if typeWord item = "integer" then .integer
  else if typeWord item = "binary" then .binary
  else .continuous

/-- A bound that is given and not null. -/
def boundOf (key : String) : Option ℚ :=
  match item.field key with
  | .null => none
  | x => some x.rational

/-- What is said of a variable. -/
def declaration : Declaration where
  fixed := (item.field? "fixed").map Value.rational
  lower := boundOf item "lower"
  upper := boundOf item "upper"
  type := typeOf item

def senseWord : String := (item.fieldOr "sense" (.text "<=")).shown

def rhsOf : ℚ := (item.fieldOr "rhs" (.real 0)).rational

/-- What a sense says of a left and a right-hand side. -/
def Compares (sense : String) (left right : ℚ) : Prop :=
  if sense = "<=" then left ≤ right
  else if sense = ">=" then right ≤ left
  else left = right

def goalWord : String := Text.upper (v.fieldOr "sense" (.text "min")).shown

/-- All variables have values that they may have, and all rows hold. -/
def SatisfiedBy (w : String → ℚ) : Prop :=
  (∀ item ∈ variableItems v, (declaration item).Holds (w (nameOf item))) ∧
    ∀ item ∈ constraintItems v, Compares (senseWord item) (namedSum (coefficients item) w) (rhsOf item)

def objectiveAt (w : String → ℚ) : ℚ :=
  (((objectiveItem v).fieldOr "constant" (.real 0)).rational) + namedSum (coefficients (objectiveItem v)) w

/-! ### Descriptions in order -/

/-- Terms stand in a mapping, and their coefficients are numbers. -/
structure Linear : Prop where
  mapping : (item.field "terms").mapped?.isSome = true
  coefficient : ∀ e ∈ entriesOf item, e.2.rational?.isSome = true

/-- The parts of a description are lists and mappings where they are read as such, and what is
given for a number is one. -/
structure Regular : Prop where
  mapping : ∃ es, v = .map es
  variableList : (v.field "variables").listed?.isSome = true
  constraintList : (v.field "constraints").listed?.isSome = true
  objectiveMapping : (v.field "objective").mapped?.isSome = true
  fixed : ∀ item ∈ variableItems v, ∀ x, item.field? "fixed" = some x → x.rational?.isSome = true
  bounds : ∀ item ∈ variableItems v, ∀ key ∈ ["lower", "upper"],
    item.field key ≠ .null → (item.field key).rational?.isSome = true
  rows : ∀ item ∈ constraintItems v, Linear item
  rhs : ∀ item ∈ constraintItems v, ∀ x, item.field? "rhs" = some x →
    x.rational?.isSome = true
  goal : Linear (objectiveItem v)
  constant : ∀ x, (objectiveItem v).field? "constant" = some x → x.rational?.isSome = true

/-- The terms name variables of the description. -/
def Declares (names : List String) : Prop :=
  ∀ e ∈ entriesOf item, ∃ s, e.1 = .text s ∧ s ∈ names

/-- Every variable has a name of its own and a type that is known; every constraint is a mapping
with a sense that is known, over variables of the description; so is the objective. -/
structure Proper : Prop where
  named : ∀ item ∈ variableItems v, (item.field? "name").isSome = true
  distinct : (names v).Nodup
  typed : ∀ item ∈ variableItems v, typeWord item ∈ ["continuous", "integer", "binary"]
  mappings : ∀ item ∈ constraintItems v, ∃ es, item = .map es
  senses : ∀ item ∈ constraintItems v, senseWord item ∈ ["<=", ">=", "==", "="]
  declared : ∀ item ∈ constraintItems v, Declares item (names v)
  goal : ∃ sense : ObjectiveSense, sense.text = goalWord v
  objective : Declares (objectiveItem v) (names v)

/-- The model says what the description says, at points whose values are doubles, and at all points
when no bound is as large as the largest double; there a bound counts as none. -/
structure Describes (declared : Declared) (m : Model Extended) : Prop where
  names : declared.map (·.1) = names v
  indices : declared.map (·.2) = m.variableIndices
  satisfied : ∀ (z : Assignment) (w : String → ℚ), (∀ e ∈ declared, z e.2 = w e.1) →
    (∀ item ∈ variableItems v, (declaration item).InRange (w (nameOf item))) →
    (m.Satisfied z ↔ SatisfiedBy v w)
  objective : ∀ (z : Assignment) (w : String → ℚ), (∀ e ∈ declared, z e.2 = w e.1) →
    m.objective.valueAt z = objectiveAt v w
  sense : m.objectiveSense.text = goalWord v
  found : ∀ e ∈ declared, e.1 ≠ "" → ∃ m', variableByName e.1 m = .ok (some (.var e.2)) m'

/-- A fault of the description itself. -/
def IsFormat (f : Fault Extended) : Prop := ∃ e, f = .format e

variable {v item}

/-! ### Reading -/

section
variable (m : Model Extended)

theorem entries_run (h : v.listed?.isSome = true) : entries v m = .ok (v.listed?.getD []) m := by
  rw [entries]
  unfold Value.listed? at *
  cases ht : v.truthy <;> simp_all
  cases he : v.elements? <;> simp_all

theorem mapping_run (h : v.mapped?.isSome = true) : mapping v m = .ok (v.mapped?.getD []) m := by
  unfold mapping Value.mapped? at *
  cases ht : v.truthy with
  | false => rfl
  | true =>
    rw [ht, if_pos rfl] at h
    cases v <;> first | rfl | cases h

theorem number_run (h : v.rational?.isSome = true) : number v m = .ok (rat v.rational) m := by
  rw [number, Value.toReal_of_rational? h]
  rfl

end

section
variable {m : Model Extended} {d : Draft} {x : String} (h : m.Follows (d.declare { name := x }))
include h

/-- The bounds of a variable are the sets of its declaration. -/
theorem addBounds_run
    (hfixed : ∀ x, item.field? "fixed" = some x → x.rational?.isSome = true)
    (hbounds : ∀ key ∈ ["lower", "upper"], item.field key ≠ .null →
      (item.field key).rational?.isSome = true) :
    ∃ m', addBounds (d.declare { name := x }).last item m = .ok () m' ∧ m'.Follows
      (d.declare ((declaration item).bounds.foldl DraftVariable.constrained { name := x })) := by
  obtain ⟨m', hrun, h'⟩ := h.constrainAll ((declaration item).takesAll_bounds x)
  refine ⟨m', Eq.trans ?_ hrun, h'⟩
  have hbound : ∀ key ∈ ["lower", "upper"], ∀ (set : Extended → ScalarSet Extended) (m : Model Extended),
      addBound (d.declare { name := x }).last (item.field key) set m =
        (((boundOf item key).map fun q => set (rat q)).toList.forM fun s => do
          let _ ← addConstraint (.single (d.declare { name := x }).last) (.set s)) m := by
    intro key hkey set m
    rw [boundOf]
    have hnumber := hbounds key hkey
    cases hv : item.field key with
    | null => rfl
    | _ =>
      rw [hv] at hnumber
      simp only [addBound, bind_run, number_run m (hnumber (by simp))]
      exact (forM_singleton_run _ m _).symm
  rw [addBounds]
  cases hfix : item.field? "fixed" with
  | some x =>
    simp only [bind_run, number_run m (hfixed x hfix), declaration, Declaration.bounds, hfix,
      Option.map_some]
    exact (forM_singleton_run _ m _).symm
  | none =>
    simp only [declaration, Declaration.bounds, hfix, Option.map_none]
    rw [forM_append_run, bind_run, bind_run, hbound "lower" (by simp)]
    cases (((boundOf item "lower").map fun q => ScalarSet.greaterThan (rat q)).toList.forM fun s => do
      let _ ← addConstraint (.single (d.declare { name := x }).last) (.set s)) m with
    | ok b m₁ => exact hbound "upper" (by simp) _ m₁
    | error e m₁ => rfl

end

/-! ### Variables -/

theorem ofText?_cases (s : String) :
    (s ∉ ["continuous", "integer", "binary"] ∧ VariableType.ofText? s = none) ∨
      (s = "continuous" ∧ VariableType.ofText? s = some .continuous) ∨
      (s = "integer" ∧ VariableType.ofText? s = some .integer) ∨
      s = "binary" ∧ VariableType.ofText? s = some .binary := by
  unfold VariableType.ofText?
  split <;> simp_all

/-- The sets of a type that is known. -/
theorem types_cases (item : Value Extended) :
    (typeWord item ∉ ["continuous", "integer", "binary"] ∧
        VariableType.ofText? (typeWord item) = none) ∨
      typeWord item ∈ ["continuous", "integer", "binary"] ∧
        ∃ t, VariableType.ofText? (typeWord item) = some t ∧
          t.set?.toList = (declaration item).types := by
  rcases ofText?_cases (typeWord item) with h | ⟨hs, ht⟩ | ⟨hs, ht⟩ | ⟨hs, ht⟩
  · exact .inl h
  · exact .inr ⟨by simp [hs], _, ht, by simp [declaration, Declaration.types, typeOf, hs, VariableType.set?]⟩
  · exact .inr ⟨by simp [hs], _, ht, by simp [declaration, Declaration.types, typeOf, hs, VariableType.set?]⟩
  · exact .inr ⟨by simp [hs], _, ht, by simp [declaration, Declaration.types, typeOf, hs, VariableType.set?]⟩

section
variable {m : Model Extended} {d : Draft} {ns : List String} (h : m.Follows d)
  (hlength : d.vars.length = ns.length)
include h hlength

/-- A variable is declared when it has a name that is new and a type that is known. -/
theorem declare_decides (i : ℕ)
    (hfixed : ∀ x, item.field? "fixed" = some x → x.rational?.isSome = true)
    (hbounds : ∀ key ∈ ["lower", "upper"], item.field key ≠ .null →
      (item.field key).rational?.isSome = true) :
    Decides (declare (inOrder ns) i item m)
      ((item.field? "name").isSome = true ∧ nameOf item ∉ ns ∧
        typeWord item ∈ ["continuous", "integer", "binary"])
      (fun declared m' => declared = inOrder (ns ++ [nameOf item]) ∧
        m'.Follows (d.declare ((declaration item).drafted (nameOf item)))) IsFormat := by
  unfold declare
  cases hname : item.field? "name" with
  | none => exact (Decides.of_error rfl ⟨_, rfl⟩).congr (by simp)
  | some label =>
    have hlabel : nameOf item = label.shown := by simp [nameOf, Value.field, hname]
    have hlookup : ((inOrder ns).lookup label.shown).isSome = true ↔ nameOf item ∈ ns := by
      rw [lookup_inOrder, hlabel]
      split_ifs with hmem <;> simp [hmem]
    have hok : ¬((inOrder ns).lookup label.shown).isSome = true ∧
        typeWord item ∈ ["continuous", "integer", "binary"] ↔
        (some label).isSome = true ∧ nameOf item ∉ ns ∧
          typeWord item ∈ ["continuous", "integer", "binary"] := by simp [hlookup]
    refine (Decides.guard rfl ⟨_, rfl⟩ fun _ => ?_).congr hok
    obtain ⟨m₁, hadd, h₁⟩ := h.addVariable
    obtain ⟨m₂, hcalled, h₂⟩ := h₁.setVariableName label.shown
    obtain ⟨m₃, hbound, h₃⟩ := addBounds_run h₂ hfixed hbounds
    refine .after hadd (.after hcalled ?_)
    rw [d.last_congr {} { name := label.shown }]
    refine .after hbound ?_
    rcases types_cases item with ⟨hword, ht⟩ | ⟨hword, t, ht, hset⟩
    · rw [typeWord] at ht
      simp only [ht]
      exact (Decides.of_error rfl ⟨_, rfl⟩).congr (iff_of_false not_false hword)
    · obtain ⟨m₄, htypes, h₄⟩ := h₃.constrainAll ((declaration item).takesAll_types label.shown)
      rw [← List.foldl_append, ← hlabel] at h₄
      have hdeclared : inOrder (ns ++ [nameOf item]) =
          inOrder ns ++ [(label.shown, (d.declare { name := label.shown }).last)] := by
        rw [inOrder_concat, hlabel, Draft.last_declare, hlength]
      rw [typeWord] at ht
      simp only [ht]
      rw [← hset, d.last_congr _ { name := label.shown }] at htypes
      refine Decides.congr ?_ (iff_of_true trivial hword)
      cases hs : t.set? with
      | none =>
        rw [hs] at htypes
        cases htypes
        exact .of_ok rfl ⟨hdeclared.symm, h₄⟩
      | some s =>
        rw [hs] at htypes
        exact .after ((forM_singleton_run _ m₃ s).symm.trans htypes)
          (.of_ok rfl ⟨hdeclared.symm, h₄⟩)

end

/-! ### Rows -/

/-- Terms are read when they name variables that were declared. -/
theorem terms_decides (m : Model Extended) (ns : List String) (place : Place Extended)
    (hitem : Linear item) :
    Decides (terms (inOrder ns) place (item.field "terms") m) (Declares item ns)
      (fun ts m' => ts = spelled ns (coefficients item) ∧ m' = m) IsFormat := by
  refine .after (mapping_run m hitem.mapping) (Decides.congr (Decides.mapM (entriesOf item)
    (fun _ e => ∃ s, e.1 = .text s ∧ s ∈ ns) (fun done ts m' =>
      ts = spelled ns (done.map fun e => (e.2.rational, e.1.shown)) ∧ m' = m)
    (fun done e rest hxs ts m' h' => ?_) ⟨rfl, rfl⟩) Decides.sound_forall)
  obtain ⟨rfl, rfl⟩ := h'
  obtain ⟨key, x⟩ := e
  have hx := hitem.coefficient (key, x) (by simp [hxs])
  have hnamed : Decides (variableNamed (inOrder ns) place key m') (∃ s, key = .text s ∧ s ∈ ns)
      (fun v m'' => v = placed ns key.shown ∧ m'' = m') IsFormat := by
    unfold variableNamed
    cases key
    case text s =>
      simp only [lookup_inOrder]
      split_ifs with hs
      · exact (Decides.of_ok rfl ⟨rfl, rfl⟩).congr (iff_of_true trivial ⟨s, rfl, hs⟩)
      · exact (Decides.of_error rfl ⟨_, rfl⟩).congr (by simpa using hs)
    all_goals exact (Decides.of_error rfl ⟨_, rfl⟩).congr (by simp)
  refine (hnamed.bind fun _ v m'' h'' => ?_).congr (iff_of_eq (and_true _))
  obtain ⟨rfl, rfl⟩ := h''
  exact .after (number_run m'' hx) (.of_ok rfl ⟨by simp [spelled], rfl⟩)

theorem Declares.names {ns : List String} (h : Declares item ns) :
    ∀ t ∈ coefficients item, t.2 ∈ ns := by
  intro t ht
  obtain ⟨e, he, rfl⟩ := List.mem_map.1 ht
  obtain ⟨s, hs, hmem⟩ := h e he
  rw [hs]
  exact hmem

/-- A number that is absent is zero. -/
theorem fieldOr_number {key : String}
    (h : ∀ x, item.field? key = some x → x.rational?.isSome = true) :
    (item.fieldOr key (.real 0)).rational?.isSome = true := by
  rw [Value.fieldOr]
  cases hx : item.field? key with
  | none => rfl
  | some x => exact h x hx

/-- The row of a constraint. -/
def rowOf (ns : List String) (item : Value Extended) : AffineFunction Extended × ScalarSet Extended :=
  (⟨spelled ns (coefficients item), 0⟩,
    ((rowSet? (senseWord item)).getD .lessThan) (rat (rhsOf item)))

theorem rowSet?_cases (sense : String) :
    (sense ∉ ["<=", ">=", "==", "="] ∧ (rowSet? sense : Option (Extended → _)) = none) ∨
      sense ∈ ["<=", ">=", "==", "="] ∧ ∃ set : Extended → ScalarSet Extended,
        rowSet? sense = some set ∧ (∀ r, (set r).isRow = true) ∧
          ∀ left right : ℚ, (set (rat right)).Contains left ↔ Compares sense left right := by
  unfold rowSet?
  split
  · exact .inr ⟨by simp, _, rfl, fun _ => rfl, fun _ _ => by simp [ScalarSet.Contains, Compares]⟩
  · exact .inr ⟨by simp, _, rfl, fun _ => rfl, fun _ _ => by simp [ScalarSet.Contains, Compares]⟩
  · exact .inr ⟨by simp, _, rfl, fun _ => rfl, fun _ _ => by simp [ScalarSet.Contains, Compares]⟩
  · exact .inr ⟨by simp, _, rfl, fun _ => rfl, fun _ _ => by simp [ScalarSet.Contains, Compares]⟩
  · exact .inl ⟨by simp_all, rfl⟩

/-- The row holds where the constraint does. -/
theorem contains_rowOf {ns : List String} {z : Assignment} {w : String → ℚ}
    (hzw : SamePoint ns z w) (hsense : senseWord item ∈ ["<=", ">=", "==", "="])
    (hdeclared : Declares item ns) : (rowOf ns item).2.Contains ((rowOf ns item).1.valueAt z) ↔
      Compares (senseWord item) (namedSum (coefficients item) w) (rhsOf item) := by
  have hvalue := valueAt_spelled hdeclared.names hzw 0
  rw [zero_add] at hvalue
  obtain ⟨hnot, -⟩ | ⟨-, set, hset, -, hcontains⟩ := rowSet?_cases (senseWord item)
  · exact absurd hsense hnot
  · rw [rowOf, hset, Option.getD_some, ← hcontains, ← hvalue]
    rfl

section
variable {m : Model Extended} {d : Draft} {ns : List String} (h : m.Follows d)
  (hlength : d.vars.length = ns.length)
include h hlength

/-- A constraint becomes a row when it is a mapping with a sense that is known over variables that
were declared. -/
theorem addRow_decides (i : ℕ) (hlinear : Linear item)
    (hrhs : ∀ x, item.field? "rhs" = some x → x.rational?.isSome = true) :
    Decides (addRow (inOrder ns) i item m)
      ((∃ es, item = .map es) ∧ senseWord item ∈ ["<=", ">=", "==", "="] ∧ Declares item ns)
      (fun _ m' => m'.Follows (d.addRow (rowOf ns item).1 (rowOf ns item).2)) IsFormat := by
  unfold addRow
  cases item with
  | map es =>
    suffices h : Decides _ (senseWord (.map es) ∈ ["<=", ">=", "==", "="] ∧ Declares (.map es) ns)
      _ _ from h.congr (by simp)
    obtain ⟨hnot, hset⟩ | ⟨hsense, set, hset, hrow, -⟩ := rowSet?_cases (senseWord (.map es))
    · rw [senseWord] at hset
      simp only [hset]
      exact (Decides.of_error rfl ⟨_, rfl⟩).congr (by simp [hnot])
    · have hof : rowOf ns (.map es) = (⟨spelled ns (coefficients (.map es)), 0⟩,
          set (rat (rhsOf (.map es)))) := by
        rw [rowOf, hset, Option.getD_some]
      rw [senseWord] at hset
      simp only [hset]
      suffices h : Decides _ (Declares (.map es) ns ∧ True) _ _ from h.congr (by simp [hsense])
      refine (terms_decides m ns _ hlinear).bind fun hdeclared ts m₁ h₁ => ?_
      obtain ⟨rfl, rfl⟩ := h₁
      obtain ⟨m₂, hadd, h₂⟩ := h.addAffine
        (hlength ▸ spans_spelled hdeclared.names 0 : AffineFunction.Spans ⟨_, 0⟩ _) rfl
        (hrow (rat (rhsOf (.map es))))
      refine .after (number_run m₁ (fieldOr_number hrhs)) (.after hadd ?_)
      rw [hof]
      split_ifs
      · obtain ⟨m₃, hname, h₃⟩ := h₂.setConstraintName (nth?_eq_some.2
          ⟨d.rows.length, rfl, List.getElem?_concat_length⟩) ((Value.map es).field "name").shown
        exact .of_ok hname h₃
      · exact .of_ok rfl h₂
  | _ => exact (Decides.of_error rfl ⟨_, rfl⟩).congr (by simp)

end

/-! ### Objective -/

theorem ofText?_eq_some {s : String} {sense : ObjectiveSense} :
    ObjectiveSense.ofText? s = some sense ↔ sense.text = s := by
  constructor
  · unfold ObjectiveSense.ofText?
    split <;> intro h <;> cases h <;> rfl
  · rintro rfl
    cases sense <;> rfl

theorem senseOf_decides (v : Value Extended) (m : Model Extended) :
    Decides (senseOf v m) (∃ sense : ObjectiveSense, sense.text = goalWord v)
      (fun sense m' => sense.text = goalWord v ∧ m' = m) IsFormat := by
  unfold senseOf
  cases hs : ObjectiveSense.ofText? (goalWord v) with
  | none =>
    have hnot : ¬∃ sense : ObjectiveSense, sense.text = goalWord v := by
      rintro ⟨sense, hsense⟩
      rw [ofText?_eq_some.2 hsense] at hs
      cases hs
    rw [goalWord] at hs
    simp only [hs]
    exact (Decides.of_error rfl ⟨_, rfl⟩).congr (iff_of_false not_false hnot)
  | some sense =>
    have hsense := ofText?_eq_some.1 hs
    rw [goalWord] at hs
    simp only [hs]
    exact (Decides.of_ok rfl ⟨hsense, rfl⟩).congr (iff_of_true trivial ⟨sense, hsense⟩)

section
variable {m : Model Extended} {d : Draft} {ns : List String} (h : m.Follows d)
  (hlength : d.vars.length = ns.length)
include h hlength

theorem buildObjective_decides (hmapping : (v.field "objective").mapped?.isSome = true)
    (hlinear : Linear (objectiveItem v))
    (hconstant : ∀ x, (objectiveItem v).field? "constant" = some x → x.rational?.isSome = true) :
    Decides (buildObjective (inOrder ns) v m)
      ((∃ sense : ObjectiveSense, sense.text = goalWord v) ∧ Declares (objectiveItem v) ns)
      (fun _ m' => m'.objectiveSense.text = goalWord v ∧ m'.Follows { d with
        objective := ⟨spelled ns (coefficients (objectiveItem v)),
          rat ((objectiveItem v).fieldOr "constant" (.real 0)).rational⟩ }) IsFormat := by
  unfold buildObjective
  refine (senseOf_decides v m).bind fun _ sense m₁ h₁ => ?_
  obtain ⟨hsense, rfl⟩ := h₁
  refine .after (mapping_run m₁ hmapping) (Decides.congr ?_ (iff_of_eq (and_true _)))
  refine (terms_decides m₁ ns _ hlinear).bind fun hdeclared ts m₂ h₂ => ?_
  obtain ⟨rfl, rfl⟩ := h₂
  obtain ⟨m₃, hset, h₃⟩ := h.setObjective (hlength ▸ spans_spelled hdeclared.names
    ((objectiveItem v).fieldOr "constant" (.real 0)).rational)
  refine .after (number_run m₂ (fieldOr_number hconstant)) (.after hset ?_)
  exact .of_ok rfl ⟨(congrArg _ (m₃.objectiveSense_withSense sense)).trans hsense,
    h₃.setObjectiveSense sense⟩

end

/-! ### Building -/

section
variable (hv : Regular v) {m : Model Extended} {d : Draft} (h : m.Follows d)
include hv h

/-- The variables, from none. -/
theorem variables_decide (hvars : d.vars = []) (hrows : d.rows = []) :
    Decides ((variableItems v).zipIdx.foldlM (fun declared e => declare declared e.2 e.1) [] m)
      ((∀ item ∈ variableItems v, (item.field? "name").isSome = true) ∧ (names v).Nodup ∧
        ∀ item ∈ variableItems v, typeWord item ∈ ["continuous", "integer", "binary"])
      (fun declared m' => declared = inOrder (names v) ∧ ∃ d', m'.Follows d' ∧
        d'.vars = draftedAll nameOf declaration (variableItems v) ∧ d'.rows = []) IsFormat := by
  refine Decides.congr ((Decides.foldlM (variableItems v).zipIdx
    (fun done e => (e.1.field? "name").isSome = true ∧ nameOf e.1 ∉ (done.map (·.1)).map nameOf ∧
      typeWord e.1 ∈ ["continuous", "integer", "binary"])
    (fun done declared m' => declared = inOrder ((done.map (·.1)).map nameOf) ∧
      ∃ d', m'.Follows d' ∧ d'.vars = draftedAll nameOf declaration (done.map (·.1)) ∧ d'.rows = [])
    (fun done e rest hxs declared m' h' => ?_) ⟨rfl, d, h, hvars, hrows⟩).imp ?_) ?_
  · obtain ⟨rfl, d', h', hvars', hrows'⟩ := h'
    have he : e.1 ∈ variableItems v := by
      rw [← List.zipIdx_map_fst 0 (variableItems v), hxs]
      simp
    refine (declare_decides h' (by simp [hvars', draftedAll]) e.2 (hv.fixed _ he)
      (hv.bounds _ he)).imp fun _ declared m'' h'' => ?_
    obtain ⟨rfl, h''⟩ := h''
    refine ⟨by simp, _, h'', ?_, hrows'⟩
    simp [Draft.declare, hvars', draftedAll]
  · simp [names]
  · rw [Decides.sound_zipIdx (p := fun done x => (x.field? "name").isSome = true ∧
      nameOf x ∉ done.map nameOf ∧ typeWord x ∈ ["continuous", "integer", "binary"]), names,
      ← Decides.sound_forall, ← Decides.sound_nodup, ← Decides.sound_forall]
    simp only [imp_and, forall_and]

/-- The rows, after the variables. -/
theorem rows_decide {ns : List String} (hlength : d.vars.length = ns.length) (hrows : d.rows = []) :
    Decides ((ForIn.forIn (constraintItems v).zipIdx PUnit.unit (fun (item, i) _ => do
        addRow (inOrder ns) i item
        pure (ForInStep.yield PUnit.unit)) : Modelling Extended PUnit) m)
      (∀ item ∈ constraintItems v, (∃ es, item = .map es) ∧
        senseWord item ∈ ["<=", ">=", "==", "="] ∧ Declares item ns)
      (fun _ m' => ∃ d', m'.Follows d' ∧ d'.vars = d.vars ∧
        d'.rows = (constraintItems v).map (rowOf ns)) IsFormat := by
  refine Decides.congr ((Decides.forIn (constraintItems v).zipIdx
    (fun _ e => (∃ es, e.1 = .map es) ∧ senseWord e.1 ∈ ["<=", ">=", "==", "="] ∧ Declares e.1 ns)
    (fun done m' => ∃ d', m'.Follows d' ∧ d'.vars = d.vars ∧
      d'.rows = (done.map (·.1)).map (rowOf ns))
    (fun done e rest hxs m' h' => ?_) ⟨d, h, rfl, hrows⟩).imp ?_) ?_
  · obtain ⟨d', h', hvars', hrows'⟩ := h'
    have he : e.1 ∈ constraintItems v := by
      rw [← List.zipIdx_map_fst 0 (constraintItems v), hxs]
      simp
    refine ((addRow_decides h' (hvars' ▸ hlength) e.2 (hv.rows _ he) (hv.rhs _ he)).bind
      fun _ _ m'' h'' => Decides.of_ok rfl ⟨rfl, _, h'', hvars', ?_⟩).congr (iff_of_eq (and_true _))
    simp [Draft.addRow, hrows']
  · simp
  · rw [Decides.sound_zipIdx (p := fun _ x => (∃ es, x = .map es) ∧
      senseWord x ∈ ["<=", ">=", "==", "="] ∧ Declares x ns), Decides.sound_forall]

end

theorem proper_iff : Proper v ↔
    ((∀ item ∈ variableItems v, (item.field? "name").isSome = true) ∧ (names v).Nodup ∧
      ∀ item ∈ variableItems v, typeWord item ∈ ["continuous", "integer", "binary"]) ∧
    (∀ item ∈ constraintItems v, (∃ es, item = .map es) ∧
      senseWord item ∈ ["<=", ">=", "==", "="] ∧ Declares item (names v)) ∧
    (∃ sense : ObjectiveSense, sense.text = goalWord v) ∧ Declares (objectiveItem v) (names v) :=
  ⟨fun h => ⟨⟨h.named, h.distinct, h.typed⟩,
      fun item hi => ⟨h.mappings item hi, h.senses item hi, h.declared item hi⟩, h.goal, h.objective⟩,
    fun ⟨⟨hnamed, hdistinct, htyped⟩, hrows, hgoal, hobjective⟩ =>
      ⟨hnamed, hdistinct, htyped, fun item hi => (hrows item hi).1,
        fun item hi => (hrows item hi).2.1, fun item hi => (hrows item hi).2.2, hgoal, hobjective⟩⟩

/-- A model with the variables, the rows and the objective of a description says what it says. -/
theorem describes_of_follows (hv : Proper v) {m : Model Extended} {d : Draft} (h : m.Follows d)
    (hvars : d.vars = draftedAll nameOf declaration (variableItems v))
    (hrows : d.rows = (constraintItems v).map (rowOf (names v)))
    (hobjective : d.objective = ⟨spelled (names v) (coefficients (objectiveItem v)),
      rat ((objectiveItem v).fieldOr "constant" (.real 0)).rational⟩)
    (hsense : m.objectiveSense.text = goalWord v) : Describes v (inOrder (names v)) m where
  names := inOrder_names _
  indices := h.indices_named nameOf declaration hvars
  satisfied z w hzw hrange := by
    rw [h.satisfied_named nameOf declaration hvars hzw hrange, SatisfiedBy, hrows,
      List.forall_mem_map]
    exact and_congr Iff.rfl (forall₂_congr fun item hi =>
      contains_rowOf hzw (hv.senses item hi) (hv.declared item hi))
  objective z w hzw := by
    rw [h.valueAt_objective, hobjective, valueAt_spelled hv.objective.names hzw, objectiveAt]
  sense := hsense
  found e he hne := h.found_by_name nameOf declaration hvars hv.distinct he hne

theorem build_decides (v : Value Extended) (hv : Regular v) (m : Model Extended) :
    Decides (build v m) (Proper v) (Describes v) IsFormat := by
  obtain ⟨es, rfl⟩ := hv.mapping
  have hstart := Model.Follows.start m ((Value.map es).fieldOr "name" (.text "")).shown
  unfold build
  refine .after rfl (.after rfl (.after (entries_run _ hv.variableList) ?_))
  suffices h : Decides _ _ (fun declared m' => Proper (.map es) → Describes (.map es) declared m') IsFormat
    from (h.congr proper_iff.symm).imp fun hproper _ _ h => h hproper
  refine (variables_decide hv hstart rfl rfl).bind fun _ declared m₁ h₁ => ?_
  obtain ⟨rfl, d₁, h₁, hvars, hrows⟩ := h₁
  refine .after (entries_run m₁ hv.constraintList) ?_
  refine (rows_decide hv h₁ (by simp [hvars, draftedAll, names]) hrows).bind fun _ _ m₂ h₂ => ?_
  obtain ⟨d₂, h₂, hvars', hrows'⟩ := h₂
  refine ((buildObjective_decides h₂ (by simp [hvars', hvars, draftedAll, names])
    hv.objectiveMapping hv.goal hv.constant).bind fun _ _ m₃ h₃ => ?_).congr (iff_of_eq (and_true _))
  exact .of_ok rfl fun hproper =>
    describes_of_follows hproper h₃.2 (hvars'.trans hvars) hrows' rfl h₃.1

/-- Building goes through for the descriptions that are in order, whatever the model was before,
and gives what they describe; it refuses all others. -/
theorem build_faithful (v : Value Extended) (hv : Regular v) (m : Model Extended) :
    (Proper v → ∃ declared m', build v m = .ok declared m' ∧ Describes v declared m') ∧
      (¬Proper v → ∃ e m', build v m = .error (.format e) m') := by
  have h := build_decides v hv m
  refine ⟨h.success, fun hnot => ?_⟩
  obtain ⟨_, m', hrun, e, rfl⟩ := h.refusal hnot
  exact ⟨e, m', hrun⟩

/-- Two variables, one row and an objective. -/
def planned (second : String) : Value Extended := .map [
  (.text "variables", .list [
    .map [(.text "name", .text "x"), (.text "upper", .int 4), (.text "type", .text "integer")],
    .map [(.text "name", .text second), (.text "fixed", .real (rat (1 / 2)))]]),
  (.text "constraints", .list [
    .map [(.text "terms", .map [(.text "x", .int 1), (.text "y", .int 2)]), (.text "sense", .text ">="),
      (.text "rhs", .int 3)]]),
  (.text "objective", .map [(.text "terms", .map [(.text "x", .int 3)])])]


theorem planned_regular (second : String) : Regular (planned second) := by
  have hitems : variableItems (planned second) = [
    .map [(.text "name", .text "x"), (.text "upper", .int 4), (.text "type", .text "integer")],
    .map [(.text "name", .text second), (.text "fixed", .real (rat (1 / 2)))]] := rfl
  have hrows : constraintItems (planned second) = [.map [(.text "terms", .map [(.text "x", .int 1),
    (.text "y", .int 2)]), (.text "sense", .text ">="), (.text "rhs", .int 3)]] := rfl
  have hlinear : ∀ item : Value Extended, (item.field "terms").mapped?.isSome = true →
      ((entriesOf item).all fun e => e.2.rational?.isSome) = true → Linear item :=
    fun item hmapping hall => ⟨hmapping, List.all_eq_true.1 hall⟩
  refine ⟨⟨_, rfl⟩, rfl, rfl, rfl, ?_, ?_, ?_, ?_, hlinear _ rfl rfl, nofun⟩
  · rw [hitems, List.forall_mem_cons, List.forall_mem_singleton]
    exact ⟨fun _ => nofun, by rintro x ⟨⟩; rfl⟩
  · simp only [hitems, List.forall_mem_cons]
    exact ⟨⟨fun h => absurd rfl h, fun _ => rfl, nofun⟩,
      ⟨fun h => absurd rfl h, fun h => absurd rfl h, nofun⟩, nofun⟩
  · rw [hrows, List.forall_mem_singleton]
    exact hlinear _ rfl rfl
  · rw [hrows, List.forall_mem_singleton]
    rintro x ⟨⟩
    rfl

theorem planned_proper : Proper (planned "y") where
  named := by decide
  distinct := by decide
  typed := by decide
  mappings := List.forall_mem_singleton.2 ⟨_, rfl⟩
  senses := by decide
  declared := List.forall_mem_singleton.2 (List.forall_mem_cons.2
    ⟨⟨"x", rfl, by decide⟩, List.forall_mem_singleton.2 ⟨"y", rfl, by decide⟩⟩)
  goal := ⟨.minimize, by decide⟩
  objective := List.forall_mem_singleton.2 ⟨"x", rfl, by decide⟩

theorem build_planned :
    (∃ declared m', build (planned "y") {} = .ok declared m' ∧ Describes (planned "y") declared m') ∧
      ∃ e m', build (planned "x") {} = .error (.format e) m' :=
  ⟨(build_faithful _ (planned_regular "y") _).1 planned_proper,
    (build_faithful _ (planned_regular "x") _).2 fun h => absurd h.distinct (by decide)⟩

end Description

end MixedInteger
