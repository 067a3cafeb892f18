import Mathlib.Data.List.Nodup
import MixedInteger.Model.Setting
import MixedInteger.Parameter.Store
import MixedInteger.Proofs.Problem.Row
import MixedInteger.Proofs.Steps

/-! The fields of parameter stores. A field has the kind that it was declared with, and a value is
converted to a setting of this kind by the kind and the name alone. To write a field is to replace
its setting and no other, and a store is known when its settings are. Fields of one name have one
kind in every store that has them, so what one store takes, all of them take. The stores are
written one after the other, and nothing takes back what an earlier store has taken; still a value
is written everywhere or nowhere. A value that is refused leaves the model as it was. After any
number of calls every setting has the kind of its default, and what was accepted last under a name
is what is read there. -/

namespace MixedInteger

namespace Parameter

variable {α S : Type}

inductive SettingKind where
  | int
  | real
deriving DecidableEq

def Setting.kind : Setting α → SettingKind
  | .int _ => .int
  | .real _ => .real

def Field.kind (f : Field S α) : SettingKind :=
  match f.access with
  | .int .. => .int
  | .real .. => .real

@[simp] theorem Field.kind_read (f : Field S α) (s : S) : (f.read s).kind = f.kind := by
  obtain ⟨name, access⟩ := f
  cases access <;> rfl

variable [Scalar α]

/-- The setting of a kind that a value stands for. -/
def converted (name : String) (v : Value α) : SettingKind → Except (SetError α) (Setting α)
  | .int => (wholeInt name v).map .int
  | .real => (v.toReal.mapError .conversion).map .real

/-- Writing fails just when the conversion does. -/
theorem Field.write_error (f : Field S α) (s : S) (v : Value α) (e : SetError α) :
    f.write s v = .error e ↔ converted f.name v f.kind = .error e := by
  obtain ⟨name, access⟩ := f
  cases access
  case int get set =>
    simp only [Field.write, Field.kind, converted]
    cases wholeInt name v <;> simp [Except.map]
  case real get set =>
    simp only [Field.write, Field.kind, converted]
    cases v.toReal <;> simp [Except.map, Except.mapError]

/-- Writing a setting into a field replaces it, and no other field of the list. -/
def Field.Puts (fields : List (Field S α)) (f : Field S α) : Prop :=
  match f.access with
  | .int _ set =>
    ∀ s i, ∀ g ∈ fields, g.read (set s i) = if g.name = f.name then .int i else g.read s
  | .real _ set =>
    ∀ s x, ∀ g ∈ fields, g.read (set s x) = if g.name = f.name then .real x else g.read s

theorem Field.Puts.write {fields : List (Field S α)} {f : Field S α} (h : f.Puts fields) {s s' : S}
    {v : Value α} (hw : f.write s v = .ok s') : ∃ c, converted f.name v f.kind = .ok c ∧
      ∀ g ∈ fields, g.read s' = if g.name = f.name then c else g.read s := by
  obtain ⟨name, access⟩ := f
  cases access
  case int get set =>
    obtain ⟨i, hi, rfl⟩ := except_map_eq_ok.mp hw
    exact ⟨.int i, by simp [converted, Field.kind, hi, Except.map], h s i⟩
  case real get set =>
    simp only [Field.write] at hw
    cases hx : v.toReal with
    | error e => simp [hx] at hw
    | ok x =>
      simp only [hx, Except.ok.injEq] at hw
      subst hw
      exact ⟨.real x, by simp [converted, Field.kind, hx, Except.map, Except.mapError], h s x⟩

/-- The fields are all there is to a store, and each stands by itself. -/
structure Tabular (fields : List (Field S α)) : Prop where
  distinct : (fields.map Field.name).Nodup
  puts : ∀ f ∈ fields, f.Puts fields
  whole : ∀ s t, (∀ f ∈ fields, f.read s = f.read t) → s = t

theorem Simplex.tabular : Tabular (Simplex.fields (α := α)) where
  distinct := by simp [Simplex.fields]
  puts := by simp [Simplex.fields, Field.Puts, Field.read]
  whole := by
    rintro ⟨⟩ ⟨⟩ h
    simpa [Simplex.fields, Field.read] using h

omit [Scalar α] in
theorem Interior.tabular : Tabular (Interior.fields (α := α)) where
  distinct := by simp [Interior.fields]
  puts := by simp [Interior.fields, Field.Puts, Field.read]
  whole := by
    rintro ⟨⟩ ⟨⟩ h
    simpa [Interior.fields, Field.read] using h

theorem Search.tabular : Tabular (Search.fields (α := α)) where
  distinct := by simp [Search.fields]
  puts := by simp [Search.fields, Field.Puts, Field.read]
  whole := by
    rintro ⟨⟩ ⟨⟩ h
    simpa [Search.fields, Field.read] using h

/-! ### Settings by name -/

/-- The kind that a store declares under a name. -/
def declared (fields : List (Field S α)) (name : String) : Option SettingKind :=
  (fields.find? fun f => f.name == name).map Field.kind

omit [Scalar α] in
theorem kind_read? (fields : List (Field S α)) (s : S) (name : String) :
    (read? fields s name).map Setting.kind = declared fields name := by
  simp [read?, declared, Function.comp_def]

/-- One setting is replaced wherever its name is read. -/
def Put (fields : List (Field S α)) (key : String) (c : Setting α) (s s' : S) : Prop :=
  ∀ name, read? fields s' name = (read? fields s name).map fun x => if name = key then c else x

omit [Scalar α] in
theorem put_absent {fields : List (Field S α)} {key : String} (h : declared fields key = none)
    (c : Setting α) (s : S) : Put fields key c s s := by
  intro name
  have hn : name = key → read? fields s name = none := by
    rintro rfl
    simpa [declared, read?] using h
  cases hr : read? fields s name with
  | none => rfl
  | some x =>
    have : name ≠ key := fun e => by simp [hn e] at hr
    simp [this]

section Assign
variable {fields : List (Field S α)} {key : String} {v : Value α}

theorem assign_ok (ht : Tabular fields) (hk : reserved key = false) {c : Setting α}
    (hc : ∀ k, declared fields key = some k → converted key v k = .ok c) (s : S) :
    ∃ s', assign fields key v s = .ok (declared fields key).isSome s' ∧ Put fields key c s s' := by
  cases hf : fields.find? fun f => f.name == key with
  | none =>
    have absent : declared fields key = none := by simp [declared, hf]
    exact ⟨s, by simp [assign, hk, hf, absent], put_absent absent c s⟩
  | some f =>
    have same : f.name = key := by simpa using List.find?_some hf
    have mem := List.mem_of_find?_eq_some hf
    have hd : declared fields key = some f.kind := by simp [declared, hf]
    have taken := hc _ hd
    cases hw : f.write s v with
    | error e =>
      have := (f.write_error s v e).mp hw
      rw [same, taken] at this
      cases this
    | ok s' =>
      obtain ⟨c', hc', reads⟩ := (ht.puts f mem).write hw
      obtain rfl : c = c' := by
        rw [same, taken] at hc'
        exact Except.ok.inj hc'
      refine ⟨s', by simp [assign, hk, hf, hd, hw, -bind_pure_comp], fun name => ?_⟩
      cases hg : fields.find? fun g => g.name == name with
      | none => simp [read?, hg]
      | some g =>
        have hn : g.name = name := by simpa using List.find?_some hg
        have := reads g (List.mem_of_find?_eq_some hg)
        simp [read?, hg, this, hn, same]

theorem assign_error (hk : reserved key = false) {e : SetError α}
    (hc : ∀ k, declared fields key = some k → converted key v k = .error e) (s : S) :
    assign fields key v s =
      if (declared fields key).isSome then .error e s else .ok false s := by
  cases hf : fields.find? fun f => f.name == key with
  | none => simp [assign, declared, hk, hf]
  | some f =>
    have same : f.name = key := by simpa using List.find?_some hf
    have hw : f.write s v = .error e := by
      rw [Field.write_error, same]
      exact hc _ (by simp [declared, hf])
    simp [assign, declared, hk, hf, hw]

end Assign

/-! ### The three stores together -/

/-- Fields of one name have one kind. -/
def Agree {T : Type} (fields : List (Field S α)) (others : List (Field T α)) : Prop :=
  ∀ f ∈ fields, ∀ g ∈ others, f.name = g.name → f.kind = g.kind

omit [Scalar α] in
theorem Agree.declared {T : Type} {fields : List (Field S α)} {others : List (Field T α)}
    (h : Agree fields others) {name : String} {k l : SettingKind}
    (hk : declared fields name = some k) (hl : declared others name = some l) : k = l := by
  obtain ⟨f, hf, rfl⟩ := Option.map_eq_some_iff.mp hk
  obtain ⟨g, hg, rfl⟩ := Option.map_eq_some_iff.mp hl
  have hfn : f.name = name := by simpa using List.find?_some hf
  have hgn : g.name = name := by simpa using List.find?_some hg
  exact h f (List.mem_of_find?_eq_some hf) g (List.mem_of_find?_eq_some hg) (hfn.trans hgn.symm)

theorem simplex_search_agree : Agree (Simplex.fields (α := α)) (Search.fields (α := α)) := by
  simp [Agree, Simplex.fields, Search.fields, Field.kind]

theorem simplex_interior_agree : Agree (Simplex.fields (α := α)) (Interior.fields (α := α)) := by
  simp [Agree, Simplex.fields, Interior.fields, Field.kind]

theorem search_interior_agree : Agree (Search.fields (α := α)) (Interior.fields (α := α)) := by
  simp [Agree, Search.fields, Interior.fields, Field.kind]

namespace Stores

/-- What the stores hold under a name, one after the other. -/
def held (s : Stores α) (name : String) : List (Option (Setting α)) :=
  [read? Interior.fields s.interior name, read? Search.fields s.search name,
    read? Simplex.fields s.simplex name]

/-- The kind of the default that stands under a name. -/
def kindOf (α : Type) [Scalar α] (name : String) : Option SettingKind :=
  (({} : Stores α).get? name).map Setting.kind

theorem kind_get?_eq (s : Stores α) (name : String) : (s.get? name).map Setting.kind =
    (declared (Simplex.fields (α := α)) name).orElse fun _ =>
      (declared (Search.fields (α := α)) name).orElse fun _ =>
        declared (Interior.fields (α := α)) name := by
  rw [← kind_read? _ s.simplex, ← kind_read? _ s.search, ← kind_read? _ s.interior, get?]
  cases read? Simplex.fields s.simplex name <;> cases read? Search.fields s.search name <;> rfl

theorem kind_get? (s : Stores α) (name : String) : (s.get? name).map Setting.kind = kindOf α name := by
  rw [kindOf, kind_get?_eq, kind_get?_eq]

theorem kind_held (s : Stores α) (name : String) : (s.held name).map (Option.map Setting.kind) =
    [declared (Interior.fields (α := α)) name, declared (Search.fields (α := α)) name,
      declared (Simplex.fields (α := α)) name] := by
  simp [held, kind_read?]

/-- Every store that has a name declares the same kind for it. -/
theorem kind_unique {name : String} {k : Option SettingKind} (h : kindOf α name = k) :
    (∀ l, declared (Interior.fields (α := α)) name = some l → k = some l) ∧
      (∀ l, declared (Search.fields (α := α)) name = some l → k = some l) ∧
      ∀ l, declared (Simplex.fields (α := α)) name = some l → k = some l := by
  subst h
  rw [kindOf, kind_get?_eq]
  have first k l (hk : declared (Simplex.fields (α := α)) name = some k) :=
    simplex_search_agree.declared (l := l) hk
  have second k l (hk : declared (Simplex.fields (α := α)) name = some k) :=
    simplex_interior_agree.declared (l := l) hk
  have third k l (hk : declared (Search.fields (α := α)) name = some k) :=
    search_interior_agree.declared (l := l) hk
  revert first second third
  cases declared (Simplex.fields (α := α)) name <;> cases declared (Search.fields (α := α)) name <;>
    cases declared (Interior.fields (α := α)) name <;> simp +contextual

end Stores

end Parameter

/-! ### Parameters that are set -/

variable {α : Type} [Scalar α]

namespace Parameter

namespace Stores

/-- One setting is replaced in every store that has its name, and no other setting. -/
def Put (key : String) (c : Setting α) (s s' : Stores α) : Prop :=
  ∀ name, s'.held name = (s.held name).map (Option.map fun x => if name = key then c else x)

variable {key : String} {v : Value α}

theorem set_reserved (hk : reserved key = true) (s : Stores α) :
    set key v s = .error (.option (.reserved key)) s := by
  simp [set, inInterior, assign, hk]

section Unreserved
variable (hk : reserved key = false)
include hk

/-- No store converts the value. -/
theorem set_error {e : SetError α}
    (hc : ∀ k, kindOf α key = some k → converted key v k = .error e) (s : Stores α) :
    set key v s = .error (if (kindOf α key).isSome then e else .option (.unknown key v)) s := by
  obtain ⟨hi, hs, hx⟩ := kind_unique (rfl : kindOf α key = _)
  have interior := assign_error hk (fun k h => hc k (hi k h)) s.interior
  have search := assign_error hk (fun k h => hc k (hs k h)) s.search
  have simplex := assign_error hk (fun k h => hc k (hx k h)) s.simplex
  have known := kind_get?_eq s key
  rw [kind_get?] at known
  cases hdi : declared (Interior.fields (α := α)) key <;>
    cases hds : declared (Search.fields (α := α)) key <;>
    cases hdx : declared (Simplex.fields (α := α)) key <;>
    simp [set, inInterior, inSearch, inSimplex, interior, search, simplex, known, hdi, hds, hdx]

/-- Every store that has the name converts the value to the same setting. -/
theorem set_ok {k : SettingKind} {c : Setting α} (hd : kindOf α key = some k)
    (hc : converted key v k = .ok c) (s : Stores α) :
    ∃ s', set key v s = .ok () s' ∧ s.Put key c s' := by
  obtain ⟨hi, hs, hx⟩ := kind_unique hd
  have taken (l : SettingKind) (h : some k = some l) : converted key v l = .ok c := by
    cases h; exact hc
  obtain ⟨interior, runInterior, putInterior⟩ :=
    assign_ok Interior.tabular hk (fun l h => taken l (hi l h)) s.interior
  obtain ⟨search, runSearch, putSearch⟩ :=
    assign_ok Search.tabular hk (fun l h => taken l (hs l h)) s.search
  obtain ⟨simplex, runSimplex, putSimplex⟩ :=
    assign_ok Simplex.tabular hk (fun l h => taken l (hx l h)) s.simplex
  have known := kind_get?_eq s key
  rw [kind_get?, hd] at known
  have found : ((declared (Interior.fields (α := α)) key).isSome ||
      (declared (Search.fields (α := α)) key).isSome ||
      (declared (Simplex.fields (α := α)) key).isSome) = true := by
    revert known
    cases declared (Interior.fields (α := α)) key <;>
      cases declared (Search.fields (α := α)) key <;>
      cases declared (Simplex.fields (α := α)) key <;> simp
  refine ⟨⟨simplex, interior, search⟩, ?_, fun name => ?_⟩
  · simp only [set, bind_run, inInterior, runInterior, inSearch, runSearch, inSimplex, runSimplex,
      found]
    rfl
  · simp [held, putInterior name, putSearch name, putSimplex name]

end Unreserved

/-- What a call does, by whether the value can be converted. -/
theorem set_cases (key : String) (v : Value α) (s : Stores α) :
    (∃ e, set key v s = .error e s) ∨
      ∃ k c s', kindOf α key = some k ∧ converted key v k = .ok c ∧
        set key v s = .ok () s' ∧ s.Put key c s' := by
  cases hk : reserved key with
  | true => exact .inl ⟨_, set_reserved hk s⟩
  | false =>
    cases hd : kindOf α key with
    | none => exact .inl ⟨_, set_error (e := .conversion .kind) hk (by simp [hd]) s⟩
    | some k =>
      cases hc : converted key v k with
      | error e => exact .inl ⟨_, set_error (e := e) hk (by simp [hd, hc]) s⟩
      | ok c =>
        obtain ⟨s', run, put⟩ := set_ok hk hd hc s
        exact .inr ⟨k, c, s', rfl, hc, run, put⟩

/-! ### Reading -/

theorem get?_eq (s : Stores α) (name : String) : s.get? name =
    (s.held name).reverse.foldr (fun x y => x.orElse fun _ => y) none := by
  simp only [get?, held]
  cases read? Simplex.fields s.simplex name <;> cases read? Search.fields s.search name <;>
    cases read? Interior.fields s.interior name <;> rfl

theorem Put.get? {c : Setting α} {s s' : Stores α} (h : s.Put key c s') (name : String) :
    s'.get? name = (s.get? name).map fun x => if name = key then c else x := by
  rw [get?_eq, get?_eq, h name]
  simp only [held]
  cases read? Simplex.fields s.simplex name <;> cases read? Search.fields s.search name <;>
    cases read? Interior.fields s.interior name <;> rfl

end Stores

end Parameter

theorem lookup_setEntry {β : Type} (key : String) (b : β) (es : List (String × β)) (name : String) :
    (setEntry key b es).lookup name = if name = key then some b else es.lookup name := by
  induction es with
  | nil => by_cases h : name = key <;> simp [setEntry, h]
  | cons e es ih =>
    obtain ⟨k, c⟩ := e
    by_cases he : k = key
    · simp only [setEntry, he, beq_self_eq_true, if_true, lookup_cons_ite]
      split <;> rfl
    · simp only [setEntry, beq_eq_false_iff_ne.mpr he, Bool.false_eq_true, if_false, lookup_cons_ite, ih]
      by_cases hn : name = k
      · simp [hn, he]
      · simp [hn]

open Parameter

/-! ### Calls -/

namespace Modelling

/-- A refused call leaves the whole model as it was. -/
theorem setParameter_cases (key v : Value α) (m : Model α) :
    (∃ e, setParameter key v m = .error e m) ∨
      ∃ name k c stores, key = .text name ∧ Stores.kindOf α name = some k ∧
        converted name v k = .ok c ∧ m.stores.Put name c stores ∧
        setParameter key v m =
          .ok () { m with stores := stores, given := setEntry name v m.given } := by
  cases key
  case text name =>
    rcases Stores.set_cases name v m.stores with ⟨e, run⟩ | ⟨k, c, stores, hk, hc, run, put⟩
    · exact .inl ⟨.ofSet e, by simp [setParameter, applyParameter, run]⟩
    · exact .inr ⟨name, k, c, stores, rfl, hk, hc, put, by simp [setParameter, applyParameter, run]⟩
  all_goals exact .inl ⟨_, rfl⟩

end Modelling

namespace Model

theorem parameter_text (m : Model α) (name : String) : m.parameter (.text name) =
    match m.stores.get? name with
    | some c => .ok c
    | none => .error (.option (.unreadable name)) := rfl

theorem parameter_put {m m' : Model α} {key : String} {k : SettingKind} {c : Setting α}
    (hk : Stores.kindOf α key = some k) (put : m.stores.Put key c m'.stores) (name : String) :
    m'.parameter (.text name) = if name = key then .ok c else m.parameter (.text name) := by
  rw [parameter_text, parameter_text, put.get? name]
  have known := Stores.kind_get? m.stores name
  by_cases h : name = key
  · subst h
    obtain ⟨x, hx, -⟩ := Option.map_eq_some_iff.mp (known.trans hk)
    simp [hx]
  · cases m.stores.get? name <;> simp [h]

/-- A call whose caller goes on after a refusal. Beside the model stands what was accepted, the last
value first. -/
def setNext (r : List (String × Value α) × Model α) (call : Value α × Value α) :
    List (String × Value α) × Model α :=
  match Modelling.setParameter call.1 call.2 r.2 with
  | .ok _ m => ((call.1.asText, call.2) :: r.1, m)
  | .error _ m => (r.1, m)

def setInTurn (m : Model α) (calls : List (Value α × Value α)) :
    List (String × Value α) × Model α :=
  calls.foldl setNext ([], m)

/-- What calls with accepted values make of a model: kinds are those of the defaults, the last value
accepted under a name is read there and recorded, and every other name is as before. -/
structure Heeds (m : Model α) (accepted : List (String × Value α)) (m' : Model α) : Prop where
  kinds : ∀ name, (m'.stores.held name).map (Option.map Setting.kind) =
    (({} : Stores α).held name).map (Option.map Setting.kind)
  last : ∀ name v, accepted.lookup name = some v →
    ∃ k c, Stores.kindOf α name = some k ∧ converted name v k = .ok c ∧
      m'.parameter (.text name) = .ok c ∧ m'.given.lookup name = some v
  others : ∀ name, accepted.lookup name = none →
    m'.parameter (.text name) = m.parameter (.text name) ∧
      m'.given.lookup name = m.given.lookup name

theorem Heeds.start (m : Model α) : m.Heeds [] m where
  kinds name := by rw [Stores.kind_held, Stores.kind_held]
  last _ _ h := by simp at h
  others _ _ := ⟨rfl, rfl⟩

theorem Heeds.next {m : Model α} {r : List (String × Value α) × Model α} (h : m.Heeds r.1 r.2)
    (call : Value α × Value α) : m.Heeds (setNext r call).1 (setNext r call).2 := by
  obtain ⟨key, v⟩ := call
  rcases Modelling.setParameter_cases key v r.2 with
    ⟨e, run⟩ | ⟨key, k, c, stores, rfl, hk, hc, put, run⟩
  · simpa only [setNext, run] using h
  · have next : setNext r (.text key, v) =
        ((key, v) :: r.1, { r.2 with stores := stores, given := setEntry key v r.2.given }) := by
      simp only [setNext, run, Value.asText]
    rw [next]
    refine ⟨fun name => by rw [Stores.kind_held, Stores.kind_held], fun name w hw => ?_,
      fun name hn => ?_⟩
    · rw [lookup_cons_ite] at hw
      rw [parameter_put hk put, lookup_setEntry]
      by_cases same : name = key
      · subst same
        obtain rfl : v = w := by simpa using hw
        exact ⟨k, c, hk, hc, by simp, by simp⟩
      · simpa [same] using h.last name w (by simpa [same] using hw)
    · rw [lookup_cons_ite] at hn
      rw [parameter_put hk put, lookup_setEntry]
      have same : name ≠ key := by
        rintro rfl
        simp at hn
      simpa [same] using h.others name (by simpa [same] using hn)

/-- A call either is refused and leaves the model as it was, or writes one setting, of the kind that
the name was declared with, into every store that has the name, and nothing else but the record.
So it is after any number of calls. -/
theorem setParameter_everywhere (m : Model α) :
    (∀ key v : Value α, (∃ e, Modelling.setParameter key v m = .error e m) ∨
      ∃ name k c stores, key = .text name ∧ Stores.kindOf α name = some k ∧
        converted name v k = .ok c ∧ m.stores.Put name c stores ∧
        Modelling.setParameter key v m =
          .ok () { m with stores := stores, given := setEntry name v m.given }) ∧
      ∀ calls, m.Heeds (m.setInTurn calls).1 (m.setInTurn calls).2 := by
  refine ⟨fun key v => Modelling.setParameter_cases key v m, fun calls => ?_⟩
  suffices run : ∀ r : List (String × Value α) × Model α, m.Heeds r.1 r.2 →
      m.Heeds (calls.foldl setNext r).1 (calls.foldl setNext r).2 from run _ (.start m)
  induction calls with
  | nil => exact fun _ h => h
  | cons call calls ih => exact fun r h => ih _ (h.next call)

end Model

end MixedInteger
