import MixedInteger.Proofs.Model.Registry

/-! Histories of requests to a registry. Its answers are those of a shelf: a list of entries in the
order of their addition, and a count of the identities handed out that starts over only when the
shelf is emptied. Whether the table of positions is kept, dropped or rebuilt shows in no answer. -/

namespace MixedInteger

variable {V : Type}

/-- Entries in the order of their addition, with the last identity handed out. -/
structure Shelf (V : Type) where
  last : Nat := 0
  entries : List (Nat × V) := []

/-! ### Requests -/

namespace Registry

/-- What may be asked of a registry. A key is what the registry reads off an index, nothing when it is
shown something else. -/
inductive Request (V : Type) where
  | add (v : V)
  | delete (key : Option Int)
  /-- The value of an identity that has to be there. -/
  | item (key : Option Int)
  | get (key : Option Int)
  | contains (key : Option Int)
  | size
  | keys
  | values
  | items
  | iterate
  | empty

/-- The answer to a request. -/
inductive Held (V : Type) where
  | added (key : Nat)
  | value (v : V)
  | found (v : Option V)
  | truth (b : Bool)
  | count (n : Nat)
  | keys (ks : List Nat)
  | values (vs : List V)
  | items (es : List (Nat × V))
  | done

/-- An answer, or the key that is at fault. -/
abbrev Reply (V : Type) := Except (Option Int) (Held V)

/-- The value of an identity that is asked for, or the identity that is missing. -/
def Held.ofItem (key : Int) : Option V → Reply V
  | some v => .ok (.value v)
  | none => .error key

/-- The registry with its table in place. -/
def tabled (r : Registry V) : Registry V := { r with slots := some r.table }

/-- Every lookup puts the table in place first, also one that fails. -/
def respond (r : Registry V) : Request V → Reply V × Registry V
  | .add v => (.ok (.added (r.add v).2), (r.add v).1)
  | .delete none | .item none | .get none => (.error none, r.tabled)
  | .delete (some key) =>
    match r.delete? key with
    | some (rest, v) => (.ok (.value v), rest)
    | none => (.error key, r.tabled)
  | .item (some key) => (Held.ofItem key (r.lookup key).2, (r.lookup key).1)
  | .get (some key) => (.ok (.found (r.lookup key).2), (r.lookup key).1)
  | .contains none => (.ok (.truth false), r)
  | .contains (some key) => (.ok (.truth (r.contains key)), r.tabled)
  | .size => (.ok (.count r.size), r)
  | .keys | .iterate => (.ok (.keys r.keys), r)
  | .values => (.ok (.values r.values), r)
  | .items => (.ok (.items r.entries), r)
  | .empty => (.ok .done, {})

/-- The answers to a history of requests, and the registry after it. -/
def respondAll : List (Request V) → Registry V → List (Reply V) × Registry V
  | [], r => ([], r)
  | q :: qs, r => ((r.respond q).1 :: (respondAll qs (r.respond q).2).1,
      (respondAll qs (r.respond q).2).2)

/-- The registry that a history of requests leaves. -/
def afterAll (qs : List (Request V)) : Registry V := (respondAll qs {}).2

def shelf (r : Registry V) : Shelf V := ⟨r.last, r.entries⟩

end Registry

namespace Shelf

def find? (s : Shelf V) (key : Int) : Option V :=
  (s.entries.find? fun e => (e.1 : Int) = key).map (·.2)

/-- The shelf without an identity. -/
def remove (s : Shelf V) (key : Int) : Shelf V :=
  { s with entries := s.entries.filter fun e => (e.1 : Int) ≠ key }

def respond (s : Shelf V) : Registry.Request V → Registry.Reply V × Shelf V
  | .add v => (.ok (.added (s.last + 1)), ⟨s.last + 1, s.entries ++ [(s.last + 1, v)]⟩)
  | .delete none | .item none | .get none => (.error none, s)
  | .delete (some key) => (Registry.Held.ofItem key (s.find? key), s.remove key)
  | .item (some key) => (Registry.Held.ofItem key (s.find? key), s)
  | .get (some key) => (.ok (.found (s.find? key)), s)
  | .contains none => (.ok (.truth false), s)
  | .contains (some key) => (.ok (.truth (s.find? key).isSome), s)
  | .size => (.ok (.count s.entries.length), s)
  | .keys | .iterate => (.ok (.keys (s.entries.map (·.1))), s)
  | .values => (.ok (.values (s.entries.map (·.2))), s)
  | .items => (.ok (.items s.entries), s)
  | .empty => (.ok .done, {})

def respondAll : List (Registry.Request V) → Shelf V → List (Registry.Reply V) × Shelf V
  | [], s => ([], s)
  | q :: qs, s => ((s.respond q).1 :: (respondAll qs (s.respond q).2).1,
      (respondAll qs (s.respond q).2).2)

end Shelf

/-! ### Entries -/

/-- With distinct keys, the entry at a place goes when its key does. -/
theorem eraseIdx_eq_filter {es : List (Nat × V)} {i k : Nat} {v : V} (hn : (es.map (·.1)).Nodup)
    (h : es[i]? = some (k, v)) : es.eraseIdx i = es.filter fun e => (e.1 : Int) ≠ k := by
  induction es generalizing i with
  | nil => cases h
  | cons e es ih =>
    rw [List.map_cons] at hn
    obtain ⟨hmem, hn⟩ := List.nodup_cons.1 hn
    cases i with
    | zero =>
      obtain rfl : e = (k, v) := by simpa using h
      have hrest : ∀ e ∈ es, decide ((e.1 : Int) ≠ k) = true := by
        intro e he
        have hne : e.1 ≠ k := fun heq => hmem (List.mem_map.2 ⟨e, he, heq⟩)
        exact decide_eq_true (by omega)
      rw [List.eraseIdx_cons_zero, List.filter_cons_of_neg (by simp), List.filter_eq_self.2 hrest]
    | succ i =>
      rw [List.getElem?_cons_succ] at h
      have hne : e.1 ≠ k := fun heq => hmem (List.mem_map.2 ⟨(k, v), List.mem_of_getElem? h, heq.symm⟩)
      rw [List.eraseIdx_cons_succ, List.filter_cons, if_pos (decide_eq_true (by omega)), ih hn h]

/-- An identity that is not there need not be removed. -/
theorem Shelf.remove_of_find? {s : Shelf V} {key : Int} (h : s.find? key = none) :
    s.remove key = s := by
  have hnone := List.find?_eq_none.1 (Option.map_eq_none_iff.1 h)
  have hall : ∀ e ∈ s.entries, decide ((e.1 : Int) ≠ key) = true := fun e he => by
    simpa using hnone e he
  rw [remove, List.filter_eq_self.2 hall]

namespace Registry

section Valid
variable {r : Registry V} (hr : r.Valid)
include hr

theorem Valid.get?_eq_find? (key : Int) : r.get? key = r.shelf.find? key := by
  cases hfind : r.entries.find? fun e => (e.1 : Int) = key with
  | none =>
    rw [Shelf.find?, shelf, hfind, Option.map_none, Option.eq_none_iff_forall_ne_some]
    intro v hv
    obtain ⟨k, rfl, hm⟩ := hr.get?_eq_some_iff_mem.1 hv
    simpa using List.find?_eq_none.1 hfind _ hm
  | some e =>
    have hkey : (e.1 : Int) = key := by simpa using List.find?_some hfind
    rw [Shelf.find?, shelf, hfind, ← hkey]
    exact hr.get?_of_mem (List.mem_of_find?_eq_some hfind)

/-- The table changes nothing else. -/
theorem Valid.tabled : r.tabled.Valid where
  sorted := hr.sorted
  pos := hr.pos
  le_last := hr.le_last
  table := hr.table

/-- A table may be dropped at any time. -/
theorem Valid.dropped : ({ r with slots := none } : Registry V).Valid :=
  valid_of_slots_none rfl hr.sorted hr.pos hr.le_last

theorem Valid.eraseAt_eq {i k : Nat} {v : V} (he : r.entries[i]? = some (k, v)) :
    r.eraseAt i = { r with entries := (r.shelf.remove k).entries, slots := none } := by
  rw [Registry.eraseAt, eraseIdx_eq_filter hr.nodup he]
  rfl

/-- A deletion takes one entry out. -/
theorem Valid.delete?_eq (key : Int) : r.delete? key = (r.get? key).map fun v =>
    ({ r with entries := (r.shelf.remove key).entries, slots := none }, v) := by
  cases hget : r.get? key with
  | none => exact hr.delete?_eq_none.2 hget
  | some v =>
    obtain ⟨i, k, rfl, he⟩ := hr.get?_eq_some.1 hget
    rw [hr.delete?_of_getElem he, hr.eraseAt_eq he]
    rfl

/-! ### Answers -/

/-- One request to a registry and to its shelf. -/
theorem Valid.respond (q : Request V) : (r.respond q).2.Valid ∧
    r.shelf.respond q = ((r.respond q).1, (r.respond q).2.shelf) := by
  have hget := hr.get?_eq_find?
  cases q with
  | add v => exact ⟨hr.add v, rfl⟩
  | delete key =>
    cases key with
    | none => exact ⟨hr.tabled, rfl⟩
    | some key =>
      rw [Registry.respond, Shelf.respond, hr.delete?_eq, ← hget]
      cases hv : r.get? key with
      | some v =>
        obtain ⟨i, k, rfl, he⟩ := hr.get?_eq_some.1 hv
        have herased := hr.eraseAt i
        rw [hr.eraseAt_eq he] at herased
        exact ⟨herased, rfl⟩
      | none =>
        have hkept := Shelf.remove_of_find? (s := r.shelf) ((hget key).symm.trans hv)
        refine ⟨hr.tabled, ?_⟩
        rw [Option.map_none, hkept]
        rfl
  | item key =>
    cases key with
    | none => exact ⟨hr.tabled, rfl⟩
    | some key => exact ⟨hr.tabled, by rw [Shelf.respond, ← hget]; rfl⟩
  | get key =>
    cases key with
    | none => exact ⟨hr.tabled, rfl⟩
    | some key => exact ⟨hr.tabled, by rw [Shelf.respond, ← hget]; rfl⟩
  | contains key =>
    cases key with
    | none => exact ⟨hr, rfl⟩
    | some key =>
      refine ⟨hr.tabled, ?_⟩
      rw [Registry.respond, Shelf.respond, ← hget, hr.contains_eq]
      rfl
  | empty => exact ⟨.empty, rfl⟩
  | _ => exact ⟨hr, rfl⟩

end Valid

theorem Valid.respondAll : ∀ (qs : List (Request V)) {r : Registry V}, r.Valid →
    (Registry.respondAll qs r).2.Valid ∧
      Shelf.respondAll qs r.shelf =
        ((Registry.respondAll qs r).1, (Registry.respondAll qs r).2.shelf)
  | [], _, hr => ⟨hr, rfl⟩
  | q :: qs, r, hr => by
    obtain ⟨hvalid, hshelf⟩ := hr.respond q
    obtain ⟨hend, hall⟩ := Valid.respondAll qs hvalid
    refine ⟨hend, ?_⟩
    rw [Shelf.respondAll, hshelf, hall]
    rfl

theorem afterAll_valid (qs : List (Request V)) : (afterAll qs).Valid :=
  (Valid.empty.respondAll qs).1

/-- Only entries and the count show in answers. -/
theorem Valid.answers_congr {r s : Registry V} (hr : r.Valid) (hs : s.Valid)
    (h : r.shelf = s.shelf) (qs : List (Request V)) :
    (Registry.respondAll qs r).1 = (Registry.respondAll qs s).1 := by
  have hrs := (hr.respondAll qs).2
  rw [h, (hs.respondAll qs).2] at hrs
  exact (congrArg Prod.fst hrs).symm

/-! ### Identities -/

/-- The identities handed out since the last emptying, after one more request. -/
def handOut (ks : List Nat) : Request V × Reply V → List Nat
  | (.empty, _) => []
  | (_, .ok (.added k)) => ks ++ [k]
  | _ => ks

/-- The identities that a history of requests was given since the last emptying. -/
def handedOut (qs : List (Request V)) (replies : List (Reply V)) : List Nat :=
  (qs.zip replies).foldl handOut []

theorem handOut_ofItem (ks : List Nat) {q : Request V} (hq : q ≠ .empty) (key : Int)
    (v : Option V) : handOut ks (q, Held.ofItem key v) = ks := by
  cases v <;> cases q <;> first | rfl | exact absurd rfl hq

end Registry

namespace Shelf

theorem handOut_respond (s : Shelf V) (q : Registry.Request V) :
    Registry.handOut (List.range' 1 s.last) (q, (s.respond q).1) =
      List.range' 1 (s.respond q).2.last := by
  cases q with
  | add v =>
    rw [respond, List.range'_concat]
    simp [Registry.handOut, Nat.add_comm]
  | delete key =>
    cases key with
    | none => rfl
    | some key => exact Registry.handOut_ofItem _ (by simp) _ _
  | item key =>
    cases key with
    | none => rfl
    | some key => exact Registry.handOut_ofItem _ (by simp) _ _
  | get key => cases key <;> rfl
  | contains key => cases key <;> rfl
  | _ => rfl

/-- The identities since the last emptying are counted up from one. -/
theorem foldl_handOut (qs : List (Registry.Request V)) (s : Shelf V) :
    (qs.zip (respondAll qs s).1).foldl Registry.handOut (List.range' 1 s.last) =
      List.range' 1 (respondAll qs s).2.last := by
  induction qs generalizing s with
  | nil => rfl
  | cons q qs ih =>
    rw [respondAll, List.zip_cons_cons, List.foldl_cons, s.handOut_respond]
    exact ih (s.respond q).2

/-- A request that fails leaves the shelf alone. -/
theorem respond_error {s : Shelf V} {q : Registry.Request V} {key : Option Int}
    (h : (s.respond q).1 = .error key) : (s.respond q).2 = s := by
  cases q with
  | delete key' =>
    cases key' with
    | none => rfl
    | some key' =>
      rw [respond] at h ⊢
      cases hv : s.find? key' with
      | some v =>
        rw [hv] at h
        cases h
      | none =>
        exact remove_of_find? hv
  | item key' => cases key' <;> rfl
  | get key' => cases key' <;> rfl
  | contains key' => cases key' <;> rfl
  | _ => cases h

end Shelf

namespace Registry

/-! ### Histories -/

/-- What is kept by every history of requests. -/
structure Orderly (qs : List (Request V)) : Prop where
  /-- The answers are those of a shelf. -/
  answers : (respondAll qs {}).1 = (Shelf.respondAll qs {}).1
  /-- No identity is handed out twice before the registry is emptied. -/
  increasing : (handedOut qs (respondAll qs {}).1).Pairwise (· < ·)
  /-- A deletion leaves all others as they are, in their order. -/
  others : ∀ key rest v, (afterAll qs).delete? key = some (rest, v) →
    rest.entries = (afterAll qs).entries.filter (fun e => (e.1 : Int) ≠ key) ∧
      ∀ other ≠ key, rest.get? other = (afterAll qs).get? other
  /-- A request that fails leaves entries and count alone, and shows in no later answer. -/
  failing : ∀ q key, ((afterAll qs).respond q).1 = .error key →
    ((afterAll qs).respond q).2.shelf = (afterAll qs).shelf ∧ ∀ later,
      (respondAll later ((afterAll qs).respond q).2).1 = (respondAll later (afterAll qs)).1
  /-- Nor does it show whether there is a table. -/
  dropped : ∀ later,
    (respondAll later { afterAll qs with slots := none }).1 = (respondAll later (afterAll qs)).1
  rebuilt : ∀ later,
    (respondAll later { afterAll qs with slots := some (positions (afterAll qs).entries) }).1 =
      (respondAll later (afterAll qs)).1

/-- A registry is an ordered list with a count, whatever is asked of it. -/
theorem respondAll_orderly (qs : List (Request V)) : Orderly qs where
  answers := (congrArg Prod.fst (Valid.empty.respondAll qs).2).symm
  increasing := by
    have hcounted := Shelf.foldl_handOut qs {}
    rw [handedOut, show (respondAll qs {}).1 = (Shelf.respondAll qs {}).1 from
      (congrArg Prod.fst (Valid.empty.respondAll qs).2).symm]
    exact hcounted ▸ List.pairwise_lt_range'
  others key rest v hdelete := by
    have hvalid := afterAll_valid qs
    rw [hvalid.delete?_eq] at hdelete
    obtain ⟨w, hw, heq⟩ := Option.map_eq_some_iff.1 hdelete
    cases heq
    obtain ⟨i, k, rfl, he⟩ := hvalid.get?_eq_some.1 hw
    refine ⟨rfl, fun other hne => ?_⟩
    have herased := hvalid.get?_eraseAt he other
    rwa [hvalid.eraseAt_eq he, if_neg hne] at herased
  failing q key herror := by
    have hvalid := afterAll_valid qs
    obtain ⟨hnext, hshelf⟩ := hvalid.respond q
    have hsame : ((afterAll qs).respond q).2.shelf = (afterAll qs).shelf := by
      have hstays : ((afterAll qs).shelf.respond q).2 = (afterAll qs).shelf :=
        Shelf.respond_error (by rw [hshelf]; exact herror)
      rw [hshelf] at hstays
      exact hstays
    exact ⟨hsame, hnext.answers_congr hvalid hsame⟩
  dropped := (afterAll_valid qs).dropped.answers_congr (afterAll_valid qs) rfl
  rebuilt := (afterAll_valid qs).dropped.tabled.answers_congr (afterAll_valid qs) rfl

example : (Shelf.respondAll [.add 7, .add 8, .delete (some 1), .add 9, .get (some 1), .items]
    ({} : Shelf Nat)).1 = [.ok (.added 1), .ok (.added 2), .ok (.value 7), .ok (.added 3),
      .ok (.found none), .ok (.items [(2, 8), (3, 9)])] := rfl

end Registry

end MixedInteger
