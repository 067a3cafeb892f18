import MixedInteger.Model.Registry
import Mathlib.Data.List.Basic
import Mathlib.Tactic.Common

/-! Identities and positions of a registry. In a valid registry the identities stand
in increasing order up to the last one handed out, and the table, kept or rebuilt,
says where each of them stands. Every call is then told by what it does to the
entries, without the table. -/

namespace MixedInteger

namespace Registry

variable {V : Type}

structure Valid (r : Registry V) : Prop where
  sorted : r.keys.Pairwise (· < ·)
  pos : ∀ k ∈ r.keys, 0 < k
  le_last : ∀ k ∈ r.keys, k ≤ r.last
  table : ∀ k i : Nat, r.table[k]? = some i ↔ r.keys[i]? = some k

/-! ### The table -/

/-- What the fold behind `positions` has stored once it has passed a stretch of
entries that starts at position `s`. -/
theorem foldl_positions (s : Nat) (es : List (Nat × V)) (t : Std.HashMap Nat Nat)
    (hn : (es.map (·.1)).Nodup) (k i : Nat) :
    (((List.range' s es.length).zip es).foldl (fun t e => t.insert e.2.1 e.1) t)[k]? = some i ↔
      (∃ j, i = s + j ∧ (es.map (·.1))[j]? = some k) ∨
        (k ∉ es.map (·.1) ∧ t[k]? = some i) := by
  induction es generalizing s t with
  | nil => simp
  | cons e es ih =>
    have hk := List.nodup_cons.1 hn
    rw [List.length_cons, List.range'_succ, List.zip_cons_cons, List.foldl_cons, ih _ _ hk.2]
    simp only [Std.HashMap.getElem?_insert, beq_iff_eq, List.map_cons, List.mem_cons, not_or]
    constructor
    · rintro (⟨j, rfl, hj⟩ | ⟨hne, ht⟩)
      · exact .inl ⟨j + 1, by omega, by simpa using hj⟩
      · split_ifs at ht with he
        · exact .inl ⟨0, by simpa using ht.symm, by simpa using he⟩
        · exact .inr ⟨⟨fun h => he h.symm, hne⟩, ht⟩
    · rintro (⟨j, rfl, hj⟩ | ⟨⟨he, hne⟩, ht⟩)
      · cases j with
        | zero =>
          have he : e.1 = k := by simpa using hj
          exact .inr ⟨he ▸ hk.1, by simp [he]⟩
        | succ j => exact .inl ⟨j, by omega, by simpa using hj⟩
      · exact .inr ⟨hne, by rw [if_neg (fun h => he h.symm)]; exact ht⟩

theorem positions_eq_some (es : List (Nat × V)) (hn : (es.map (·.1)).Nodup) (k i : Nat) :
    (positions es)[k]? = some i ↔ (es.map (·.1))[i]? = some k := by
  rw [positions, List.range_eq_range', foldl_positions 0 es {} hn]
  simp

/-- Without a kept table only the identities matter. -/
theorem valid_of_slots_none {r : Registry V} (hs : r.slots = none)
    (sorted : r.keys.Pairwise (· < ·)) (pos : ∀ k ∈ r.keys, 0 < k)
    (le_last : ∀ k ∈ r.keys, k ≤ r.last) : r.Valid where
  sorted := sorted
  pos := pos
  le_last := le_last
  table k i := by
    rw [table, hs]
    exact positions_eq_some r.entries (sorted.imp fun h => Nat.ne_of_lt h) k i

theorem Valid.empty : ({} : Registry V).Valid where
  sorted := by simp [keys]
  pos := by simp [keys]
  le_last := by simp [keys]
  table k i := by simp [Registry.table, keys]

/-! ### Lookups -/

section Lookup
variable {r : Registry V} (hr : r.Valid)
include hr

theorem Valid.nodup : r.keys.Nodup := hr.sorted.imp fun h => Nat.ne_of_lt h

theorem Valid.slot?_of_getElem {i k : Nat} {v : V} (h : r.entries[i]? = some (k, v)) :
    r.slot? k = some i := by
  have hk : r.keys[i]? = some k := by simp [keys, h]
  simpa [slot?] using (hr.table k i).2 hk

theorem Valid.get?_of_getElem {i k : Nat} {v : V} (h : r.entries[i]? = some (k, v)) :
    r.get? k = some v := by
  simp [get?, hr.slot?_of_getElem h, h]

theorem Valid.slot?_eq_some {key : Int} {i : Nat} :
    r.slot? key = some i ↔ ∃ (k : Nat) (v : V), key = k ∧ r.entries[i]? = some (k, v) := by
  constructor
  · intro h
    obtain ⟨hneg, ht⟩ : ¬key < 0 ∧ r.table[key.toNat]? = some i := by
      simp only [slot?] at h
      split_ifs at h with hneg
      exact ⟨hneg, h⟩
    have hk := (hr.table _ _).1 ht
    simp only [keys, List.getElem?_map, Option.map_eq_some_iff] at hk
    obtain ⟨⟨k, v⟩, he, rfl⟩ := hk
    exact ⟨key.toNat, v, by omega, he⟩
  · rintro ⟨k, v, rfl, h⟩
    exact hr.slot?_of_getElem h

/-- The live identities are those of the entries. -/
theorem Valid.get?_eq_some {key : Int} {v : V} :
    r.get? key = some v ↔ ∃ (i k : Nat), key = k ∧ r.entries[i]? = some (k, v) := by
  constructor
  · intro h
    simp only [get?, Option.bind_eq_some_iff] at h
    obtain ⟨i, hi, hv⟩ := h
    obtain ⟨k, w, rfl, he⟩ := hr.slot?_eq_some.1 hi
    simp only [he, Option.map_some, Option.some.injEq] at hv
    exact ⟨i, k, rfl, hv ▸ he⟩
  · rintro ⟨i, k, rfl, h⟩
    exact hr.get?_of_getElem h

omit hr in
theorem get?_empty (key : Int) : ({} : Registry V).get? key = none := by
  rw [Option.eq_none_iff_forall_ne_some]
  intro v hv
  obtain ⟨i, k, -, he⟩ := Valid.empty.get?_eq_some.1 hv
  cases he

theorem Valid.get?_eq_some_iff_mem {key : Int} {v : V} :
    r.get? key = some v ↔ ∃ k : Nat, key = k ∧ (k, v) ∈ r.entries := by
  simp only [hr.get?_eq_some, List.mem_iff_getElem?]
  grind

theorem Valid.get?_of_mem {e : Nat × V} (h : e ∈ r.entries) : r.get? e.1 = some e.2 :=
  hr.get?_eq_some_iff_mem.2 ⟨e.1, rfl, h⟩

theorem Valid.contains_eq (key : Int) : r.contains key = (r.get? key).isSome := by
  rw [contains, get?]
  cases h : r.slot? key with
  | none => rfl
  | some i =>
    obtain ⟨k, v, -, he⟩ := hr.slot?_eq_some.1 h
    simp [he]

theorem Valid.le_last_of_get? {key : Int} {v : V} (h : r.get? key = some v) : key ≤ r.last := by
  obtain ⟨k, rfl, hm⟩ := hr.get?_eq_some_iff_mem.1 h
  exact_mod_cast hr.le_last k (List.mem_map_of_mem hm)

theorem Valid.get?_eq_none_of_last_lt {key : Int} (h : r.last < key) : r.get? key = none := by
  rw [Option.eq_none_iff_forall_ne_some]
  intro v hv
  have := hr.le_last_of_get? hv
  omega

/-- Two positions hold the same identity only when they are the same. -/
theorem Valid.getElem?_inj {i j k : Nat} {v w : V} (hi : r.entries[i]? = some (k, v))
    (hj : r.entries[j]? = some (k, w)) : i = j := by
  have := hr.slot?_of_getElem hi
  rw [hr.slot?_of_getElem hj] at this
  exact (Option.some.inj this).symm

end Lookup

/-! ### Changes -/

/-- The registry without the entry at a position. -/
def eraseAt (r : Registry V) (i : Nat) : Registry V :=
  { r with entries := r.entries.eraseIdx i, slots := none }

section Changes
variable {r : Registry V} (hr : r.Valid)
include hr

theorem Valid.add (v : V) : (r.add v).1.Valid where
  sorted := by
    simp only [Registry.add, keys, List.map_append, List.map_cons, List.map_nil,
      List.pairwise_append, List.pairwise_singleton, List.mem_singleton]
    refine ⟨hr.sorted, trivial, fun k hk _ h => h ▸ ?_⟩
    have := hr.le_last k hk
    omega
  pos k hk := by
    simp only [Registry.add, keys, List.map_append, List.mem_append, List.map_cons, List.map_nil,
      List.mem_singleton] at hk
    rcases hk with hk | rfl
    · exact hr.pos k hk
    · omega
  le_last k hk := by
    simp only [Registry.add, keys, List.map_append, List.mem_append, List.map_cons, List.map_nil,
      List.mem_singleton] at hk ⊢
    rcases hk with hk | rfl
    · have := hr.le_last k hk
      omega
    · omega
  table k i := by
    have hfresh : r.last + 1 ∉ r.keys := fun h => by
      have := hr.le_last _ h
      omega
    cases hs : r.slots with
    | none =>
      simp only [Registry.table, Registry.add, hs, Option.map_none, Option.getD_none]
      refine positions_eq_some _ ?_ k i
      rw [List.map_append, List.nodup_append]
      exact ⟨hr.nodup, by simp, fun a ha b hb => by
        have hb : b = r.last + 1 := by simpa using hb
        exact fun h => hfresh (hb ▸ h ▸ ha)⟩
    | some t =>
      have ht : ∀ k i : Nat, t[k]? = some i ↔ r.keys[i]? = some k := by
        simpa [Registry.table, hs] using hr.table
      simp only [Registry.table, Registry.add, hs, Option.map_some, Option.getD_some, keys, List.map_append,
        List.map_cons, List.map_nil, Std.HashMap.getElem?_insert, beq_iff_eq]
      rcases Nat.lt_trichotomy i r.entries.length with hi | rfl | hi
      · rw [List.getElem?_append_left (by simpa using hi)]
        split_ifs with hk
        · subst hk
          refine iff_of_false (by simp; omega) fun h => hfresh (List.mem_of_getElem? h)
        · exact ht k i
      · rw [List.getElem?_append_right (by simp)]
        split_ifs with hk
        · simp [hk]
        · refine iff_of_false (fun h => ?_) (by simpa using hk)
          have := (ht _ _).1 h
          simp [keys] at this
      · rw [List.getElem?_eq_none (by simp; omega)]
        split_ifs with hk
        · simp; omega
        · refine iff_of_false (fun h => ?_) (by simp)
          have hlt := List.getElem?_eq_some_iff.1 ((ht _ _).1 h)
          simp only [keys, List.length_map] at hlt
          have := hlt.1
          omega

theorem Valid.get?_add (v : V) (key : Int) :
    (r.add v).1.get? key = if key = ((r.last + 1 : Nat) : Int) then some v else r.get? key := by
  ext w
  rw [(hr.add v).get?_eq_some_iff_mem]
  simp only [Registry.add, List.mem_append, List.mem_singleton, Prod.mk.injEq]
  split_ifs with hk
  · subst hk
    constructor
    · rintro ⟨k, hk, h | h⟩
      · have := hr.le_last k (List.mem_map_of_mem h)
        omega
      · rw [h.2]
    · intro h
      exact ⟨_, rfl, .inr ⟨rfl, (Option.some.inj h).symm⟩⟩
  · rw [hr.get?_eq_some_iff_mem]
    constructor
    · rintro ⟨k, rfl, h | h⟩
      · exact ⟨k, rfl, h⟩
      · exact absurd (by rw [h.1]) hk
    · rintro ⟨k, rfl, h⟩
      exact ⟨k, rfl, .inl h⟩

/-- A change of a live value happens at its position. -/
theorem Valid.modify_of_getElem {i k : Nat} {v : V} (h : r.entries[i]? = some (k, v))
    (f : V → V) : r.modify k f = { r with entries := r.entries.modify i fun e => (e.1, f e.2) } := by
  simp [Registry.modify, hr.slot?_of_getElem h]

theorem Valid.delete?_of_getElem {i k : Nat} {v : V} (h : r.entries[i]? = some (k, v)) :
    r.delete? k = some (r.eraseAt i, v) := by
  simp [delete?, Registry.eraseAt, hr.slot?_of_getElem h, h]

end Changes

@[simp] theorem keys_modify (r : Registry V) (key : Int) (f : V → V) :
    (r.modify key f).keys = r.keys := by
  rw [modify]
  cases r.slot? key with
  | none => rfl
  | some i =>
    refine List.ext_getElem? fun j => ?_
    simp only [keys, List.getElem?_map, List.getElem?_modify, Option.map_eq_map, Option.map_map]
    split_ifs <;> cases r.entries[j]? <;> rfl

@[simp] theorem last_modify (r : Registry V) (key : Int) (f : V → V) :
    (r.modify key f).last = r.last := by
  rw [modify]
  split <;> rfl

@[simp] theorem slots_modify (r : Registry V) (key : Int) (f : V → V) :
    (r.modify key f).slots = r.slots := by
  rw [modify]
  split <;> rfl

@[simp] theorem keys_mapValues (r : Registry V) (f : V → V) : (r.mapValues f).keys = r.keys := by
  simp [keys, mapValues, Function.comp_def]

/-- Validity is about identities, not about values. -/
theorem Valid.of_keys {W : Type} {r : Registry V} {s : Registry W} (hr : r.Valid)
    (hk : s.keys = r.keys) (hl : s.last = r.last) (hs : s.slots = r.slots) : s.Valid where
  sorted := hk ▸ hr.sorted
  pos := hk ▸ hr.pos
  le_last := hk ▸ hl ▸ hr.le_last
  table k i := by
    cases h : r.slots with
    | none =>
      have hn : s.keys.Nodup := hk ▸ hr.nodup
      rw [Registry.table, hs, h]
      exact positions_eq_some s.entries hn k i
    | some t =>
      have := hr.table k i
      rw [Registry.table, h] at this
      rw [Registry.table, hs, h, hk]
      exact this

section Changes
variable {r : Registry V} (hr : r.Valid)
include hr

theorem Valid.modify (key : Int) (f : V → V) : (r.modify key f).Valid :=
  hr.of_keys (keys_modify r key f) (last_modify r key f) (slots_modify r key f)

theorem Valid.mapValues (f : V → V) : (r.mapValues f).Valid :=
  hr.of_keys (keys_mapValues r f) rfl rfl

/-- Two changes of one value. -/
theorem Valid.modify_modify (key : Int) (f g : V → V) :
    (r.modify key f).modify key g = r.modify key fun v => g (f v) := by
  cases hs : r.slot? key with
  | none => simp [Registry.modify, hs]
  | some i =>
    obtain ⟨n, v, rfl, he⟩ := hr.slot?_eq_some.1 hs
    have he' : (r.modify n f).entries[i]? = some (n, f v) := by
      rw [hr.modify_of_getElem he]
      simp [he]
    rw [(hr.modify n f).modify_of_getElem he', hr.modify_of_getElem he,
      hr.modify_of_getElem he, List.modify_modify_eq]
    rfl

theorem Valid.get?_modify (k : Int) (f : V → V) (key : Int) :
    (r.modify k f).get? key = if key = k then (r.get? key).map f else r.get? key := by
  cases hs : r.slot? k with
  | none =>
    have hg : r.get? k = none := by simp [get?, hs]
    rw [Registry.modify, hs]
    split_ifs with h
    · rw [h, hg]
      rfl
    · rfl
  | some i =>
    obtain ⟨n, v, rfl, he⟩ := hr.slot?_eq_some.1 hs
    ext w
    rw [(hr.modify n f).get?_eq_some, hr.modify_of_getElem he]
    simp only [List.getElem?_modify, Option.map_eq_map, Option.map_eq_some_iff]
    split_ifs with h
    · subst h
      rw [hr.get?_of_getElem he]
      constructor
      · rintro ⟨j, k, hk, e, hj, hw⟩
        have hk : n = k := by exact_mod_cast hk
        subst hk
        split_ifs at hw with hij
        · subst hij
          rw [he] at hj
          cases hj
          simpa using hw
        · cases hw
          exact absurd (hr.getElem?_inj he hj) hij
      · intro hw
        exact ⟨i, n, rfl, (n, v), he, by simpa using hw⟩
    · rw [hr.get?_eq_some]
      constructor
      · rintro ⟨j, k, rfl, e, hj, hw⟩
        split_ifs at hw with hij
        · subst hij
          rw [he] at hj
          cases hj
          simp only [Prod.mk.injEq] at hw
          exact absurd (by rw [hw.1]) h
        · exact ⟨j, k, rfl, by rw [hj]; simpa using hw⟩
      · rintro ⟨j, k, rfl, hj⟩
        have hij : i ≠ j := by
          rintro rfl
          rw [he] at hj
          cases hj
          exact h rfl
        exact ⟨j, k, rfl, (k, w), hj, by rw [if_neg hij]⟩

theorem Valid.get?_mapValues (f : V → V) (key : Int) :
    (r.mapValues f).get? key = (r.get? key).map f := by
  ext w
  rw [(hr.mapValues f).get?_eq_some_iff_mem, Option.map_eq_some_iff]
  simp only [hr.get?_eq_some_iff_mem, Registry.mapValues, List.mem_map, Prod.mk.injEq, Prod.exists]
  constructor
  · rintro ⟨k, rfl, k', v, hm, rfl, rfl⟩
    exact ⟨v, ⟨k', rfl, hm⟩, rfl⟩
  · rintro ⟨v, ⟨k, rfl, hm⟩, rfl⟩
    exact ⟨k, rfl, k, v, hm, rfl, rfl⟩

theorem Valid.eraseAt (i : Nat) : (r.eraseAt i).Valid := by
  have hsub : ((r.entries.eraseIdx i).map (·.1)).Sublist r.keys :=
    (List.eraseIdx_sublist r.entries i).map _
  exact valid_of_slots_none rfl (hr.sorted.sublist hsub) (fun n hn => hr.pos n (hsub.subset hn))
    (fun n hn => hr.le_last n (hsub.subset hn))

theorem Valid.get?_eraseAt {i k : Nat} {v : V} (h : r.entries[i]? = some (k, v)) (key : Int) :
    (r.eraseAt i).get? key = if key = k then none else r.get? key := by
  ext w
  rw [(hr.eraseAt i).get?_eq_some_iff_mem]
  simp only [Registry.eraseAt, List.mem_eraseIdx_iff_getElem?]
  split_ifs with hk
  · subst hk
    refine iff_of_false ?_ (by simp)
    rintro ⟨n, hn, j, hne, hj⟩
    have hn : k = n := by exact_mod_cast hn
    subst hn
    exact hne (hr.getElem?_inj hj h)
  · rw [hr.get?_eq_some]
    constructor
    · rintro ⟨n, rfl, j, -, hj⟩
      exact ⟨j, n, rfl, hj⟩
    · rintro ⟨j, n, rfl, hj⟩
      refine ⟨n, rfl, j, ?_, hj⟩
      rintro rfl
      rw [h] at hj
      cases hj
      exact hk rfl

theorem Valid.delete?_eq_none {key : Int} : r.delete? key = none ↔ r.get? key = none := by
  cases hs : r.slot? key with
  | none => simp [delete?, get?, hs]
  | some i =>
    obtain ⟨k, v, rfl, he⟩ := hr.slot?_eq_some.1 hs
    simp [hr.delete?_of_getElem he, hr.get?_of_getElem he]

end Changes

end Registry

end MixedInteger
