import MixedInteger.Problem.Edit
import MixedInteger.Problem.Query
import Mathlib.Data.List.Basic
import Mathlib.Data.List.Sort

/-! The coefficients of a row. A row fits a problem when it lists distinct columns of
the problem, none with the coefficient zero. Its entries in order are then the
coefficients of the columns in order, and deleting a column drops one of them and
moves the later ones down. -/

namespace MixedInteger

theorem lookup_cons_ite {κ β : Type} [DecidableEq κ] (k : κ) (e : κ × β) (es : List (κ × β)) :
    (e :: es).lookup k = if k = e.1 then some e.2 else es.lookup k := by
  obtain ⟨a, v⟩ := e
  rw [List.lookup_cons]
  by_cases h : k = a
  · simp [h]
  · have h' : (k == a) = false := by simpa using h
    simp [h, h']

/-- With distinct keys a lookup is membership. -/
theorem lookup_eq_some_iff_mem {κ β : Type} [BEq κ] [LawfulBEq κ] {l : List (κ × β)} {k : κ}
    {v : β} (hn : (l.map (·.1)).Nodup) : l.lookup k = some v ↔ (k, v) ∈ l := by
  induction l with
  | nil => simp
  | cons e es ih =>
    obtain ⟨a, w⟩ := e
    rw [List.map_cons, List.nodup_cons] at hn
    by_cases hk : k = a
    · subst hk
      have hmem : (k, v) ∉ es := fun h => hn.1 (List.mem_map.2 ⟨_, h, rfl⟩)
      simp [hmem, eq_comm]
    · have hk' : (k == a) = false := by simpa using hk
      simp [List.lookup_cons, hk', ih hn.2, hk]

/-- An entry that takes the place of the one with its key, at the end of the table. -/
theorem lookup_replaced {κ β : Type} [DecidableEq κ] (es : List (κ × β)) (k : κ) (v : β) (i : κ) :
    ((es.filter fun e => e.1 != k) ++ [(k, v)]).lookup i =
      if i = k then some v else es.lookup i := by
  induction es with
  | nil => simp [lookup_cons_ite]
  | cons e es ih =>
    rw [lookup_cons_ite]
    by_cases he : e.1 = k
    · rw [List.filter_cons_of_neg (by simpa using he), ih, he]
      split_ifs <;> rfl
    · rw [List.filter_cons_of_pos (by simpa using he), List.cons_append, lookup_cons_ite, ih]
      split_ifs with hie hik hik
      · exact absurd (hie.symm.trans hik) he
      · rfl
      · rfl
      · rfl

theorem nodup_replaced {κ β : Type} [DecidableEq κ] {es : List (κ × β)}
    (h : (es.map (·.1)).Nodup) (k : κ) (v : β) :
    (((es.filter fun e => e.1 != k) ++ [(k, v)]).map (·.1)).Nodup := by
  rw [List.map_append, List.nodup_append]
  refine ⟨h.sublist (List.filter_sublist.map _), List.nodup_singleton k, ?_⟩
  rintro a ha c hc rfl
  obtain ⟨e, he, rfl⟩ := List.mem_map.1 ha
  have hne := (List.mem_filter.1 he).2
  exact bne_iff_ne.1 hne (List.mem_singleton.1 hc)

/-- Two tables with distinct keys in increasing order and the same lookups are one. -/
theorem eq_of_lookup {β : Type} {l m : List (Nat × β)} (hl : (l.map (·.1)).Pairwise (· < ·))
    (hm : (m.map (·.1)).Pairwise (· < ·)) (h : ∀ k, l.lookup k = m.lookup k) : l = m := by
  have hnl : (l.map (·.1)).Nodup := hl.imp fun h => Nat.ne_of_lt h
  have hnm : (m.map (·.1)).Nodup := hm.imp fun h => Nat.ne_of_lt h
  have hanti : ∀ a b : Nat × β, a ∈ l → b ∈ m → a.1 < b.1 → b.1 < a.1 → a = b := by
    intro a b _ _ hab hba
    omega
  refine List.Perm.eq_of_pairwise hanti (List.pairwise_map.1 hl) (List.pairwise_map.1 hm) ?_
  refine (List.perm_ext_iff_of_nodup hnl.of_map hnm.of_map).2 fun ⟨k, v⟩ => ?_
  rw [← lookup_eq_some_iff_mem hnl, h, lookup_eq_some_iff_mem hnm]

variable {α : Type} [Scalar α]

/-- The coefficients of a row of a problem with `n` columns. -/
structure Row.Fits (n : Nat) (r : Row α) : Prop where
  nodup : (r.coefs.map (·.1)).Nodup
  range : ∀ e ∈ r.coefs, 0 < e.1 ∧ e.1 ≤ n
  nonzero : ∀ e ∈ r.coefs, (e.2 == 0) = false

namespace Row.Fits

variable {n : Nat} {r : Row α}

theorem lookup_eq_some (h : r.Fits n) {j : Nat} {x : α} :
    r.coefs.lookup j = some x ↔ (j, x) ∈ r.coefs :=
  lookup_eq_some_iff_mem h.nodup

theorem mono {m : Nat} (h : r.Fits n) (hm : n ≤ m) : r.Fits m where
  nodup := h.nodup
  range e he := ⟨(h.range e he).1, (h.range e he).2.trans hm⟩
  nonzero := h.nonzero

theorem lookup_nonzero (h : r.Fits n) {j : Nat} {x : α} (hx : r.coefs.lookup j = some x) :
    (x == 0) = false :=
  h.nonzero _ (h.lookup_eq_some.1 hx)

theorem lookup_eq_none (h : r.Fits n) {j : Nat} (hj : n < j) : r.coefs.lookup j = none := by
  rw [Option.eq_none_iff_forall_ne_some]
  intro x hx
  have := (h.range _ (h.lookup_eq_some.1 hx)).2
  omega

/-! ### The entries in order -/

theorem pairwise_entries (h : r.Fits n) : (r.entries.map (·.1)).Pairwise (· < ·) := by
  have hle : r.entries.Pairwise fun a b => a.1 ≤ b.1 := by
    let before (a b : Nat × α) : Bool := decide (a.1 ≤ b.1)
    have htrans : ∀ a b c : Nat × α, before a b → before b c → before a c := by
      simp only [before, decide_eq_true_eq]
      omega
    have htotal : ∀ a b : Nat × α, before a b || before b a := by
      simp only [before, Bool.or_eq_true, decide_eq_true_eq]
      omega
    simpa [Row.entries, sortEntries, before] using List.pairwise_mergeSort htrans htotal r.coefs
  have hne : (r.entries.map (·.1)).Nodup :=
    ((List.mergeSort_perm r.coefs _).map (·.1)).nodup_iff.2 h.nodup
  rw [List.pairwise_map]
  exact hle.imp₂ (fun a b hab hne => Nat.lt_of_le_of_ne hab hne) (List.pairwise_map.1 hne)

theorem lookup_entries (h : r.Fits n) (j : Nat) : r.entries.lookup j = r.coefs.lookup j := by
  have hn : (r.entries.map (·.1)).Nodup := h.pairwise_entries.imp fun h => Nat.ne_of_lt h
  ext x
  rw [lookup_eq_some_iff_mem hn, h.lookup_eq_some]
  exact List.mem_mergeSort

/-- The entries of a row run through the columns. -/
theorem entries_eq (h : r.Fits n) :
    r.entries = (List.range n).filterMap fun i =>
      (r.coefs.lookup (i + 1)).map fun x => (i + 1, x) := by
  have hmap : ((List.range n).filterMap fun i => (r.coefs.lookup (i + 1)).map fun x => (i + 1, x)).map
      (·.1) = ((List.range n).filter fun i => (r.coefs.lookup (i + 1)).isSome).map (· + 1) := by
    generalize List.range n = is
    induction is with
    | nil => rfl
    | cons i is ih => cases hx : r.coefs.lookup (i + 1) <;> simp [hx, ih]
  have hlt : (((List.range n).filterMap fun i => (r.coefs.lookup (i + 1)).map fun x =>
      (i + 1, x)).map (·.1)).Pairwise (· < ·) := by
    rw [hmap, List.pairwise_map]
    exact (List.pairwise_lt_range.filter _).imp fun h => by omega
  refine eq_of_lookup h.pairwise_entries hlt fun j => ?_
  rw [h.lookup_entries]
  ext x
  rw [lookup_eq_some_iff_mem (hlt.imp fun h => Nat.ne_of_lt h)]
  simp only [List.mem_filterMap, List.mem_range, Option.map_eq_some_iff, Prod.mk.injEq]
  constructor
  · intro hx
    have hr := h.range _ (h.lookup_eq_some.1 hx)
    refine ⟨j - 1, by omega, x, ?_, by omega, rfl⟩
    rwa [Nat.sub_add_cancel hr.1]
  · rintro ⟨i, -, y, hy, rfl, rfl⟩
    exact hy

end Row.Fits

/-! ### Deleting a column -/

/-- The number of a column once column `j` is gone. -/
def closeGap (j k : Nat) : Nat := if j < k then k - 1 else k

theorem closeGap_inj {j a b : Nat} (ha : a ≠ j) (hb : b ≠ j) (h : closeGap j a = closeGap j b) :
    a = b := by
  simp only [closeGap] at h
  split_ifs at h <;> omega

theorem renumber_singleton (j k : Nat) :
    renumber [j] k = if k = j then none else some (closeGap j k) := by
  simp only [renumber, List.mem_singleton, closeGap]
  split_ifs <;> simp_all

theorem Row.coefs_dropColumns (j : Nat) (r : Row α) :
    (r.dropColumns [j]).coefs =
      (r.coefs.filter fun e => e.1 ≠ j).map fun e => (closeGap j e.1, e.2) := by
  simp only [Row.dropColumns, renumber_singleton]
  generalize r.coefs = es
  induction es with
  | nil => rfl
  | cons e es ih => by_cases he : e.1 = j <;> simp [he, ih]

theorem Row.Fits.dropColumns {n : Nat} {r : Row α} {j : Nat} (h : r.Fits (n + 1)) (hj : 0 < j)
    (hjn : j ≤ n + 1) : (r.dropColumns [j]).Fits n where
  nodup := by
    rw [Row.coefs_dropColumns, List.map_map]
    have hn : ((r.coefs.filter fun e => e.1 ≠ j).map (·.1)).Nodup :=
      h.nodup.sublist (List.filter_sublist.map _)
    refine List.pairwise_map.2 ((List.pairwise_map.1 hn).imp_of_mem ?_)
    intro a b ha hb hab heq
    simp only [List.mem_filter, decide_eq_true_eq] at ha hb
    exact hab (closeGap_inj ha.2 hb.2 heq)
  range e he := by
    rw [Row.coefs_dropColumns] at he
    simp only [List.mem_map, List.mem_filter, decide_eq_true_eq] at he
    obtain ⟨e, ⟨hm, hne⟩, rfl⟩ := he
    have := h.range e hm
    simp only [closeGap]
    split_ifs <;> omega
  nonzero e he := by
    rw [Row.coefs_dropColumns] at he
    simp only [List.mem_map, List.mem_filter] at he
    obtain ⟨e, ⟨hm, -⟩, rfl⟩ := he
    exact h.nonzero e hm

/-- The coefficient of a column that stays, under its new number. -/
theorem Row.Fits.lookup_dropColumns {n : Nat} {r : Row α} {j k : Nat} (h : r.Fits (n + 1))
    (hj : 0 < j) (hjn : j ≤ n + 1) (hk : k ≠ j) :
    (r.dropColumns [j]).coefs.lookup (closeGap j k) = r.coefs.lookup k := by
  ext x
  rw [(h.dropColumns hj hjn).lookup_eq_some, h.lookup_eq_some, Row.coefs_dropColumns]
  simp only [List.mem_map, List.mem_filter, decide_eq_true_eq, Prod.mk.injEq]
  constructor
  · rintro ⟨e, ⟨hm, hne⟩, heq, rfl⟩
    rw [← closeGap_inj hne hk heq]
    exact hm
  · intro hm
    exact ⟨(k, x), ⟨hm, hk⟩, rfl, rfl⟩

end MixedInteger
