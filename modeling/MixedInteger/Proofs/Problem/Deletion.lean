import MixedInteger.Problem.Edit
import MixedInteger.Proofs.Problem.Edit
import MixedInteger.Proofs.Steps
import Mathlib.Data.List.Induction

/-! Deleting many columns or rows at once. The numbers that stay close the gaps in their order, and
the matrix follows: each coefficient of a pair that stays stands under the new numbers of the pair,
and there is no other one. Deleting a list of numbers is the same as deleting them one by one from
the highest to the lowest, so that no deletion moves a number that is still to be deleted. -/

namespace MixedInteger

/-! ### Sorting what stays -/

/-- Picking from a sorted list is sorting what is picked, if the order stays. -/
theorem filterMap_mergeSort {β γ : Type} {r : β → β → Bool} {s : γ → γ → Bool}
    (rtrans : ∀ a b c, r a b → r b c → r a c) (rtotal : ∀ a b, r a b || r b a)
    (strans : ∀ a b c, s a b → s b c → s a c) (stotal : ∀ a b, s a b || s b a)
    {f : β → Option γ} (hf : ∀ {a b a' b'}, f a = some a' → f b = some b' → s a' b' = r a b)
    (l : List β) : (l.mergeSort r).filterMap f = (l.filterMap f).mergeSort s := by
  induction l with
  | nil => simp
  | cons a l ih =>
    obtain ⟨l₁, l₂, hsort, hrest, hbefore⟩ := List.mergeSort_cons rtrans rtotal a l
    have hafter : ∀ c ∈ l₂, r a c := by
      have hsorted := List.pairwise_mergeSort rtrans rtotal (a :: l)
      rw [hsort] at hsorted
      exact (List.pairwise_cons.1 (List.pairwise_append.1 hsorted).2.1).1
    rw [hrest, List.filterMap_append] at ih
    rw [hsort, List.filterMap_append, List.filterMap_cons]
    cases ha : f a with
    | none => rw [List.filterMap_cons_none ha, ← ih]
    | some a' =>
      obtain ⟨m₁, m₂, hsort', hrest', hbefore'⟩ :=
        List.mergeSort_cons strans stotal a' (l.filterMap f)
      have hafter' : ∀ c ∈ m₂, s a' c := by
        have hsorted := List.pairwise_mergeSort strans stotal (a' :: l.filterMap f)
        rw [hsort'] at hsorted
        exact (List.pairwise_cons.1 (List.pairwise_append.1 hsorted).2.1).1
      -- Both sides part the same list into what stands before the new entry and what does not.
      have hsame : m₁ ++ m₂ = l₁.filterMap f ++ l₂.filterMap f := hrest'.symm.trans ih.symm
      have hl₁ : ∀ b ∈ l₁.filterMap f, !s a' b := by
        intro b' hb'
        obtain ⟨b, hb, hfb⟩ := List.mem_filterMap.1 hb'
        rw [hf ha hfb]
        exact hbefore b hb
      have hl₂ : ∀ c ∈ l₂.filterMap f, s a' c := by
        intro c' hc'
        obtain ⟨c, hc, hfc⟩ := List.mem_filterMap.1 hc'
        rw [hf ha hfc]
        exact hafter c hc
      have hfirst := congrArg (List.filter fun b => !s a' b) hsame
      have hsecond := congrArg (List.filter fun b => s a' b) hsame
      rw [List.filter_append, List.filter_append, List.filter_eq_self.2 hbefore',
        List.filter_eq_self.2 hl₁, List.filter_eq_nil_iff.2 (by simpa using hafter'),
        List.filter_eq_nil_iff.2 (by simpa using hl₂), List.append_nil, List.append_nil] at hfirst
      rw [List.filter_append, List.filter_append, List.filter_eq_self.2 hafter',
        List.filter_eq_self.2 hl₂, List.filter_eq_nil_iff.2 (by simpa using hbefore'),
        List.filter_eq_nil_iff.2 (by simpa using hl₁), List.nil_append, List.nil_append] at hsecond
      rw [List.filterMap_cons_some ha, hsort', hfirst, hsecond]

/-! ### New numbers -/

/-- Numbers that may be deleted together when there are `n`. -/
structure Deletable (n : ℕ) (js : List ℤ) : Prop where
  range : ∀ j ∈ js, 1 ≤ j ∧ j ≤ n
  nodup : js.Nodup

/-- The number of what stays: the deleted ones below it are gone. -/
def newNumber (js : List ℤ) (j : ℕ) : ℕ := j - js.countP (· < (j : ℤ))

/-- An entry under its new number, unless it is deleted. -/
def moved? {β : Type} (js : List ℤ) (e : ℕ × β) : Option (ℕ × β) :=
  if (e.1 : ℤ) ∈ js then none else some (newNumber js e.1, e.2)

/-- One of `n` numbers that is not deleted. -/
structure Survives (n : ℕ) (js : List ℤ) (j : ℕ) : Prop where
  pos : 0 < j
  le : j ≤ n
  notMem : (j : ℤ) ∉ js

/-- The survivors among `n` numbers are counted up to `m` in their order. -/
structure Renumbered (n m : ℕ) (js : List ℤ) : Prop where
  count : m + js.length = n
  order : ∀ {j k}, Survives n js j → Survives n js k → j < k → newNumber js j < newNumber js k
  range : ∀ i, (0 < i ∧ i ≤ m) ↔ ∃ j, Survives n js j ∧ newNumber js j = i

/-- The numbers below the next one. -/
theorem countP_lt_succ (js : List ℤ) (k : ℕ) :
    js.countP (· < ((k + 1 : ℕ) : ℤ)) = js.countP (· < (k : ℤ)) + js.count (k : ℤ) := by
  induction js with
  | nil => rfl
  | cons j js ih =>
    simp only [List.countP_cons, List.count_cons, ih, decide_eq_true_eq, beq_iff_eq]
    split_ifs <;> omega

section Positive
variable {js : List ℤ} (hpos : ∀ j ∈ js, 1 ≤ j) (hn : js.Nodup)
include hpos hn

omit hpos in
theorem countP_lt_le {j k : ℕ} (h : j ≤ k) :
    js.countP (· < (k : ℤ)) ≤ js.countP (· < (j : ℤ)) + (k - j) := by
  induction k, h using Nat.le_induction with
  | base => simp
  | succ k hk ih =>
    have hcount := List.nodup_iff_count_le_one.1 hn (k : ℤ)
    rw [countP_lt_succ]
    omega

theorem countP_lt_le_pred (k : ℕ) : js.countP (· < (k : ℤ)) ≤ k - 1 := by
  have hone : js.countP (· < ((1 : ℕ) : ℤ)) = 0 := by
    rw [List.countP_eq_zero]
    intro j hj
    have := hpos j hj
    simpa using this
  obtain rfl | hk := Nat.eq_zero_or_pos k
  · rw [Nat.le_zero, List.countP_eq_zero]
    intro j hj
    have := hpos j hj
    simp only [decide_eq_true_eq]
    omega
  · have := countP_lt_le (j := 1) hn hk
    omega

theorem newNumber_lt {j k : ℕ} (hj : (j : ℤ) ∉ js) (h : j < k) :
    newNumber js j < newNumber js k := by
  have hstep := countP_lt_succ js j
  rw [List.count_eq_zero_of_not_mem hj] at hstep
  have hle := countP_lt_le (j := j + 1) hn h
  have hlej := countP_lt_le_pred hpos hn j
  have hlek := countP_lt_le_pred hpos hn k
  simp only [newNumber]
  omega

theorem newNumber_le_iff {j k : ℕ} (hj : (j : ℤ) ∉ js) (hk : (k : ℤ) ∉ js) :
    newNumber js j ≤ newNumber js k ↔ j ≤ k := by
  obtain hjk | rfl | hkj := Nat.lt_trichotomy j k
  · exact iff_of_true (newNumber_lt hpos hn hj hjk).le hjk.le
  · exact iff_of_true le_rfl le_rfl
  · exact iff_of_false (newNumber_lt hpos hn hk hkj).not_ge hkj.not_ge

theorem newNumber_inj {j k : ℕ} (hj : (j : ℤ) ∉ js) (hk : (k : ℤ) ∉ js)
    (h : newNumber js j = newNumber js k) : j = k :=
  le_antisymm ((newNumber_le_iff hpos hn hj hk).1 h.le) ((newNumber_le_iff hpos hn hk hj).1 h.ge)

omit hn in
theorem mem_map_toNat {k : ℕ} : k ∈ js.map Int.toNat ↔ (k : ℤ) ∈ js := by
  rw [List.mem_map]
  constructor
  · rintro ⟨j, hj, rfl⟩
    have := hpos j hj
    rwa [Int.toNat_of_nonneg (by omega)]
  · intro hk
    exact ⟨k, hk, Int.toNat_natCast k⟩

omit hn in
theorem renumber_eq (k : ℕ) :
    renumber (js.map Int.toNat) k = if (k : ℤ) ∈ js then none else some (newNumber js k) := by
  have hcount : ((js.map Int.toNat).filter (· < k)).length = js.countP (· < (k : ℤ)) := by
    rw [List.filter_map, List.length_map, List.countP_eq_length_filter]
    refine congrArg List.length (List.filter_congr fun j hj => ?_)
    have := hpos j hj
    simp only [Function.comp_apply, decide_eq_decide]
    omega
  simp only [renumber, mem_map_toNat hpos, hcount, newNumber]

omit hn in
theorem map_renumber_eq {β : Type} (e : ℕ × β) :
    (renumber (js.map Int.toNat) e.1).map (fun i => (i, e.2)) = moved? js e := by
  rw [renumber_eq hpos, moved?]
  split_ifs <;> rfl

end Positive

/-! ### Lists without some of their entries -/

/-- Entries with their numbers, counted from one. -/
def numbered {β : Type} (xs : List β) : List (ℕ × β) :=
  ((List.range xs.length).map (· + 1)).zip xs

theorem numbered_concat {β : Type} (xs : List β) (x : β) :
    numbered (xs ++ [x]) = numbered xs ++ [(xs.length + 1, x)] := by
  rw [numbered, List.length_append, List.length_singleton, List.range_succ, List.map_append,
    List.zip_append (by simp)]
  rfl

theorem mem_numbered {β : Type} {xs : List β} {j : ℕ} {x : β} :
    (j, x) ∈ numbered xs ↔ 0 < j ∧ xs[j - 1]? = some x := by
  induction xs using List.reverseRecOn with
  | nil => simp [numbered]
  | append_singleton xs y ih =>
    rw [numbered_concat, List.mem_append, ih, List.mem_singleton, Prod.mk.injEq,
      List.getElem?_append]
    by_cases hj : j - 1 < xs.length
    · have hne : j ≠ xs.length + 1 := by omega
      simp [hj, hne]
    · rw [if_neg hj, List.getElem?_eq_none (by omega), List.getElem?_singleton]
      constructor
      · rintro (⟨-, hx⟩ | ⟨rfl, rfl⟩)
        · cases hx
        · simp
      · rintro ⟨hpos, hx⟩
        split_ifs at hx with hzero
        cases hx
        exact .inr ⟨by omega, rfl⟩

theorem without_eq {β : Type} (doomed : List ℕ) (xs : List β) :
    without doomed xs = (numbered xs).filterMap fun e => if e.1 ∈ doomed then none else some e.2 := by
  rw [without, numbered, List.zip_map_left, List.filterMap_map]
  rfl

section Without
variable {β : Type} {js : List ℤ} (hpos : ∀ j ∈ js, 1 ≤ j) (hn : js.Nodup)
include hpos hn

/-- What stays, with its new numbers. -/
theorem numbered_without (xs : List β) :
    (without (js.map Int.toNat) xs).length + js.countP (· < ((xs.length + 1 : ℕ) : ℤ)) =
        xs.length ∧
      numbered (without (js.map Int.toNat) xs) = (numbered xs).filterMap (moved? js) := by
  induction xs using List.reverseRecOn with
  | nil =>
    have hcount := countP_lt_le_pred hpos hn 1
    exact ⟨by simpa [without, numbered] using hcount, rfl⟩
  | append_singleton xs x ih =>
    obtain ⟨hlength, hnumbered⟩ := ih
    have hstep := countP_lt_succ js (xs.length + 1)
    have hsplit : without (js.map Int.toNat) (xs ++ [x]) = without (js.map Int.toNat) xs ++
        if ((xs.length + 1 : ℕ) : ℤ) ∈ js then [] else [x] := by
      rw [without_eq, numbered_concat, List.filterMap_append, ← without_eq, List.filterMap_cons]
      simp only [mem_map_toNat hpos]
      split_ifs <;> rfl
    rw [hsplit, numbered_concat, List.filterMap_append, List.length_append, List.length_append,
      List.length_singleton, hstep, List.filterMap_cons, moved?]
    split_ifs with hmem
    · have hcount : js.count ((xs.length + 1 : ℕ) : ℤ) = 1 :=
        le_antisymm (List.nodup_iff_count_le_one.1 hn _) (List.count_pos_iff.2 hmem)
      refine ⟨by simp only [List.length_nil]; omega, ?_⟩
      simp [hnumbered]
    · have hcount : js.count ((xs.length + 1 : ℕ) : ℤ) = 0 := List.count_eq_zero_of_not_mem hmem
      have hnew : newNumber js (xs.length + 1) = (without (js.map Int.toNat) xs).length + 1 := by
        rw [newNumber]
        omega
      refine ⟨by simp only [List.length_singleton]; omega, ?_⟩
      rw [numbered_concat, hnumbered, hnew]
      rfl

/-- An entry that stays, under its new number. -/
theorem getElem?_without (xs : List β) {j : ℕ} (hj : Survives xs.length js j) :
    (without (js.map Int.toNat) xs)[newNumber js j - 1]? = xs[j - 1]? := by
  have hlt : j - 1 < xs.length := by
    have := hj.pos
    have := hj.le
    omega
  have hold : (j, xs[j - 1]) ∈ numbered xs := mem_numbered.2 ⟨hj.pos, List.getElem?_eq_getElem hlt⟩
  have hnew : (newNumber js j, xs[j - 1]) ∈ numbered (without (js.map Int.toNat) xs) := by
    rw [(numbered_without hpos hn xs).2, List.mem_filterMap]
    exact ⟨_, hold, by rw [moved?, if_neg hj.notMem]⟩
  rw [(mem_numbered.1 hnew).2, List.getElem?_eq_getElem hlt]

end Without

theorem Deletable.length_without {β : Type} {js : List ℤ} {xs : List β}
    (h : Deletable xs.length js) : (without (js.map Int.toNat) xs).length + js.length = xs.length := by
  have hpos : ∀ j ∈ js, 1 ≤ j := fun j hj => (h.range j hj).1
  have hall : js.countP (· < ((xs.length + 1 : ℕ) : ℤ)) = js.length := by
    rw [List.countP_eq_length]
    intro j hj
    have := (h.range j hj).2
    simp only [decide_eq_true_eq]
    omega
  rw [← hall]
  exact (numbered_without hpos h.nodup xs).1

/-- The numbers that stay become the numbers of the list without the others. -/
theorem Deletable.renumbered {β : Type} {js : List ℤ} {xs : List β}
    (h : Deletable xs.length js) :
    Renumbered xs.length (without (js.map Int.toNat) xs).length js where
  count := h.length_without
  order hj _ hjk := newNumber_lt (fun i hi => (h.range i hi).1) h.nodup hj.notMem hjk
  range i := by
    have hpos : ∀ j ∈ js, 1 ≤ j := fun j hj => (h.range j hj).1
    constructor
    · rintro ⟨hi, him⟩
      have hlt : i - 1 < (without (js.map Int.toNat) xs).length := by omega
      have hmem := mem_numbered.2 ⟨hi, List.getElem?_eq_getElem hlt⟩
      rw [(numbered_without hpos h.nodup xs).2, List.mem_filterMap] at hmem
      obtain ⟨⟨j, x⟩, hj, hnew⟩ := hmem
      obtain ⟨hjpos, hx⟩ := mem_numbered.1 hj
      have hjlt := (List.getElem?_eq_some_iff.1 hx).1
      rw [moved?] at hnew
      split_ifs at hnew with hdeleted
      exact ⟨j, ⟨hjpos, by omega, hdeleted⟩, congrArg Prod.fst (Option.some.inj hnew)⟩
    · rintro ⟨j, hj, rfl⟩
      have hjpos := hj.pos
      have hjle := hj.le
      have hlt : j - 1 < xs.length := by omega
      have hx := getElem?_without hpos h.nodup xs hj
      rw [List.getElem?_eq_getElem hlt] at hx
      have hnew := (List.getElem?_eq_some_iff.1 hx).1
      have hbelow := countP_lt_le_pred hpos h.nodup j
      have hpositive : 0 < newNumber js j := by
        rw [newNumber]
        omega
      exact ⟨hpositive, by omega⟩

/-! ### The highest number first -/

section Highest
variable {d : ℕ} {ds : List ℕ} (hd : ∀ k ∈ ds, k < d)
include hd

theorem mem_cons_closeGap {k : ℕ} (hk : k ≠ d) : k ∈ d :: ds ↔ closeGap d k ∈ ds := by
  rw [List.mem_cons, or_iff_right hk, closeGap]
  split_ifs with h
  · refine iff_of_false (fun hmem => ?_) fun hmem => ?_
    · have := hd _ hmem
      omega
    · have := hd _ hmem
      omega
  · rfl

theorem renumber_cons (k : ℕ) : renumber (d :: ds) k = (renumber [d] k).bind (renumber ds) := by
  rw [renumber_singleton]
  by_cases hk : k = d
  · rw [if_pos hk, renumber, if_pos (hk ▸ List.mem_cons_self)]
    rfl
  · rw [if_neg hk, Option.bind_some, renumber, renumber]
    by_cases hmem : closeGap d k ∈ ds
    · rw [if_pos ((mem_cons_closeGap hd hk).2 hmem), if_pos hmem]
    · rw [if_neg fun h => hmem ((mem_cons_closeGap hd hk).1 h), if_neg hmem, closeGap]
      by_cases hlt : d < k
      · have hall : ∀ m, d ≤ m → ds.filter (· < m) = ds := fun m hm =>
          List.filter_eq_self.2 fun x hx => by simpa using (hd x hx).trans_le hm
        rw [if_pos hlt, List.filter_cons_of_pos (by simpa using hlt), hall k hlt.le,
          hall (k - 1) (by omega), List.length_cons]
        congr 1
        omega
      · rw [if_neg hlt, List.filter_cons_of_neg (by simpa using hlt)]

theorem without_cons {β : Type} (hpos : 0 < d) (xs : List β) :
    without (d :: ds) xs = without ds (without [d] xs) := by
  have hsingle : [d] = [(d : ℤ)].map Int.toNat := rfl
  have hone : ∀ j ∈ [(d : ℤ)], 1 ≤ j := by
    intro j hj
    rw [List.mem_singleton.1 hj]
    omega
  have hnumbered := (numbered_without hone (List.nodup_singleton _) xs).2
  rw [without_eq ds, hsingle, hnumbered, List.filterMap_filterMap, without_eq]
  refine List.filterMap_congr fun e _ => ?_
  rw [← map_renumber_eq hone, ← hsingle, renumber_singleton]
  by_cases he : e.1 = d
  · rw [if_pos (he ▸ List.mem_cons_self), if_pos he]
    rfl
  · rw [if_neg he, Option.map_some, Option.bind_some]
    exact if_congr (mem_cons_closeGap hd he) rfl rfl

end Highest

theorem without_perm {β : Type} {ds es : List ℕ} (h : ds.Perm es) (xs : List β) :
    without ds xs = without es xs := by
  simp only [without, h.mem_iff]

theorem renumber_perm {ds es : List ℕ} (h : ds.Perm es) : renumber ds = renumber es := by
  funext k
  simp only [renumber, h.mem_iff, (h.filter _).length_eq]

/-! ### Looking up numbers -/

/-- An entry by its number, counted from one. -/
def entryAt {β ε : Type} (xs : List β) (missing : ε) (j : ℤ) : Except ε β :=
  if j < 1 then .error missing
  else match xs[(j - 1).toNat]? with
    | some x => .ok x
    | none => .error missing

section EntryAt
variable {β γ ε : Type} {xs : List β} {missing : ε}

theorem entryAt_eq_ok {j : ℤ} {x : β} :
    entryAt xs missing j = .ok x ↔ 1 ≤ j ∧ xs[(j - 1).toNat]? = some x := by
  rw [entryAt]
  split_ifs with hj
  · exact iff_of_false (fun h => by cases h) fun h => by omega
  · cases xs[(j - 1).toNat]? with
    | none => exact iff_of_false (fun h => by cases h) fun h => by cases h.2
    | some y => rw [Except.ok.injEq, Option.some.injEq, and_iff_right (by omega)]

theorem exists_entryAt {j : ℤ} :
    (∃ x, entryAt xs missing j = .ok x) ↔ 1 ≤ j ∧ j ≤ xs.length := by
  constructor
  · rintro ⟨x, hx⟩
    obtain ⟨hj, hx⟩ := entryAt_eq_ok.1 hx
    have := (List.getElem?_eq_some_iff.1 hx).1
    omega
  · rintro ⟨hj, hle⟩
    have hlt : (j - 1).toNat < xs.length := by omega
    exact ⟨_, entryAt_eq_ok.2 ⟨hj, List.getElem?_eq_getElem hlt⟩⟩

theorem entryAt_map (f : β → γ) (j : ℤ) :
    entryAt (xs.map f) missing j = (entryAt xs missing j).map f := by
  rw [entryAt, entryAt, List.getElem?_map]
  split_ifs
  · rfl
  · cases xs[(j - 1).toNat]? <;> rfl

/-- What stays is found under its new number. -/
theorem entryAt_without {js : List ℤ} (h : Deletable xs.length js) {j : ℕ}
    (hj : Survives xs.length js j) (missing' : ε) :
    entryAt (without (js.map Int.toNat) xs) missing' (newNumber js j : ℤ) =
      entryAt xs missing j := by
  have hjpos := hj.pos
  have hjle := hj.le
  obtain ⟨x, hx⟩ : ∃ x, entryAt xs missing j = .ok x := exists_entryAt.2 (by omega)
  have hnew := (h.renumbered.range (newNumber js j)).2 ⟨j, hj, rfl⟩
  have hindex : ∀ i : ℕ, ((i : ℤ) - 1).toNat = i - 1 := fun i => by omega
  rw [hx, entryAt_eq_ok, hindex,
    getElem?_without (fun i hi => (h.range i hi).1) h.nodup xs hj, ← hindex]
  exact ⟨by omega, (entryAt_eq_ok.1 hx).2⟩

end EntryAt

/-! ### Checking a list of numbers -/

/-- Numbers that are looked up one after the other, and refused when one comes again. -/
def checkNumbers {β ε : Type} (look : ℤ → Except ε β) (again : ℤ → ε) (seen : List ℤ) :
    List ℤ → Except ε Unit
  | [] => .ok ()
  | j :: js => do
    let _ ← look j
    if j ∈ seen then .error (again j) else checkNumbers look again (j :: seen) js

theorem checkNumbers_eq_ok {β ε : Type} {look : ℤ → Except ε β} {again : ℤ → ε} {n : ℕ}
    (hlook : ∀ j, (∃ b, look j = .ok b) ↔ 1 ≤ j ∧ j ≤ n) (js seen : List ℤ) :
    checkNumbers look again seen js = .ok () ↔ Deletable n js ∧ ∀ j ∈ js, j ∉ seen := by
  induction js generalizing seen with
  | nil => exact iff_of_true rfl ⟨⟨by simp, .nil⟩, by simp⟩
  | cons j js ih =>
    rw [checkNumbers]
    cases hj : look j with
    | error e =>
      have hrange : ¬(1 ≤ j ∧ j ≤ n) := by
        rw [← hlook, hj]
        rintro ⟨b, hb⟩
        cases hb
      exact iff_of_false (fun h => by cases h) fun h => hrange (h.1.range j List.mem_cons_self)
    | ok b =>
      have hrange := (hlook j).1 ⟨b, hj⟩
      rw [bind_ok]
      split_ifs with hseen
      · exact iff_of_false (fun h => by cases h) fun h => h.2 j List.mem_cons_self hseen
      · rw [ih]
        constructor
        · rintro ⟨hjs, hnew⟩
          have hmem : j ∉ js := fun h => hnew j h List.mem_cons_self
          refine ⟨⟨List.forall_mem_cons.2 ⟨hrange, hjs.range⟩, List.nodup_cons.2 ⟨hmem, hjs.nodup⟩⟩,
            List.forall_mem_cons.2 ⟨hseen, fun i hi h => hnew i hi (List.mem_cons_of_mem j h)⟩⟩
        · rintro ⟨hjs, hnew⟩
          obtain ⟨hmem, hn⟩ := List.nodup_cons.1 hjs.nodup
          refine ⟨⟨(List.forall_mem_cons.1 hjs.range).2, hn⟩, fun i hi h => ?_⟩
          obtain rfl | h := List.mem_cons.1 h
          · exact hmem hi
          · exact hnew i (List.mem_cons_of_mem j hi) h

variable {α : Type} [Scalar α]

/-! ### Rows without some of their columns -/

namespace Row

variable {js : List ℤ} (hpos : ∀ j ∈ js, 1 ≤ j) (hn : js.Nodup) (r : Row α)

theorem dropColumns_perm {ds es : List ℕ} (h : ds.Perm es) :
    Row.dropColumns (α := α) ds = Row.dropColumns es := by
  funext r
  rw [dropColumns, dropColumns, renumber_perm h]

theorem dropColumns_cons {d : ℕ} {ds : List ℕ} (hd : ∀ k ∈ ds, k < d) :
    r.dropColumns (d :: ds) = (r.dropColumns [d]).dropColumns ds := by
  simp only [dropColumns, List.filterMap_filterMap, renumber_cons hd]
  congr 1
  refine List.filterMap_congr fun e _ => ?_
  cases renumber [d] e.1 <;> rfl

include hpos

theorem coefs_dropColumns_eq :
    (r.dropColumns (js.map Int.toNat)).coefs = r.coefs.filterMap (moved? js) :=
  List.filterMap_congr fun e _ => map_renumber_eq hpos e

include hn

theorem entries_dropColumns :
    (r.dropColumns (js.map Int.toNat)).entries = r.entries.filterMap (moved? js) := by
  rw [entries, coefs_dropColumns_eq hpos, entries, sortEntries, sortEntries]
  refine (filterMap_mergeSort ?_ ?_ ?_ ?_ ?_ _).symm
  · intro a b c
    simp only [decide_eq_true_eq]
    exact le_trans
  · intro a b
    simp only [Bool.or_eq_true, decide_eq_true_eq]
    exact le_total _ _
  · intro a b c
    simp only [decide_eq_true_eq]
    exact le_trans
  · intro a b
    simp only [Bool.or_eq_true, decide_eq_true_eq]
    exact le_total _ _
  · intro a b a' b' ha hb
    rw [moved?] at ha hb
    split_ifs at ha hb with hmema hmemb
    cases ha
    cases hb
    rw [decide_eq_decide]
    exact newNumber_le_iff hpos hn hmema hmemb

/-- The coefficient of a column that stays is found under its new number. -/
theorem lookup_dropColumns {j : ℕ} (hj : (j : ℤ) ∉ js) :
    (r.dropColumns (js.map Int.toNat)).coefs.lookup (newNumber js j) = r.coefs.lookup j := by
  rw [coefs_dropColumns_eq hpos]
  induction r.coefs with
  | nil => rfl
  | cons e es ih =>
    rw [List.filterMap_cons, lookup_cons_ite, moved?]
    by_cases he : (e.1 : ℤ) ∈ js
    · have hne : j ≠ e.1 := by
        rintro rfl
        exact hj he
      rw [if_pos he, if_neg hne]
      exact ih
    · rw [if_neg he]
      dsimp only
      rw [lookup_cons_ite]
      by_cases hje : j = e.1
      · rw [if_pos hje, if_pos (congrArg _ hje)]
      · rw [if_neg hje, if_neg fun h => hje (newNumber_inj hpos hn hj he h), ih]

end Row

/-! ### Deleting together and one by one -/

namespace Problem

/-- What a deletion by numbers does: where they may be deleted it leaves the problem that is told. -/
structure Removal (remove : Problem α → List ℤ → Except (ProblemError α) (Problem α))
    (size : Problem α → ℕ) (rest : Problem α → List ℤ → Problem α) : Prop where
  removes : ∀ {p js}, Deletable (size p) js → remove p js = .ok (rest p js)
  refuses : ∀ {p js}, ¬Deletable (size p) js → ∃ e, remove p js = .error e
  shrinks : ∀ {p js}, Deletable (size p) js → size (rest p js) + js.length = size p
  perm : ∀ {p js ks}, js.Perm ks → rest p js = rest p ks
  highest : ∀ {p d js}, Deletable (size p) (d :: js) → (∀ j ∈ js, j < d) →
    rest p (d :: js) = rest (rest p [d]) js

section Removal
variable {remove : Problem α → List ℤ → Except (ProblemError α) (Problem α)} {size : Problem α → ℕ}
  {rest : Problem α → List ℤ → Problem α} (h : Removal remove size rest)
include h

/-- Numbers from the highest to the lowest, each deleted on its own. -/
theorem Removal.forM_eq {js : List ℤ} {p : Problem α} (hne : js ≠ [])
    (hsorted : js.Pairwise (· > ·)) (hjs : Deletable (size p) js) :
    (forM js fun j => RowEdit.change fun p => remove p [j]) p = .ok () (rest p js) := by
  induction js generalizing p with
  | nil => exact absurd rfl hne
  | cons d js ih =>
    obtain ⟨hbelow, hsorted⟩ := List.pairwise_cons.1 hsorted
    have hd : Deletable (size p) [d] :=
      ⟨by simpa using hjs.range d List.mem_cons_self, List.nodup_singleton d⟩
    have hchange : RowEdit.change (fun p => remove p [d]) p = .ok () (rest p [d]) := by
      rw [RowEdit.change, h.removes hd]
    rw [List.forM_cons, bind_run, hchange]
    cases js with
    | nil => rfl
    | cons k ks =>
      have hsize := h.shrinks hd
      have hrest : Deletable (size (rest p [d])) (k :: ks) := by
        refine ⟨fun j hj => ?_, (List.nodup_cons.1 hjs.nodup).2⟩
        have hlow := (hjs.range j (List.mem_cons_of_mem d hj)).1
        have hhigh := (hjs.range d List.mem_cons_self).2
        have hlt := hbelow j hj
        rw [List.length_singleton] at hsize
        omega
      rw [h.highest hjs hbelow]
      exact ih (List.cons_ne_nil k ks) hsorted hrest

theorem Removal.separately {js : List ℤ} {p : Problem α} (hne : js ≠ [])
    (hjs : Deletable (size p) js) :
    (forM (js.mergeSort (· ≥ ·)) fun j => RowEdit.change fun p => remove p [j]) p =
      .ok () (rest p js) := by
  have hperm : (js.mergeSort (· ≥ ·)).Perm js := List.mergeSort_perm js _
  have hge : (js.mergeSort (· ≥ ·)).Pairwise (· ≥ ·) := by
    have htrans : ∀ a b c : ℤ, decide (a ≥ b) → decide (b ≥ c) → decide (a ≥ c) := by
      simp only [decide_eq_true_eq]
      omega
    have htotal : ∀ a b : ℤ, decide (a ≥ b) || decide (b ≥ a) := by
      simp only [Bool.or_eq_true, decide_eq_true_eq]
      omega
    simpa using List.pairwise_mergeSort htrans htotal js
  have hnodup := hperm.nodup_iff.2 hjs.nodup
  have hgt : (js.mergeSort (· ≥ ·)).Pairwise (· > ·) :=
    hge.imp₂ (fun a b hab hne => lt_of_le_of_ne hab hne.symm) hnodup
  rw [← h.perm hperm]
  refine h.forM_eq (fun hnil => hne ?_) hgt
    ⟨fun j hj => hjs.range j (hperm.mem_iff.1 hj), hnodup⟩
  exact List.Perm.eq_nil (hnil ▸ hperm.symm)

end Removal

theorem toNat_lt {d : ℤ} {js : List ℤ} (hbelow : ∀ j ∈ js, j < d) (hd : 1 ≤ d) :
    ∀ k ∈ js.map Int.toNat, k < d.toNat := by
  intro k hk
  obtain ⟨j, hj, rfl⟩ := List.mem_map.1 hk
  have := hbelow j hj
  omega

/-! ### Columns -/

variable {p : Problem α}

/-- The problem without the listed columns, and without solutions. -/
def withoutColumns (p : Problem α) (js : List ℤ) : Problem α :=
  { p with
    columns := without (js.map Int.toNat) p.columns
    rows := p.rows.map (Row.dropColumns (js.map Int.toNat)) }.forgetSolutions

theorem column_eq (p : Problem α) (j : ℤ) :
    p.column j = entryAt p.columns (.columnRange j) j := by
  rw [column, entryAt]
  cases p.columns[(j - 1).toNat]? <;> rfl

theorem row_eq (p : Problem α) (i : ℤ) : p.row i = entryAt p.rows (.rowRange i) i := by
  rw [row, entryAt]
  cases p.rows[(i - 1).toNat]? <;> rfl

theorem checkColumns_eq (p : Problem α) (js seen : List ℤ) :
    p.checkColumns seen js = checkNumbers p.column .columnRepeated seen js := by
  induction js generalizing seen with
  | nil => rfl
  | cons j js ih => simp only [checkColumns, checkNumbers, ih]

theorem checkColumns_eq_ok (p : Problem α) (js : List ℤ) :
    p.checkColumns [] js = .ok () ↔ Deletable p.columnCount js := by
  have hlook : ∀ j, (∃ c, p.column j = .ok c) ↔ 1 ≤ j ∧ j ≤ p.columnCount := fun j => by
    rw [column_eq]
    exact exists_entryAt
  rw [checkColumns_eq, checkNumbers_eq_ok hlook]
  exact and_iff_left fun j _ => List.not_mem_nil

theorem removal_columns : Removal (α := α) deleteColumns columnCount withoutColumns where
  removes hjs := by
    rw [deleteColumns, (checkColumns_eq_ok _ _).2 hjs]
    rfl
  refuses {p js} hjs := by
    rw [← checkColumns_eq_ok] at hjs
    cases hcheck : p.checkColumns [] js with
    | ok u => exact absurd hcheck hjs
    | error e => exact ⟨e, by rw [deleteColumns, hcheck]; rfl⟩
  shrinks hjs := hjs.length_without
  perm hperm := by
    have hmap := hperm.map Int.toNat
    simp only [withoutColumns, without_perm hmap, Row.dropColumns_perm hmap]
  highest {p d js} hjs hbelow := by
    have hd := (hjs.range d List.mem_cons_self).1
    have hlow := toNat_lt hbelow hd
    simp only [withoutColumns, List.map_cons, List.map_nil, forgetSolutions,
      without_cons hlow (by omega : 0 < d.toNat), List.map_map]
    congr 1
    exact List.map_congr_left fun r _ => r.dropColumns_cons hlow

/-- What is left of a problem without columns. -/
structure KeepsColumns (p q : Problem α) (js : List ℤ) : Prop where
  numbers : Renumbered p.columnCount q.columnCount js
  column : ∀ j, Survives p.columnCount js j → q.column (newNumber js j) = p.column j
  row : ∀ i, (q.row i).map (fun r => { r with coefs := [] }) =
    (p.row i).map fun r => { r with coefs := [] }
  matrixRow : ∀ i, q.matrixRow i = (p.matrixRow i).map fun es => es.filterMap (moved? js)
  matrixColumn : ∀ j, Survives p.columnCount js j →
    q.matrixColumn (newNumber js j) = p.matrixColumn j
  others : { q with columns := p.columns, rows := p.rows } = p.forgetSolutions

theorem row_withoutColumns (p : Problem α) (js : List ℤ) (i : ℤ) :
    (p.withoutColumns js).row i = (p.row i).map (Row.dropColumns (js.map Int.toNat)) := by
  rw [row_eq, row_eq]
  exact entryAt_map _ i

theorem keepsColumns {js : List ℤ} (h : Deletable p.columnCount js) :
    p.KeepsColumns (p.withoutColumns js) js := by
  have hpos : ∀ j ∈ js, 1 ≤ j := fun j hj => (h.range j hj).1
  have hcolumn : ∀ j, Survives p.columnCount js j →
      (p.withoutColumns js).column (newNumber js j) = p.column j := by
    intro j hj
    rw [column_eq, column_eq]
    exact entryAt_without h hj _
  refine ⟨h.renumbered, hcolumn, fun i => ?_, fun i => ?_, fun j hj => ?_, rfl⟩
  · rw [row_withoutColumns]
    cases p.row i <;> rfl
  · rw [matrixRow, row_withoutColumns, matrixRow]
    cases p.row i with
    | error e => rfl
    | ok r => exact congrArg Except.ok (r.entries_dropColumns hpos h.nodup)
  · rw [matrixColumn, hcolumn j hj, matrixColumn]
    have hrows : (p.withoutColumns js).numberedRows =
        p.numberedRows.map fun e => (e.1, e.2.dropColumns (js.map Int.toNat)) := by
      rw [numberedRows, rowCount, withoutColumns, forgetSolutions, List.length_map,
        List.zip_map_right]
      rfl
    have hlookup : ∀ r : Row α, (r.dropColumns (js.map Int.toNat)).coefs.lookup
        (newNumber js j : ℤ).toNat = r.coefs.lookup (j : ℤ).toNat := fun r =>
      r.lookup_dropColumns hpos h.nodup hj.notMem
    rw [hrows, List.filterMap_map]
    simp only [Function.comp_def, hlookup]

/-! ### Rows -/

/-- The problem without the listed rows, and without solutions. -/
def withoutRows (p : Problem α) (is : List ℤ) : Problem α :=
  { p with rows := without (is.map Int.toNat) p.rows }.forgetSolutions

theorem checkRows_eq (p : Problem α) (is seen : List ℤ) :
    p.checkRows seen is = checkNumbers p.row .rowRepeated seen is := by
  induction is generalizing seen with
  | nil => rfl
  | cons i is ih => simp only [checkRows, checkNumbers, ih]

theorem checkRows_eq_ok (p : Problem α) (is : List ℤ) :
    p.checkRows [] is = .ok () ↔ Deletable p.rowCount is := by
  have hlook : ∀ i, (∃ r, p.row i = .ok r) ↔ 1 ≤ i ∧ i ≤ p.rowCount := fun i => by
    rw [row_eq]
    exact exists_entryAt
  rw [checkRows_eq, checkNumbers_eq_ok hlook]
  exact and_iff_left fun i _ => List.not_mem_nil

theorem removal_rows : Removal (α := α) deleteRows rowCount withoutRows where
  removes his := by
    rw [deleteRows, (checkRows_eq_ok _ _).2 his]
    rfl
  refuses {p is} his := by
    rw [← checkRows_eq_ok] at his
    cases hcheck : p.checkRows [] is with
    | ok u => exact absurd hcheck his
    | error e => exact ⟨e, by rw [deleteRows, hcheck]; rfl⟩
  shrinks his := his.length_without
  perm hperm := by
    simp only [withoutRows, without_perm (hperm.map Int.toNat)]
  highest {p d is} his hbelow := by
    have hd := (his.range d List.mem_cons_self).1
    simp only [withoutRows, List.map_cons, List.map_nil, forgetSolutions,
      without_cons (toNat_lt hbelow hd) (by omega : 0 < d.toNat)]

/-- What is left of a problem without rows. -/
structure KeepsRows (p q : Problem α) (is : List ℤ) : Prop where
  numbers : Renumbered p.rowCount q.rowCount is
  row : ∀ i, Survives p.rowCount is i → q.row (newNumber is i) = p.row i
  matrixRow : ∀ i, Survives p.rowCount is i → q.matrixRow (newNumber is i) = p.matrixRow i
  matrixColumn : ∀ j, q.matrixColumn j = (p.matrixColumn j).map fun es => es.filterMap (moved? is)
  others : { q with rows := p.rows } = p.forgetSolutions

theorem keepsRows {is : List ℤ} (h : Deletable p.rowCount is) :
    p.KeepsRows (p.withoutRows is) is := by
  have hpos : ∀ i ∈ is, 1 ≤ i := fun i hi => (h.range i hi).1
  have hrow : ∀ i, Survives p.rowCount is i →
      (p.withoutRows is).row (newNumber is i) = p.row i := by
    intro i hi
    rw [row_eq, row_eq]
    exact entryAt_without h hi _
  refine ⟨h.renumbered, hrow, fun i hi => ?_, fun j => ?_, rfl⟩
  · rw [matrixRow, hrow i hi, matrixRow]
  · have hnumbered : (p.withoutRows is).numberedRows = p.numberedRows.filterMap (moved? is) :=
      (numbered_without hpos h.nodup p.rows).2
    have hcolumn : (p.withoutRows is).column j = p.column j := rfl
    rw [matrixColumn, hcolumn, matrixColumn, hnumbered]
    cases p.column j with
    | error e => rfl
    | ok c =>
      refine congrArg Except.ok ?_
      dsimp only
      rw [List.filterMap_filterMap, List.filterMap_filterMap]
      refine List.filterMap_congr fun e _ => ?_
      rw [moved?]
      split_ifs with hmem
      · cases e.2.coefs.lookup j.toNat with
        | none => rfl
        | some v => rw [Option.map_some, Option.bind_some, Option.bind_none, moved?, if_pos hmem]
      · rw [Option.bind_some]
        cases e.2.coefs.lookup j.toNat with
        | none => rfl
        | some v => rw [Option.map_some, Option.map_some, Option.bind_some, moved?, if_neg hmem]

/-! ### Deleting together -/

/-- Where the numbers may be deleted, deleting them together leaves what deleting them one by one
from the highest leaves. Where not, nothing happens. -/
structure Deletes (p : Problem α)
    (remove : Problem α → List ℤ → Except (ProblemError α) (Problem α)) (size : Problem α → ℕ)
    (Keeps : Problem α → List ℤ → Prop) : Prop where
  together : ∀ js, Deletable (size p) js → js ≠ [] → ∃ q,
    RowEdit.change (fun p => remove p js) p = .ok () q ∧
    (forM (js.mergeSort (· ≥ ·)) fun j => RowEdit.change fun p => remove p [j]) p = .ok () q ∧
    Keeps q js
  refused : ∀ js, ¬Deletable (size p) js → ∃ e,
    RowEdit.change (fun p => remove p js) p = .error e p

theorem Removal.deletes {remove : Problem α → List ℤ → Except (ProblemError α) (Problem α)}
    {size : Problem α → ℕ} {rest : Problem α → List ℤ → Problem α} (h : Removal remove size rest)
    {Keeps : Problem α → List ℤ → Prop} (hkeeps : ∀ js, Deletable (size p) js → Keeps (rest p js) js) :
    p.Deletes remove size Keeps where
  together js hjs hne := by
    refine ⟨rest p js, ?_, h.separately hne hjs, hkeeps js hjs⟩
    rw [RowEdit.change, h.removes hjs]
  refused js hjs := by
    obtain ⟨e, he⟩ := h.refuses hjs
    exact ⟨.problem e, by rw [RowEdit.change, he]⟩

/-- Deleting columns, or rows, by any list of numbers. The numbers that stay are counted anew in
their order, columns and rows that stay are the same under their new numbers, and so is every
coefficient of a pair that stays; there are no others. -/
theorem deletes_together (p : Problem α) :
    p.Deletes deleteColumns columnCount p.KeepsColumns ∧ p.Deletes deleteRows rowCount p.KeepsRows :=
  ⟨removal_columns.deletes fun _ => keepsColumns, removal_rows.deletes fun _ => keepsRows⟩

end Problem

end MixedInteger
