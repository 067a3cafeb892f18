import MixedInteger.Proofs.Search.Carried

/-! The potential of a search. A node weighs one less than twice the number of its integer points,
which is the greatest number of nodes that a binary tree with these points as leaves can have.
The weight of the active nodes goes down with every node that is given up or split, and stays
when a node is chosen. -/

namespace MixedInteger

open Scalar ValuedScalar

variable {α : Type} [Scalar α] [ValuedScalar α]

section
variable {β : Type} (w : β → ℕ)

theorem sum_filter_le (keep : β → Bool) (xs : List β) :
    ((xs.filter keep).map w).sum ≤ (xs.map w).sum :=
  (List.filter_sublist.map w).sum_le_sum fun _ _ => Nat.zero_le _

/-- Dropping an element loses its weight. -/
theorem sum_filter_add_le {keep : β → Bool} {xs : List β} {x : β} (hx : x ∈ xs)
    (hkeep : keep x = false) : ((xs.filter keep).map w).sum + w x ≤ (xs.map w).sum := by
  induction xs with
  | nil => cases hx
  | cons y ys ih =>
    rw [List.map_cons, List.sum_cons]
    rcases List.mem_cons.1 hx with rfl | hx
    · rw [List.filter_cons_of_neg (by simp [hkeep])]
      have := sum_filter_le w keep ys
      omega
    · have := ih hx
      rw [List.filter_cons]
      split_ifs
      · rw [List.map_cons, List.sum_cons]
        omega
      · omega

end

/-- One less than twice the number of integer points. -/
noncomputable def Node.weight (p : Problem α) (n : Node α) : ℕ := 2 * (n.lattice p).card - 1

theorem Node.Whole.weight_pos {p : Problem α} {n : Node α} (h : n.Whole p) : 0 < n.weight p := by
  have := h.lattice_nonempty.card_pos
  unfold Node.weight
  omega

/-- Two nodes that share out the points of their parent weigh less than it. -/
theorem Node.Shares.weight {p : Problem α} {n down up : Node α} (h : n.Shares p down up) :
    down.weight p + up.weight p < n.weight p := by
  have hdown := h.whole_down.lattice_nonempty.card_pos
  have hup := h.whole_up.lattice_nonempty.card_pos
  have hcard := h.card
  unfold Node.weight
  omega

namespace Tree

/-- The weight of the active nodes. -/
noncomputable def weight (p : Problem α) (t : Tree α) : ℕ := (t.active.map (Node.weight p)).sum

/-- Between two visits: the parameters are those of the search, the working problem can be given
the bounds of any node, and the active nodes are whole and known by their numbers. -/
structure Regular (p : Problem α) (params : Parameter.Search α) (began : α) (t : Tree α) :
    Prop where
  params : t.params = params
  began : t.began = began
  carried : t.Carried p
  whole : ∀ n ∈ t.active, n.Whole p
  nodup : (t.active.map (·.number)).Nodup
  fresh : ∀ n ∈ t.active, n.number < t.nextNumber

/-- During a visit: the node in hand is active, and the working problem carries its bounds. -/
structure InHand (p : Problem α) (params : Parameter.Search α) (began : α) (t : Tree α)
    (n : Node α) : Prop extends t.Regular p params began where
  mem : n ∈ t.active
  carries : p.Carries t.problem n.sides

variable {p : Problem α} {params : Parameter.Search α} {began : α} {t t' : Tree α} {n n' : Node α}

/-- Incumbents, histories and counters do not matter. -/
theorem Regular.congr (h : t.Regular p params began)
    (hsame : (t'.params, t'.began, t'.problem.columns, t'.rootBounds, t'.touched, t'.active,
        t'.nextNumber) =
      (t.params, t.began, t.problem.columns, t.rootBounds, t.touched, t.active, t.nextNumber)) :
    t'.Regular p params began := by
  simp only [Prod.mk.injEq] at hsame
  obtain ⟨hparams, hbegan, hcolumns, hroot, htouched, hactive, hnext⟩ := hsame
  obtain ⟨sides, hsides, hrest⟩ := h.carried.carries
  exact
    { params := hparams.trans h.params
      began := hbegan.trans h.began
      carried :=
        { rootBounds := hroot.trans h.carried.rootBounds
          touched := by rw [htouched]; exact h.carried.touched
          carries := by rw [htouched]; exact ⟨sides, hsides.congr hcolumns, hrest⟩ }
      whole := by rw [hactive]; exact h.whole
      nodup := by rw [hactive]; exact h.nodup
      fresh := by rw [hactive, hnext]; exact h.fresh }

/-- The reason of an event does not matter. -/
theorem InHand.shown (h : t.InHand p params began n) (reason : Option Reason) :
    Tree.InHand p params began { t with reason := reason } n :=
  ⟨h.toRegular.congr rfl, h.mem, h.carries⟩

/-- A node whose bounds are carried is taken in hand. -/
theorem Regular.take (h : t.Regular p params began) (hn : n ∈ t.active)
    {q : Problem α} (hq : p.Carries q n.sides) :
    Tree.InHand p params began
      { t with problem := q, touched := n.boxes.map (·.1), current := some n.number } n where
  params := h.params
  began := h.began
  carried := by
    refine ⟨h.carried.rootBounds, fun i hi => ?_, n.sides, hq, fun j hj => Node.sides_of_notMem hj⟩
    obtain ⟨e, he, rfl⟩ := List.mem_map.1 hi
    exact (h.whole n hn).columns e he
  whole := h.whole
  nodup := h.nodup
  fresh := h.fresh
  mem := hn
  carries := hq

theorem Regular.eq_of_number (h : t.Regular p params began) {m : Node α} (hm : m ∈ t.active)
    (hn : n ∈ t.active) (hnumber : m.number = n.number) : m = n :=
  List.inj_on_of_nodup_map h.nodup hm hn hnumber

/-! ### Giving up nodes -/

/-- Some of the active nodes are left. -/
theorem Regular.filter (h : t.Regular p params began) (keep : Node α → Bool)
    (current : Option ℕ) : Regular p params began
      { t with active := t.active.filter keep, current := current } where
  params := h.params
  began := h.began
  carried := ⟨h.carried.rootBounds, h.carried.touched, h.carried.carries⟩
  whole n hn := h.whole n (List.mem_filter.1 hn).1
  nodup := h.nodup.sublist (List.filter_sublist.map _)
  fresh n hn := h.fresh n (List.mem_filter.1 hn).1

theorem Regular.fathom (h : t.Regular p params began) (n : Node α) :
    (t.fathom n).Regular p params began := h.filter _ _

theorem Regular.prune (h : t.Regular p params began) : t.prune.Regular p params began :=
  h.filter _ _

omit [ValuedScalar α] in
theorem weight_fathom (hn : n ∈ t.active) : (t.fathom n).weight p + n.weight p ≤ t.weight p :=
  sum_filter_add_le _ hn (by simp)

omit [ValuedScalar α] in
theorem weight_prune : t.prune.weight p ≤ t.weight p := sum_filter_le _ _ _

/-! ### Splitting a node -/

omit [ValuedScalar α] in
/-- The two children, the lower one first or the upper one. -/
theorem split_eq {j : p.Place} {f : Fraction α} (hf : f.column = j.number)
    (h : t.rootBounds = p.columns.map fun c => (c.lower, c.upper)) (fs : List (Fraction α)) :
    ∃ a b down up : Node α, (a = down ∧ b = up ∨ a = up ∧ b = down) ∧
      a.number = t.nextNumber ∧ b.number = t.nextNumber + 1 ∧
      t.split n f fs = { t.fathom n with
        active := (t.fathom n).active ++ [a, b]
        nextNumber := t.nextNumber + 1 + 1 } ∧
      down.boxes = (n.boxes.filter fun e => e.1 != j.number) ++
        [(j.number, ((n.sides j).1, f.below))] ∧
      up.boxes = (n.boxes.filter fun e => e.1 != j.number) ++
        [(j.number, (f.above, (n.sides j).2))] := by
  have hsides : (n.boxes.lookup f.column).getD (t.rootBounds.getD (f.column - 1) (0, 0)) =
      n.sides j := by
    rw [hf, rootBound_eq h]
    rfl
  let child (number : ℕ) (d : Decision α) (box : α × α) : Node α :=
    { number := number
      level := n.level + 1
      parent := n.number
      bound := n.bound
      boxes := (n.boxes.filter fun e => e.1 != d.column) ++ [(d.column, box)]
      infeasibility := infeasibility fs
      decision := some d }
  let down (number : ℕ) :=
    child number ⟨f.column, false, f.value - f.below⟩ ((n.sides j).1, f.below)
  let up (number : ℕ) := child number ⟨f.column, true, f.above - f.value⟩ (f.above, (n.sides j).2)
  unfold split
  simp only [hsides]
  rw [← hf]
  split_ifs
  · refine ⟨down t.nextNumber, up (t.nextNumber + 1), down t.nextNumber, up (t.nextNumber + 1),
      .inl ⟨rfl, rfl⟩, rfl, rfl, ?_, rfl, rfl⟩
    simp [grow, fathom, down, up, child]
  · refine ⟨up t.nextNumber, down (t.nextNumber + 1), down (t.nextNumber + 1), up t.nextNumber,
      .inr ⟨rfl, rfl⟩, rfl, rfl, ?_, rfl, rfl⟩
    simp [grow, fathom, down, up, child]

/-- Splitting the node in hand at a value that is no integer makes the tree lighter. -/
theorem InHand.split (h : t.InHand p params began n) {j : p.Place} {f : Fraction α}
    (hf : f.column = j.number) (hvalue : j.Between n.sides f.value)
    (hfraction : ¬IsIntegral f.value) (fs : List (Fraction α)) :
    (t.split n f fs).Regular p params began ∧ (t.split n f fs).weight p < t.weight p := by
  have hn := h.whole n h.mem
  obtain ⟨a, b, down, up, horder, ha, hb, hsplit, hdown, hup⟩ :=
    split_eq (n := n) hf h.carried.rootBounds fs
  have hshares : n.Shares p down up :=
    hn.shares hvalue.isFinite hfraction hvalue.lower hvalue.upper hdown hup
  have hwhole : a.Whole p ∧ b.Whole p := by
    rcases horder with ⟨rfl, rfl⟩ | ⟨rfl, rfl⟩
    · exact ⟨hshares.whole_down, hshares.whole_up⟩
    · exact ⟨hshares.whole_up, hshares.whole_down⟩
  have hweight : a.weight p + b.weight p < n.weight p := by
    have := hshares.weight
    rcases horder with ⟨rfl, rfl⟩ | ⟨rfl, rfl⟩ <;> omega
  have hleft := h.toRegular.fathom n
  have hold : ∀ m ∈ (t.fathom n).active, m.number < t.nextNumber := hleft.fresh
  rw [hsplit]
  refine ⟨⟨hleft.params, hleft.began,
    ⟨hleft.carried.rootBounds, hleft.carried.touched, hleft.carried.carries⟩, ?_, ?_, ?_⟩, ?_⟩
  · intro m hm
    rcases List.mem_append.1 hm with hm | hm
    · exact hleft.whole m hm
    · simp only [List.mem_cons, List.not_mem_nil, or_false] at hm
      rcases hm with rfl | rfl
      · exact hwhole.1
      · exact hwhole.2
  · dsimp only
    rw [List.map_append, List.nodup_append]
    refine ⟨hleft.nodup, by simp [ha, hb], ?_⟩
    intro x hx y hy
    obtain ⟨m, hm, rfl⟩ := List.mem_map.1 hx
    have := hold m hm
    simp only [List.map_cons, List.map_nil, ha, hb, List.mem_cons, List.not_mem_nil,
      or_false] at hy
    omega
  · intro m hm
    dsimp only at hm ⊢
    rcases List.mem_append.1 hm with hm | hm
    · have := hold m hm
      omega
    · simp only [List.mem_cons, List.not_mem_nil, or_false] at hm
      rcases hm with rfl | rfl <;> omega
  · have hfathom := weight_fathom (p := p) h.mem
    unfold weight at hfathom ⊢
    simp only [List.map_append, List.map_cons, List.map_nil, List.sum_append, List.sum_cons,
      List.sum_nil]
    omega

/-! ### Weighing a node -/

/-- A new bound of the node in hand does not change what the tree weighs. -/
theorem InHand.settle (h : t.InHand p params began n) (bound : α) :
    (t.settle { n with bound := bound }).InHand p params began { n with bound := bound } ∧
      (t.settle { n with bound := bound }).weight p = t.weight p := by
  let n' : Node α := { n with bound := bound }
  have hmap : ∀ m ∈ t.active, (if m.number = n.number then n' else m).number = m.number ∧
      (if m.number = n.number then n' else m).boxes = m.boxes := by
    intro m hm
    by_cases hnumber : m.number = n.number
    · rw [if_pos hnumber, h.eq_of_number hm h.mem hnumber]
      exact ⟨rfl, rfl⟩
    · rw [if_neg hnumber]
      exact ⟨rfl, rfl⟩
  have hactive : (t.settle n').active =
      t.active.map fun m => if m.number = n.number then n' else m := rfl
  have hnumbers : (t.settle n').active.map (·.number) = t.active.map (·.number) := by
    rw [hactive, List.map_map]
    exact List.map_congr_left fun m hm => (hmap m hm).1
  refine ⟨⟨⟨h.params, h.began, ⟨h.carried.rootBounds, h.carried.touched, h.carried.carries⟩,
    ?_, ?_, ?_⟩, ?_, h.carries⟩, ?_⟩
  · intro m' hm'
    obtain ⟨m, hm, rfl⟩ := List.mem_map.1 (hactive ▸ hm')
    exact (h.whole m hm).congr (hmap m hm).2
  · rw [hnumbers]
    exact h.nodup
  · intro m' hm'
    obtain ⟨m, hm, rfl⟩ := List.mem_map.1 (hactive ▸ hm')
    rw [(hmap m hm).1]
    exact h.fresh m hm
  · rw [hactive]
    exact List.mem_map.2 ⟨n, h.mem, if_pos rfl⟩
  · rw [weight, hactive, List.map_map]
    refine congrArg _ (List.map_congr_left fun m hm => ?_)
    rw [Function.comp_apply, Node.weight, Node.lattice_congr (hmap m hm).2]
    rfl

end Tree

end MixedInteger
