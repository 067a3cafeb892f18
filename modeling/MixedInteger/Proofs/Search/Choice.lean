import MixedInteger.Proofs.Problem.Point
import MixedInteger.Search.Branching
import Mathlib.Data.List.Basic

/-! What a search chooses is among what it chooses from: the node to visit is an active one,
and the column to split is a fractional one. The node whose bound promises most has the least
bound. -/

namespace MixedInteger

open Extended

/-! ### The first of the least -/

section
variable {β : Type} {less : β → β → Bool}

theorem foldl_least_mem (xs : List β) (x : β) :
    xs.foldl (fun best y => if less y best then y else best) x ∈ x :: xs := by
  induction xs generalizing x with
  | nil => exact List.mem_singleton_self x
  | cons y xs ih =>
    rw [List.foldl_cons]
    have hmem := ih (if less y x then y else x)
    split_ifs at hmem ⊢
    · exact List.mem_cons_of_mem x hmem
    · rcases List.mem_cons.1 hmem with heq | htail
      · rw [heq]
        exact List.mem_cons_self
      · exact List.mem_cons_of_mem x (List.mem_cons_of_mem y htail)

theorem firstLeast_mem {xs : List β} {x : β} (h : firstLeast less xs = some x) : x ∈ xs := by
  cases xs with
  | nil => cases h
  | cons y xs =>
    cases h
    exact foldl_least_mem xs y

theorem exists_firstLeast (less : β → β → Bool) {xs : List β} (h : xs ≠ []) :
    ∃ x ∈ xs, firstLeast less xs = some x := by
  cases xs with
  | nil => exact absurd rfl h
  | cons y xs => exact ⟨_, foldl_least_mem xs y, rfl⟩

/-- The first of the least is at most any other, in an order that the comparison decides. -/
theorem firstLeast_le {R : β → β → Prop} {xs : List β} {x y : β}
    (hrefl : ∀ a ∈ xs, R a a) (htrans : ∀ a b c, R a b → R b c → R a c)
    (hless : ∀ a ∈ xs, ∀ b ∈ xs, if less a b then R a b else R b a)
    (h : firstLeast less xs = some x) (hy : y ∈ xs) : R x y := by
  suffices hfold : ∀ (ys : List β) (a : β), a ∈ xs → (∀ b ∈ ys, b ∈ xs) → ∀ b, b ∈ a :: ys →
      R (ys.foldl (fun best y => if less y best then y else best) a) b by
    cases xs with
    | nil => cases h
    | cons a ys =>
      cases h
      exact hfold ys a List.mem_cons_self (fun b hb => List.mem_cons_of_mem a hb) y hy
  intro ys
  induction ys with
  | nil =>
    intro a ha _ b hb
    rw [List.mem_singleton.1 hb]
    exact hrefl a ha
  | cons c ys ih =>
    intro a ha hys b hb
    rw [List.foldl_cons]
    have hc : c ∈ xs := hys c List.mem_cons_self
    have hstep := hless c hc a ha
    have htail : ∀ b ∈ ys, b ∈ xs := fun b hb => hys b (List.mem_cons_of_mem c hb)
    split_ifs at hstep ⊢
    · have hmin := ih c hc htail
      rcases List.mem_cons.1 hb with rfl | hb
      · exact htrans _ _ _ (hmin c List.mem_cons_self) hstep
      · exact hmin b hb
    · have hmin := ih a ha htail
      rcases List.mem_cons.1 hb with rfl | hb
      · exact hmin b List.mem_cons_self
      · rcases List.mem_cons.1 hb with rfl | hb
        · exact htrans _ _ _ (hmin a List.mem_cons_self) hstep
        · exact hmin b (List.mem_cons_of_mem a hb)

end

/-! ### Nodes -/

namespace Tree

/-- Whatever the technique, an active node is visited next. -/
theorem select_mem {α : Type} [Scalar α] {t : Tree α} {o : Option (Node α)} (h : t.select = .ok o)
    (hne : t.active ≠ []) : ∃ n ∈ t.active, o = some n := by
  have hlast : ∃ n ∈ t.active, t.active.getLast? = some n :=
    ⟨_, List.getLast_mem hne, List.getLast?_eq_some_getLast hne⟩
  have hhead : ∃ n ∈ t.active, t.active.head? = some n :=
    ⟨_, List.head_mem hne, List.head?_eq_some_head hne⟩
  have hfirst : ∀ less : Node α → Node α → Bool,
      ∃ n ∈ t.active, firstLeast less t.active = some n := fun _ => exists_firstLeast _ hne
  have hok : ∀ o', (∃ n ∈ t.active, o' = some n) → Except.ok o' = (Except.ok o : Except SearchError _) →
      ∃ n ∈ t.active, o = some n := by
    rintro o' hmem heq
    cases heq
    exact hmem
  unfold select at h
  dsimp only at h
  split at h
  · exact hok _ hlast h
  split at h
  · exact hok _ hhead h
  split at h
  · split at h
    · split at h
      · exact hok _ (hfirst _) h
      · exact hok _ hlast h
    · exact hok _ hlast h
  split at h
  · cases h
  · exact hok _ (hfirst _) h

/-- Keys that are numbers, or infinite from below, are compared as numbers are. -/
theorem precedes_le {key : Node Extended → Extended} {a b : Node Extended}
    (ha : key a = bottom ∨ (key a).IsRat) (hb : key b = bottom ∨ (key b).IsRat) :
    if precedes key a b then key a ≤ key b else key b ≤ key a := by
  unfold precedes
  rcases ha with ha | ha <;> rcases hb with hb | hb
  · rw [ha, hb]
    split_ifs <;> rfl
  · rw [ha, hb.eq]
    exact bottom_le_rat _
  · rw [hb, ha.eq]
    exact bottom_le_rat _
  · rw [ha.eq, hb.eq]
    simp only [rat_beq_rat, rat_lt_rat, rat_le_rat, decide_eq_true_eq]
    split_ifs with heq hlt hlt
    · exact heq.le
    · exact heq.ge
    · exact (of_decide_eq_true hlt).le
    · exact not_lt.1 fun h => hlt (decide_eq_true h)

/-- The best node has the least bound, when the bounds can be compared. -/
theorem best_le {t : Tree Extended} {n m : Node Extended} (h : t.best = some n)
    (hm : m ∈ t.active)
    (hbound : ∀ a ∈ t.active, t.sense * a.bound = bottom ∨ (t.sense * a.bound).IsRat) :
    t.sense * n.bound ≤ t.sense * m.bound := by
  have htrans : ∀ a b c : Node Extended, t.sense * a.bound ≤ t.sense * b.bound →
      t.sense * b.bound ≤ t.sense * c.bound → t.sense * a.bound ≤ t.sense * c.bound :=
    fun _ _ _ => Extended.le_trans
  refine firstLeast_le (R := fun a b => t.sense * a.bound ≤ t.sense * b.bound)
    (fun a ha => ?_) htrans (fun a ha b hb => ?_) h hm
  · rcases hbound a ha with heq | heq
    · rw [heq]
      rfl
    · rw [heq.eq, rat_le_rat]
  · exact precedes_le (hbound a ha) (hbound b hb)

end Tree

/-! ### Columns -/

namespace Tree

variable {α : Type} [Scalar α] {t : Tree α} {fs : List (Fraction α)}

theorem choose_mem {f : Fraction α} (h : t.choose fs = some f) : f ∈ fs := by
  have hgreatest : ∀ {key : Fraction α → α},
      firstGreatest key fs = some f → f ∈ fs := firstLeast_mem
  unfold choose at h
  simp only at h
  split_ifs at h
  · exact List.mem_of_head? h
  · exact List.mem_of_getLast? h
  · exact hgreatest h
  · split at h
    · cases h
    · next hf =>
      split_ifs at h
      · cases h
        exact hgreatest hf
      · exact hgreatest h
  · exact hgreatest h

/-- Whatever the technique, one of the fractional columns is split. -/
theorem exists_choose (h : fs ≠ []) : ∃ f, t.choose fs = some f := by
  have hgreatest : ∀ key : Fraction α → α, ∃ f, firstGreatest key fs = some f := by
    intro key
    obtain ⟨f, -, hf⟩ := exists_firstLeast (fun a b => decide (key b < key a)) h
    exact ⟨f, hf⟩
  unfold choose
  dsimp only
  split_ifs
  · exact ⟨_, List.head?_eq_some_head h⟩
  · exact ⟨_, List.getLast?_eq_some_getLast h⟩
  · exact hgreatest _
  · obtain ⟨f, hf⟩ := hgreatest fun f => t.costOf f * f.distance
    rw [hf]
    dsimp only
    split_ifs
    · exact ⟨f, rfl⟩
    · exact hgreatest _
  · exact hgreatest _

end Tree

end MixedInteger
