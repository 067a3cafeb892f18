import Mathlib.Data.List.Induction

/-! Steps that may fail, run on a state. Some calls succeed on sound input and refuse all other. A
call decides a property when it succeeds where the property holds, and fails with a fault of a
given kind where it does not. Steps in a row decide all their properties together; a loop decides
that every entry is sound, given the entries before it. -/

namespace MixedInteger

section
variable {ε σ β γ : Type} (s : σ)

@[simp] theorem bind_run (x : EStateM ε σ β) (f : β → EStateM ε σ γ) :
    (x >>= f) s = match x s with
      | .ok b s' => f b s'
      | .error e s' => .error e s' := by
  simp only [bind, EStateM.bind]
  cases x s <;> rfl

@[simp] theorem pure_run (b : β) : (pure b : EStateM ε σ β) s = .ok b s := rfl

@[simp] theorem throw_run (e : ε) : (throw e : EStateM ε σ β) s = .error e s := rfl

@[simp] theorem get_run : (get : EStateM ε σ σ) s = .ok s s := rfl

@[simp] theorem set_run (t : σ) : (set t : EStateM ε σ PUnit) s = .ok () t := rfl

@[simp] theorem modify_run (f : σ → σ) : (modify f : EStateM ε σ PUnit) s = .ok () (f s) := rfl

@[simp] theorem bind_ok (b : β) (f : β → Except ε γ) : (Except.ok b >>= f) = f b := rfl

@[simp] theorem bind_error (e : ε) (f : β → Except ε γ) : (Except.error e >>= f) = .error e := rfl

theorem except_bind_eq_ok {x : Except ε β} {f : β → Except ε γ} {c : γ} :
    (x >>= f) = .ok c ↔ ∃ b, x = .ok b ∧ f b = .ok c := by
  cases x <;> simp

theorem except_map_eq_ok {x : Except ε β} {f : β → γ} {c : γ} :
    x.map f = .ok c ↔ ∃ b, x = .ok b ∧ f b = c := by
  cases x <;> simp [Except.map]

@[simp] theorem pure_except (b : β) : (pure b : Except ε β) = .ok b := rfl

end

/-! ### The state after a call -/

section
variable {ε σ β γ : Type} {s s' : σ}

/-- The state that a call leaves, also when it fails. -/
def after (x : EStateM ε σ β) (s : σ) : σ :=
  match x s with
  | .ok _ s' => s'
  | .error _ s' => s'

theorem after_ok {x : EStateM ε σ β} {b : β} (h : x s = .ok b s') : after x s = s' := by
  rw [after, h]

theorem after_error {x : EStateM ε σ β} {e : ε} (h : x s = .error e s') : after x s = s' := by
  rw [after, h]

/-- An answer at the end changes nothing. -/
theorem after_return (x : EStateM ε σ β) (f : β → γ) :
    after (do return f (← x)) s = after x s := by
  simp only [after, bind_run]
  cases x s <;> rfl

end

/-! ### Both ends of a call -/

section
variable {ε σ β γ : Type} {s : σ}

/-- A call ends with `P`, or it fails with `E`. -/
def Runs (x : EStateM ε σ β) (s : σ) (P : β → σ → Prop) (E : σ → Prop) : Prop :=
  match x s with
  | .ok b s' => P b s'
  | .error _ s' => E s'

namespace Runs

variable {P : β → σ → Prop} {Q : γ → σ → Prop} {E : σ → Prop}

theorem of_ok {x : EStateM ε σ β} {b : β} {s' : σ} (h : x s = .ok b s') (hP : P b s') :
    Runs x s P E := by
  rw [Runs, h]
  exact hP

theorem pure {b : β} (h : P b s) : Runs (Pure.pure b : EStateM ε σ β) s P E := h

theorem throw (e : ε) (h : E s) : Runs (MonadExcept.throw e : EStateM ε σ β) s P E := h

theorem anything {x : EStateM ε σ β} : Runs x s (fun _ _ => True) fun _ => True := by
  unfold Runs
  cases x s <;> trivial

theorem update {f : σ → σ} {P : PUnit → σ → Prop} (h : P ⟨⟩ (f s)) :
    Runs (modify f : EStateM ε σ PUnit) s P E := h

/-- One step after another. -/
theorem bind {x : EStateM ε σ β} {f : β → EStateM ε σ γ} (hx : Runs x s P E)
    (hf : ∀ b s', P b s' → Runs (f b) s' Q E) : Runs (x >>= f) s Q E := by
  unfold Runs at hx ⊢
  rw [bind_run]
  cases h : x s with
  | ok b t =>
    rw [h] at hx
    exact hf b t hx
  | error e t =>
    rw [h] at hx
    exact hx

/-- What comes last decides, when nothing is asked of a failure. -/
theorem onward {x : EStateM ε σ β} {f : β → EStateM ε σ γ}
    (h : ∀ b s', Runs (f b) s' Q fun _ => True) : Runs (x >>= f) s Q fun _ => True := by
  unfold Runs at h ⊢
  rw [bind_run]
  cases hx : x s with
  | ok b t => exact h b t
  | error e t => trivial

/-- A detour that comes back with what is needed may be taken or not. -/
theorem detour {b : Prop} [Decidable b] {x y : EStateM ε σ β} {I : σ → Prop} (hs : I s)
    (hx : (∀ s', I s' → Runs y s' P E) → Runs x s P E) (hy : ∀ s', I s' → Runs y s' P E) :
    Runs (if b then x else y) s P E := by
  split
  · exact hx hy
  · exact hy s hs

theorem imp {x : EStateM ε σ β} {R : β → σ → Prop} (hx : Runs x s P E)
    (h : ∀ b s', P b s' → R b s') : Runs x s R E := by
  unfold Runs at hx ⊢
  cases hrun : x s with
  | ok b t =>
    rw [hrun] at hx
    exact h b t hx
  | error e t =>
    rw [hrun] at hx
    exact hx

theorem weaken {x : EStateM ε σ β} {E' : σ → Prop} (hx : Runs x s P E) (h : ∀ s', E s' → E' s') :
    Runs x s P E' := by
  unfold Runs at hx ⊢
  cases hrun : x s with
  | ok b t =>
    rw [hrun] at hx
    exact hx
  | error e t =>
    rw [hrun] at hx
    exact h t hx

theorem and {x : EStateM ε σ β} {P' : β → σ → Prop} {E' : σ → Prop} (h : Runs x s P E)
    (h' : Runs x s P' E') : Runs x s (fun b s' => P b s' ∧ P' b s') fun s' => E s' ∧ E' s' := by
  unfold Runs at *
  cases hrun : x s with
  | ok b t =>
    rw [hrun] at h h'
    exact ⟨h, h'⟩
  | error e t =>
    rw [hrun] at h h'
    exact ⟨h, h'⟩

/-- What holds at either end holds of the state that is left. -/
theorem after {x : EStateM ε σ β} {I : σ → Prop} (hx : Runs x s (fun _ s' => I s') I) :
    I (after x s) := by
  unfold Runs at hx
  rw [MixedInteger.after]
  cases h : x s with
  | ok b t =>
    rw [h] at hx
    exact hx
  | error e t =>
    rw [h] at hx
    exact hx

theorem of_after {x : EStateM ε σ β} {I : σ → Prop} (h : I (MixedInteger.after x s)) :
    Runs x s (fun _ s' => I s') I := by
  unfold Runs
  rw [MixedInteger.after] at h
  cases hx : x s with
  | ok b t =>
    rw [hx] at h
    exact h
  | error e t =>
    rw [hx] at h
    exact h

theorem ok {x : EStateM ε σ β} {b : β} {s' : σ} (hx : Runs x s P E) (h : x s = .ok b s') :
    P b s' := by
  rw [Runs, h] at hx
  exact hx

/-- A call that cannot fail returns. -/
theorem returns {x : EStateM ε σ β} (hx : Runs x s P fun _ => False) :
    ∃ b s', x s = .ok b s' ∧ P b s' := by
  unfold Runs at hx
  cases h : x s with
  | ok b s' =>
    rw [h] at hx
    exact ⟨b, s', rfl, hx⟩
  | error e s' =>
    rw [h] at hx
    exact hx.elim

end Runs

end

/-! ### Loops -/

section
variable {ε σ β γ : Type}

/-- What each turn of a loop keeps, of the entries that are done, holds at its end. -/
theorem foldlM_run {f : γ → β → EStateM ε σ γ} (xs : List β) (P : List β → γ → σ → Prop)
    (hstep : ∀ done x rest, xs = done ++ x :: rest → ∀ b s, P done b s →
      ∃ b' s', f b x s = .ok b' s' ∧ P (done ++ [x]) b' s') {b : γ} {s : σ} (h : P [] b s) :
    ∃ b' s', xs.foldlM f b s = .ok b' s' ∧ P xs b' s' := by
  have hfrom : ∀ rest done b s, xs = done ++ rest → P done b s →
      ∃ b' s', rest.foldlM f b s = .ok b' s' ∧ P xs b' s' := by
    intro rest
    induction rest with
    | nil =>
      intro done b s hxs h
      rw [List.append_nil] at hxs
      exact ⟨b, s, rfl, hxs ▸ h⟩
    | cons x rest ih =>
      intro done b s hxs h
      obtain ⟨b', s', hrun, h'⟩ := hstep done x rest hxs b s h
      obtain ⟨b'', s'', hrest, hend⟩ := ih (done ++ [x]) b' s' (by simp [hxs]) h'
      exact ⟨b'', s'', by rw [List.foldlM_cons, bind_run, hrun, ← hrest], hend⟩
  exact hfrom xs [] b s rfl h

end

section
variable {ε σ β γ : Type} {I E : σ → Prop}

/-- What every turn of a loop keeps is kept by the loop. -/
theorem Runs.forM (xs : List β) {f : β → EStateM ε σ PUnit}
    (h : ∀ x s, I s → Runs (f x) s (fun _ s' => I s') E) {s : σ} (hs : I s) :
    Runs (xs.forM f) s (fun _ s' => I s') E := by
  induction xs generalizing s with
  | nil => exact .pure hs
  | cons x xs ih =>
    exact (h x s hs).bind fun _ s' h' => ih h'

theorem Runs.mapM (xs : List β) {f : β → EStateM ε σ γ}
    (h : ∀ x s, I s → Runs (f x) s (fun _ s' => I s') E) {s : σ} (hs : I s) :
    Runs (xs.mapM f) s (fun _ s' => I s') E := by
  induction xs generalizing s with
  | nil => exact .pure hs
  | cons x xs ih =>
    rw [List.mapM_cons]
    exact (h x s hs).bind fun _ s' h' => (ih h').bind fun _ s'' h'' => .pure h''

theorem Runs.foldlM (xs : List β) {f : γ → β → EStateM ε σ γ}
    (h : ∀ c x s, I s → Runs (f c x) s (fun _ s' => I s') E) {s : σ} (hs : I s) (c : γ) :
    Runs (xs.foldlM f c) s (fun _ s' => I s') E := by
  induction xs generalizing s c with
  | nil => exact .pure hs
  | cons x xs ih =>
    rw [List.foldlM_cons]
    exact (h c x s hs).bind fun c' s' h' => ih h' c'

end

/-! ### Runs on given states -/

section
variable {ε σ β : Type}

/-- The call ends, and its answer passes a test. -/
def passes (x : EStateM ε σ β) (s : σ) (test : β → Bool) : Bool :=
  match x s with
  | .ok b _ => test b
  | .error _ _ => false

theorem exists_of_passes {x : EStateM ε σ β} {s : σ} (test : β → Bool)
    (h : passes x s test = true) : ∃ b s', x s = .ok b s' ∧ test b = true := by
  unfold passes at h
  split at h
  · next b s' hx => exact ⟨b, s', hx, h⟩
  · cases h

theorem ok_of_toOption {x : Except ε β} {b : β} (h : x.toOption = some b) : x = .ok b := by
  cases x with
  | error e => cases h
  | ok c => exact congrArg _ (Option.some.inj h)

end

/-! ### What lasts

From a state with some property a call comes to one that has it too, also when it fails, and its
faults are of some sort. -/

section
variable {ε σ β γ : Type} {s : σ}

/-- A call ends with `P`, or it fails with a fault and a state that have `E`. -/
def Ends (x : EStateM ε σ β) (s : σ) (P : β → σ → Prop) (E : ε → σ → Prop) : Prop :=
  match x s with
  | .ok b s' => P b s'
  | .error e s' => E e s'

namespace Ends

variable {P : β → σ → Prop} {Q : γ → σ → Prop} {E : ε → σ → Prop} {x : EStateM ε σ β}

theorem bind {f : β → EStateM ε σ γ} (hx : Ends x s P E)
    (hf : ∀ b s', P b s' → Ends (f b) s' Q E) : Ends (x >>= f) s Q E := by
  unfold Ends at hx ⊢
  rw [bind_run]
  cases h : x s with
  | ok b t =>
    rw [h] at hx
    exact hf b t hx
  | error e t =>
    rw [h] at hx
    exact hx

theorem imp {P' : β → σ → Prop} {E' : ε → σ → Prop} (hx : Ends x s P E)
    (hP : ∀ b s', P b s' → P' b s') (hE : ∀ e s', E e s' → E' e s') : Ends x s P' E' := by
  unfold Ends at hx ⊢
  cases h : x s with
  | ok b t =>
    rw [h] at hx
    exact hP b t hx
  | error e t =>
    rw [h] at hx
    exact hE e t hx

/-- What is known of the answer otherwise. -/
theorem and_runs {P' : β → σ → Prop} {E' : σ → Prop} (hx : Ends x s P E) (hx' : Runs x s P' E') :
    Ends x s (fun b s' => P b s' ∧ P' b s') E := by
  unfold Ends Runs at *
  cases h : x s with
  | ok b t =>
    rw [h] at hx hx'
    exact ⟨hx, hx'⟩
  | error e t =>
    rw [h] at hx
    exact hx

/-- What is known whatever the fault is. -/
theorem runs {E' : σ → Prop} (hx : Ends x s P E) (h : ∀ e s', E e s' → E' s') : Runs x s P E' :=
  hx.imp (fun _ _ => id) h

end Ends

theorem Runs.ends {x : EStateM ε σ β} {P : β → σ → Prop} {E : σ → Prop} (hx : Runs x s P E) :
    Ends x s P fun _ s' => E s' := hx

end

section
variable {ε σ β γ : Type} {I : σ → Prop} {F : ε → Prop}

/-- The call keeps `I`, also when it fails, and its faults have `F`. -/
def Lasts (I : σ → Prop) (F : ε → Prop) (x : EStateM ε σ β) : Prop :=
  ∀ s, I s → Ends x s (fun _ s' => I s') fun e s' => F e ∧ I s'

namespace Lasts

variable {x y : EStateM ε σ β}

theorem pure (b : β) : Lasts I F (Pure.pure b : EStateM ε σ β) := fun _ h => h

theorem throw {e : ε} (he : F e) : Lasts I F (MonadExcept.throw e : EStateM ε σ β) :=
  fun _ h => ⟨he, h⟩

theorem bind {f : β → EStateM ε σ γ} (hx : Lasts I F x) (hf : ∀ b, Lasts I F (f b)) :
    Lasts I F (x >>= f) := fun s h => (hx s h).bind fun b s' h' => hf b s' h'

theorem map (hx : Lasts I F x) (f : β → γ) : Lasts I F (do return f (← x)) :=
  hx.bind fun _ => pure _

/-- A fault may be handled. -/
theorem handle {F' : ε → Prop} {f : ε → EStateM ε σ β} (hx : Lasts I F x)
    (hf : ∀ e, Lasts I F' (f e)) : Lasts I F' (MonadExcept.tryCatch x f) := by
  intro s hs
  have hends := hx s hs
  change Ends (EStateM.tryCatch x f) s _ _
  unfold Ends EStateM.tryCatch at *
  cases hrun : x s with
  | ok b s' =>
    rw [hrun] at hends
    exact hends
  | error e s' =>
    rw [hrun] at hends
    exact hf e s' hends.2

theorem modify {f : σ → σ} (hf : ∀ s, I s → I (f s)) :
    Lasts I F (modify f : EStateM ε σ PUnit) := fun s h => hf s h

/-- A detour may be taken or not. -/
theorem detour {p : Prop} [Decidable p] (hx : Lasts I F y → Lasts I F x) (hy : Lasts I F y) :
    Lasts I F (if p then x else y) := by
  split
  · exact hx hy
  · exact hy

/-- A detour that is taken from some states only. -/
theorem detour_ends {p : Prop} [Decidable p] {s : σ} (hs : I s) (hy : Lasts I F y)
    (hx : p → Lasts I F y → Ends x s (fun _ s' => I s') fun e s' => F e ∧ I s') :
    Ends (if p then x else y) s (fun _ s' => I s') fun e s' => F e ∧ I s' := by
  split
  · next hp => exact hx hp hy
  · exact hy s hs

theorem forM (xs : List γ) {f : γ → EStateM ε σ PUnit} (hf : ∀ c, Lasts I F (f c)) :
    Lasts I F (xs.forM f) := by
  induction xs with
  | nil => exact pure _
  | cons c xs ih => exact (hf c).bind fun _ => ih

theorem mapM (xs : List γ) {f : γ → EStateM ε σ β} (hf : ∀ c, Lasts I F (f c)) :
    Lasts I F (xs.mapM f) := by
  induction xs with
  | nil => exact pure _
  | cons c xs ih =>
    rw [List.mapM_cons]
    exact (hf c).bind fun _ => ih.bind fun _ => pure _

theorem weaken {F' : ε → Prop} (hx : Lasts I F x) (h : ∀ e, F e → F' e) : Lasts I F' x :=
  fun s hs => (hx s hs).imp (fun _ _ => id) fun e _ he => ⟨h e he.1, he.2⟩

/-- Nothing is asked of states and faults. -/
theorem any (x : EStateM ε σ β) : Lasts (fun _ => True) (fun _ => True) x := by
  intro s _
  unfold Ends
  cases x s with
  | ok b s' => trivial
  | error e s' => exact ⟨trivial, trivial⟩

variable {s s' : σ} (hx : Lasts I F x) (hs : I s)
include hx hs

theorem after : I (after x s) :=
  ((hx s hs).runs fun _ _ h => h.2).after

theorem fault {e : ε} (h : x s = .error e s') : F e := by
  have hends := hx s hs
  rw [Ends, h] at hends
  exact hends.1

end Lasts

end

/-! ### Calls that decide -/

variable {ε σ β γ : Type}

/-- The outcome is a success, with `P`, where `ok` holds, and a fault of the kind `F` elsewhere. -/
def Decides (r : EStateM.Result ε σ β) (ok : Prop) (P : β → σ → Prop) (F : ε → Prop) : Prop :=
  (ok ∧ ∃ b s, r = .ok b s ∧ P b s) ∨ (¬ok ∧ ∃ e s, r = .error e s ∧ F e)

namespace Decides

variable {r : EStateM.Result ε σ β} {ok ok' : Prop} {P P' : β → σ → Prop} {Q : γ → σ → Prop}
  {F : ε → Prop} {s : σ}

theorem of_ok {b : β} {s : σ} (hr : r = .ok b s) (hP : P b s) : Decides r True P F :=
  .inl ⟨trivial, b, s, hr, hP⟩

theorem of_error {e : ε} {s : σ} (hr : r = .error e s) (hF : F e) : Decides r False P F :=
  .inr ⟨not_false, e, s, hr, hF⟩

theorem congr (h : Decides r ok P F) (hok : ok ↔ ok') : Decides r ok' P F := by
  rwa [← propext hok]

theorem imp (h : Decides r ok P F) (hP : ok → ∀ b s, P b s → P' b s) : Decides r ok P' F :=
  Or.imp (fun ⟨hok, b, s, hr, h⟩ => ⟨hok, b, s, hr, hP hok b s h⟩) id h

theorem success (h : Decides r ok P F) (hok : ok) : ∃ b s, r = .ok b s ∧ P b s := by
  rcases h with ⟨-, h⟩ | ⟨hnot, -⟩
  · exact h
  · exact absurd hok hnot

theorem refusal (h : Decides r ok P F) (hnot : ¬ok) : ∃ e s, r = .error e s ∧ F e := by
  rcases h with ⟨hok, -⟩ | ⟨-, h⟩
  · exact absurd hok hnot
  · exact h

/-- A second step counts only where the first one succeeds. -/
theorem bind {x : EStateM ε σ β} {f : β → EStateM ε σ γ} (hx : Decides (x s) ok P F)
    (hf : ok → ∀ b s', P b s' → Decides (f b s') ok' Q F) :
    Decides ((x >>= f) s) (ok ∧ ok') Q F := by
  rw [bind_run]
  rcases hx with ⟨hok, b, s', hr, hP⟩ | ⟨hnot, e, s', hr, hF⟩ <;> rw [hr]
  · exact (hf hok b s' hP).congr (by simp [hok])
  · exact .inr ⟨fun h => hnot h.1, e, s', rfl, hF⟩

/-- A first step that cannot fail decides nothing. -/
theorem after {x : EStateM ε σ β} {f : β → EStateM ε σ γ} {b : β} {s' : σ} (hx : x s = .ok b s')
    (hf : Decides (f b s') ok Q F) : Decides ((x >>= f) s) ok Q F := by
  rw [bind_run, hx]
  exact hf

/-- A refusal that stands before a step. -/
theorem guard {p : Prop} [Decidable p] {x : EStateM ε σ γ} {y : EStateM ε σ β} {e : ε} {s' : σ}
    (hx : x s = .error e s') (hF : F e) {f : γ → EStateM ε σ β} (hy : ¬p → Decides (y s) ok P F) :
    Decides ((if p then x >>= f else y) s) (¬p ∧ ok) P F := by
  by_cases hp : p
  · rw [if_pos hp, bind_run, hx]
    exact .inr ⟨fun h => h.1 hp, e, s', rfl, hF⟩
  · rw [if_neg hp]
    exact (hy hp).congr (by simp [hp])

/-! ### Sound entries -/

section
variable {xs : List β}

theorem sound_cons {x : β} {done : List β} {ok : List β → β → Prop} :
    (ok done x ∧ ∀ mid y rest, xs = mid ++ y :: rest → ok (done ++ [x] ++ mid) y) ↔
      ∀ mid y rest, x :: xs = mid ++ y :: rest → ok (done ++ mid) y := by
  constructor
  · rintro ⟨hx, hxs⟩ mid y rest heq
    cases mid with
    | nil =>
      cases heq
      simpa using hx
    | cons z mid =>
      cases heq
      simpa using hxs mid y rest rfl
  · exact fun h => ⟨by simpa using h [] x xs rfl, fun mid y rest heq => by
      simpa using h (x :: mid) y rest (by rw [heq]; rfl)⟩

/-- What is asked of every entry on its own. -/
theorem sound_forall {p : β → Prop} :
    (∀ done x rest, xs = done ++ x :: rest → p x) ↔ ∀ x ∈ xs, p x := by
  constructor
  · intro h x hx
    obtain ⟨done, rest, rfl⟩ := List.append_of_mem hx
    exact h done x rest rfl
  · exact fun h done x rest hxs => h x (by simp [hxs])

/-- No entry has what one before it has. -/
theorem sound_nodup {f : β → γ} :
    (∀ done x rest, xs = done ++ x :: rest → f x ∉ done.map f) ↔ (xs.map f).Nodup := by
  constructor
  · intro h
    induction xs using List.reverseRecOn with
    | nil => exact List.nodup_nil
    | append_singleton xs y ih =>
      rw [List.map_append, List.map_singleton, List.nodup_append]
      refine ⟨ih fun done x rest hxs => h done x (rest ++ [y]) (by simp [hxs]),
        List.pairwise_singleton _ _, fun a ha b hb => ?_⟩
      rw [List.mem_singleton.1 hb]
      exact fun heq => h xs y [] rfl (heq ▸ ha)
  · rintro h done x rest rfl
    rw [List.map_append, List.map_cons, List.nodup_append] at h
    exact fun hx => h.2.2 _ hx _ (List.mem_cons_self ..) rfl

/-- Positions make no difference. -/
theorem sound_zipIdx {p : List β → β → Prop} :
    (∀ done x rest, xs.zipIdx = done ++ x :: rest → p (done.map (·.1)) x.1) ↔
      ∀ done x rest, xs = done ++ x :: rest → p done x := by
  constructor
  · rintro h done x rest rfl
    simpa using h done.zipIdx (x, done.length) _ (by simp [List.zipIdx_append]; rfl)
  · intro h done x rest hxs
    refine h _ _ (rest.map (·.1)) ?_
    rw [← List.zipIdx_map_fst 0 xs, hxs, List.map_append, List.map_cons]

end

/-! ### Loops -/

theorem foldlM {f : γ → β → EStateM ε σ γ} (xs : List β) (ok : List β → β → Prop)
    (P : List β → γ → σ → Prop) (hstep : ∀ done x rest, xs = done ++ x :: rest → ∀ c s, P done c s →
      Decides (f c x s) (ok done x) (P (done ++ [x])) F) {c : γ} {s : σ} (h : P [] c s) :
    Decides (xs.foldlM f c s) (∀ done x rest, xs = done ++ x :: rest → ok done x) (P xs) F := by
  have hfrom : ∀ rest done c s, xs = done ++ rest → P done c s → Decides (rest.foldlM f c s)
      (∀ mid x after, rest = mid ++ x :: after → ok (done ++ mid) x) (P xs) F := by
    intro rest
    induction rest with
    | nil =>
      intro done c s hxs h
      rw [List.append_nil] at hxs
      exact (of_ok rfl (hxs ▸ h)).congr (by simp)
    | cons x rest ih =>
      intro done c s hxs h
      rw [List.foldlM_cons]
      exact ((hstep done x rest hxs c s h).bind fun _ c' s' h' =>
        ih (done ++ [x]) c' s' (by simp [hxs]) h').congr sound_cons
  simpa using hfrom xs [] c s rfl h

theorem mapM {f : β → EStateM ε σ γ} (xs : List β) (ok : List β → β → Prop)
    (P : List β → List γ → σ → Prop) (hstep : ∀ done x rest, xs = done ++ x :: rest → ∀ ys s, P done ys s →
      Decides (f x s) (ok done x) (fun y s' => P (done ++ [x]) (ys ++ [y]) s') F) {s : σ}
    (h : P [] [] s) :
    Decides (xs.mapM f s) (∀ done x rest, xs = done ++ x :: rest → ok done x) (P xs) F := by
  have hfrom : ∀ rest done ys s, xs = done ++ rest → P done ys s → Decides (rest.mapM f s)
      (∀ mid x after, rest = mid ++ x :: after → ok (done ++ mid) x)
      (fun zs s' => P xs (ys ++ zs) s') F := by
    intro rest
    induction rest with
    | nil =>
      intro done ys s hxs h
      rw [List.append_nil] at hxs
      exact (of_ok (b := []) rfl (by rw [List.append_nil]; exact hxs ▸ h)).congr (by simp)
    | cons x rest ih =>
      intro done ys s hxs h
      rw [List.mapM_cons]
      refine ((hstep done x rest hxs ys s h).bind fun _ y s' h' => ?_).congr sound_cons
      refine ((ih (done ++ [x]) (ys ++ [y]) s' (by simp [hxs]) h').bind fun _ zs s'' h'' =>
        of_ok rfl ?_).congr (iff_of_eq (and_true _))
      simpa using h''
  simpa using hfrom xs [] [] s rfl h

theorem forIn {f : β → PUnit → EStateM ε σ (ForInStep PUnit)} (xs : List β)
    (ok : List β → β → Prop) (P : List β → σ → Prop)
    (hstep : ∀ done x rest, xs = done ++ x :: rest → ∀ s, P done s → Decides (f x ⟨⟩ s) (ok done x)
      (fun next s' => next = .yield ⟨⟩ ∧ P (done ++ [x]) s') F) {s : σ} (h : P [] s) :
    Decides (ForIn.forIn xs PUnit.unit f s) (∀ done x rest, xs = done ++ x :: rest → ok done x)
      (fun _ s' => P xs s') F := by
  have hfrom : ∀ rest done s, xs = done ++ rest → P done s →
      Decides (ForIn.forIn rest PUnit.unit f s)
        (∀ mid x after, rest = mid ++ x :: after → ok (done ++ mid) x) (fun _ s' => P xs s') F := by
    intro rest
    induction rest with
    | nil =>
      intro done s hxs h
      rw [List.append_nil] at hxs
      exact (of_ok rfl (hxs ▸ h)).congr (by simp)
    | cons x rest ih =>
      intro done s hxs h
      rw [List.forIn_cons]
      refine ((hstep done x rest hxs s h).bind fun _ next s' h' => ?_).congr sound_cons
      obtain ⟨rfl, h'⟩ := h'
      exact ih (done ++ [x]) s' (by simp [hxs]) h'
  simpa using hfrom xs [] s rfl h

end Decides

end MixedInteger
