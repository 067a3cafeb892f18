import MixedInteger.Model.Optimize
import MixedInteger.Proofs.Search.Whole

/-! What callbacks leave alone. Whatever a callback does through the data it is handed, it reads,
adds rows to the working problem, asks for the end or fails. A property that has nothing to do with
these is kept, by induction on how the callback is written; so the columns of the working problem
and the incumbent stay as they are. -/

namespace MixedInteger

variable {α σ β γ : Type} [Scalar α]

/-! ### Rows -/

namespace RowEdit

variable {I : Problem α → Prop}

theorem change_lasts {f : Problem α → Except (ProblemError α) (Problem α)}
    (hf : ∀ p q, I p → f p = .ok q → I q) :
    Lasts I (fun _ => True) (RowEdit.change f) := by
  intro p h
  unfold Ends RowEdit.change
  cases hq : f p with
  | ok q => exact hf p q h hq
  | error e => exact ⟨trivial, h⟩

variable (hrows : ∀ p rows, I p → I { p with rows := rows })
include hrows

theorem setRowSense_lasts (i : Int) (sense : RowSense) (rhs : α) :
    Lasts I (fun _ => True) (Problem.setRowSense i sense rhs) := by
  have hbounds : ∀ (kind : BoundKind) (l u : α),
      Lasts I (fun _ => True) (RowEdit.change (·.setRowBounds i kind l u)) := by
    refine fun kind l u => change_lasts fun p q h hq => ?_
    obtain ⟨r, -, hq⟩ := except_bind_eq_ok.1 hq
    dsimp only at hq
    split_ifs at hq
    cases hq
    exact hrows p _ h
  cases sense with
  | unknown s => exact Lasts.throw trivial
  | _ => exact hbounds _ _ _

theorem addAffineRow_lasts (hpad : ∀ p, I p → I p.padSolutions) (columns : List Int)
    (values : List α) (sense : RowSense) (rhs : α) :
    Lasts I (fun _ => True) (Problem.addAffineRow columns values sense rhs) := by
  have hadd : ∀ p q : Problem α, I p → (p.addRows 1).map (·.1) = .ok q → I q := by
    intro p q h hq
    obtain ⟨r, hr, rfl⟩ := except_map_eq_ok.1 hq
    cases hr
    exact hpad _ (hrows p _ h)
  have hset : ∀ (i : Int) (p q : Problem α), I p → p.setMatrixRow i columns values = .ok q →
      I q := by
    intro i p q h hq
    obtain ⟨r, -, hq⟩ := except_bind_eq_ok.1 hq
    split_ifs at hq
    obtain ⟨_, -, hq⟩ := except_bind_eq_ok.1 hq
    cases hq
    exact hrows p _ h
  unfold Problem.addAffineRow
  refine Lasts.detour (fun hrest => (Lasts.throw trivial).bind fun _ => hrest) ?_
  refine (change_lasts hadd).bind fun _ p h => ?_
  exact ((change_lasts (hset _)).bind fun _ => (setRowSense_lasts hrows _ sense rhs).bind fun _ =>
    Lasts.pure _) p h

end RowEdit

/-! ### Properties that callbacks keep -/

/-- A property of trees that has nothing to do with the rows of the working problem and with the
end of the search. -/
structure Tree.Frame (I : Tree α → Prop) : Prop where
  stop : ∀ t, I t → I t.stop
  rows : ∀ t rows, I t → I { t with problem := { t.problem with rows := rows } }
  pad : ∀ t, I t → I { t with problem := t.problem.padSolutions }

/-- A property of trees and sessions that is also not concerned with what is told of lazy rows. -/
structure Scene.Frame (J : Scene α σ → Prop) : Prop where
  tree : ∀ session, Tree.Frame fun t => J ⟨session, t⟩
  told : ∀ s i r sense rhs, J s → J { s with session := s.session.told (.lazyRow i r sense rhs) }

theorem Tree.Frame.scene {I : Tree α → Prop} (h : Tree.Frame I) :
    Scene.Frame fun s : Scene α σ => I s.tree := ⟨fun _ => h, fun _ _ _ _ _ hs => hs⟩

/-- A callback that edits rows, asks for the end, fails, and touches nothing else. -/
def Callback.EditsRows (call : Callback α σ) : Prop :=
  ∀ I, Tree.Frame I → ∀ d, SearchTask.Keeps I (call d)

/-- A callback that lets the columns and the incumbent of a search be. -/
def Callback.Spares (call : Callback α σ) : Prop := ∀ d, SearchTask.Spares (call d)

/-- Columns and incumbent have nothing to do with rows. -/
theorem Tree.frame_spares (columns : List (Column α)) (incumbent : Option (Incumbent α)) :
    Frame fun t => t.problem.columns = columns ∧ t.incumbent = incumbent :=
  ⟨fun _ h => h, fun _ _ h => h, fun _ h => h⟩

theorem Callback.EditsRows.spares {call : Callback α σ} (h : call.EditsRows) : call.Spares :=
  fun d columns incumbent => h _ (Tree.frame_spares columns incumbent) d

/-! ### Callback data -/

namespace CallbackData

/-- What can be written with callback data: a program that reads the tree, asks for the end of the
search and adds lazy rows through them, that fails and handles failures. -/
inductive Written (d : CallbackData α) : {β : Type} → SearchTask α σ β → Prop
  | pure {β : Type} (b : β) : Written d (Pure.pure b)
  | throw {β : Type} (e : Fault α) : Written d (MonadExcept.throw e : SearchTask α σ β)
  | bind {β γ : Type} {x : SearchTask α σ β} {f : β → SearchTask α σ γ} (hx : Written d x)
      (hf : ∀ b, Written d (f b)) : Written d (x >>= f)
  | handle {β : Type} {x : SearchTask α σ β} {f : Fault α → SearchTask α σ β} (hx : Written d x)
      (hf : ∀ e, Written d (f e)) : Written d (MonadExcept.tryCatch x f)
  | tree : Written d d.tree
  | terminate : Written d d.terminate
  | addLazy (f : FunctionArg α) (s : SetArg α) : Written d (d.addLazy f s)

variable {d : CallbackData α}

namespace Written

theorem ofExcept (x : Except (Fault α) β) :
    d.Written (CallbackData.ofExcept x : SearchTask α σ β) := by
  cases x with
  | ok b => exact .pure b
  | error e => exact .throw e

theorem ofProblem (x : Except (ProblemError α) β) :
    d.Written (SearchTask.ofProblem x : SearchTask α σ β) := by
  cases x with
  | ok b => exact .pure b
  | error e => exact .throw _

theorem reason : d.Written (d.reason : SearchTask α σ Int) := .bind .tree fun _ => .pure _

theorem variablePrimal (i : IndexArg α) : d.Written (d.variablePrimal i : SearchTask α σ α) := by
  refine .bind .tree fun t => ?_
  have hread : d.Written (do
      let info ← CallbackData.ofExcept (d.model.info i)
      SearchTask.ofProblem (t.problem.columnValue t.problem.basic.colPrimal info.column) :
        SearchTask α σ α) := .bind (ofExcept _) fun _ => ofProblem _
  dsimp only
  split_ifs
  · exact .bind (.throw _) fun _ => hread
  · exact hread

theorem mapM {f : β → SearchTask α σ γ} (hf : ∀ b, d.Written (f b)) (bs : List β) :
    d.Written (bs.mapM f) := by
  induction bs with
  | nil => exact .pure _
  | cons b bs ih =>
    rw [List.mapM_cons]
    exact .bind (hf b) fun _ => .bind ih fun _ => .pure _

theorem valueOf (f : AffineFunction α) : d.Written (d.valueOf f : SearchTask α σ α) :=
  .bind .tree fun _ => .bind (mapM (fun _ => .bind (ofExcept _) fun _ =>
    .bind (ofProblem _) fun _ => .pure _) f.terms) fun _ => .pure _

theorem addCut (f : AffineFunction α) (s : SetArg α) :
    d.Written (d.addCut f s : SearchTask α σ Bool) := by
  refine .bind (ofExcept _) fun b => .bind (valueOf f) fun x => ?_
  split_ifs
  · exact .bind (.addLazy _ s) fun _ => .pure _
  · exact .pure _

end Written

variable {J : Scene α σ → Prop}

theorem ofExcept_lasts (x : Except (Fault α) β) :
    Lasts J (fun _ => True) (CallbackData.ofExcept x : SearchTask α σ β) := by
  cases x with
  | ok b => exact Lasts.pure b
  | error e => exact Lasts.throw trivial

theorem tree_lasts : Lasts J (fun _ => True) (d.tree : SearchTask α σ (Tree α)) :=
  (ofExcept_lasts _).bind fun _ => SearchTask.tree_lasts fun _ => Lasts.pure _

variable (hJ : Scene.Frame J)
include hJ

theorem terminate_lasts : Lasts J (fun _ => True) (d.terminate : SearchTask α σ Unit) :=
  tree_lasts.bind fun _ => Lasts.modify fun s hs => (hJ.tree s.session).stop s.tree hs

/-- An edit that keeps what has nothing to do with rows can be made to the working problem. -/
theorem editRow_lasts {edit : RowEdit α β}
    (h : ∀ I : Problem α → Prop, (∀ p rows, I p → I { p with rows := rows }) →
      (∀ p, I p → I p.padSolutions) → Lasts I (fun _ => True) edit) :
    Lasts J (fun _ => True) (editRow edit : SearchTask α σ β) := by
  intro s hs
  have hframe := hJ.tree s.session
  have hedit := h (fun p => J ⟨s.session, { s.tree with problem := p }⟩)
    (fun p rows hp => hframe.rows { s.tree with problem := p } rows hp)
    (fun p hp => hframe.pad { s.tree with problem := p } hp) s.tree.problem hs
  have htree : (SearchTask.tree : SearchTask α σ (Tree α)) s = .ok s.tree s := rfl
  unfold Ends at hedit
  rw [Ends, editRow, bind_run, htree]
  dsimp only
  cases hrun : edit s.tree.problem with
  | ok b p =>
    rw [hrun] at hedit
    exact hedit
  | error e p =>
    rw [hrun] at hedit
    exact hedit

/-- Lazy rows are written to the working problem and told. -/
theorem addLazy_lasts (f : FunctionArg α) (set : SetArg α) :
    Lasts J (fun _ => True) (d.addLazy f set : SearchTask α σ Unit) := by
  unfold addLazy
  dsimp only
  refine Lasts.detour (fun hrest => Lasts.bind (Lasts.throw trivial) fun _ => hrest) ?_
  split
  · refine Lasts.detour (fun hrest => Lasts.bind (Lasts.throw trivial) fun _ => hrest) ?_
    refine (ofExcept_lasts _).bind fun m => (ofExcept_lasts _).bind fun row =>
      (ofExcept_lasts _).bind fun side => ?_
    have hadded := editRow_lasts hJ fun _ hrows hpad =>
      RowEdit.addAffineRow_lasts hrows hpad row.1 row.2 side.1 side.2
    exact hadded.bind fun i => SearchTask.tree_lasts fun t s hs => hJ.told s _ _ _ _ hs
  · exact Lasts.throw trivial

/-- What has nothing to do with rows and with the end is kept by all that can be written. -/
theorem Written.lasts {x : SearchTask α σ β} (h : d.Written x) : Lasts J (fun _ => True) x := by
  induction h with
  | pure b => exact Lasts.pure b
  | throw e => exact Lasts.throw trivial
  | bind _ _ hx hf => exact hx.bind hf
  | handle _ _ hx hf => exact hx.handle hf
  | tree => exact tree_lasts
  | terminate => exact terminate_lasts hJ
  | addLazy f s => exact addLazy_lasts hJ f s

end CallbackData

/-- A callback that reaches the search through its data alone. -/
def Callback.Written (call : Callback α σ) : Prop := ∀ d : CallbackData α, d.Written (call d)

theorem Callback.Written.editsRows {call : Callback α σ} (h : call.Written) : call.EditsRows :=
  fun _ hI d => .of_lasts ((h d).lasts hI.scene)

/-! ### Listeners -/

/-- Bound and gap are noted beside the tree. -/
theorem Model.watch_keeps (m : Model α) {I : Tree α → Prop} {callback : Option (Callback α σ)}
    (h : ∀ call, callback = some call → ∀ d, SearchTask.Keeps I (call d)) :
    SearchTask.Keeps I (m.watch callback) := by
  have hhear : ∀ call : Callback α σ, (∀ d, SearchTask.Keeps I (call d)) →
      SearchTask.Keeps I (m.hear call) := by
    intro call hcall s hs
    have hrun := hcall { model := m.withWatched s.session.world } ⟨s.session.unwatched, s.tree⟩ hs
    unfold Runs Model.hear at *
    dsimp only
    cases hresult : call { model := m.withWatched s.session.world }
        ⟨s.session.unwatched, s.tree⟩ with
    | ok u r =>
      rw [hresult] at hrun
      exact hrun
    | error e r =>
      rw [hresult] at hrun
      exact hrun
  refine SearchTask.Keeps.tree fun t _ => ?_
  dsimp only
  cases callback with
  | none =>
    split
    · exact SearchTask.Keeps.bind (fun s hs => hs) fun _ => .pure _
    · exact .pure _
  | some call =>
    split
    · exact SearchTask.Keeps.bind (fun s hs => hs) fun _ => hhear call (h call rfl)
    · exact hhear call (h call rfl)

theorem Model.watch_spares (m : Model α) {callback : Option (Callback α σ)}
    (h : ∀ call, callback = some call → call.Spares) : SearchTask.Spares (m.watch callback) :=
  fun columns incumbent => m.watch_keeps fun call hcall d => h call hcall d columns incumbent

end MixedInteger
