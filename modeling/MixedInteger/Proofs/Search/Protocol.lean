import MixedInteger.Proofs.Search.Recording
import Mathlib.Computability.Language

/-! The protocol of a search. A search moves between choosing a node and solving the node in
hand; each move has its questions to the solver and its events. The reasons of the events of all
moves together are a word of a regular language, whatever the solver answers and whatever the
listener does. -/

namespace MixedInteger

open scoped Computability

variable {α : Type} [Scalar α]

namespace Search

/-! ### The language of reasons -/

/-- A node is taken in hand. -/
def opening : List Reason := [.selection, .preprocessing]

/-- The rounds after which a node is solved again: rows were added before its point was looked
at, or to cut off the point. -/
def repeating : Language Reason :=
  {[.rowGeneration], [.rowGeneration, .heuristic, .cutGeneration]}

/-- The rounds that are the last of a node: it is given up, its integral point is no better than
the incumbent, its integral point becomes the incumbent, or it is split. -/
def closing : Language Reason :=
  {[], [.rowGeneration], [.rowGeneration, .newIncumbent],
    [.rowGeneration, .heuristic, .cutGeneration, .branching]}

/-- Nodes that have been visited, one after another. -/
def visited : Language Reason := ({opening} * repeating∗ * closing)∗

/-- What has been heard before a phase. -/
def Phase.heard : Phase α → Language Reason
  | .choose => visited
  | .visit _ => visited * ({opening} * repeating∗)

theorem append_mem_kstar {β : Type} {l : Language β} {v w : List β} (hv : v ∈ l∗) (hw : w ∈ l) :
    v ++ w ∈ l∗ :=
  Set.mem_of_mem_of_subset (Language.append_mem_mul hv hw) (kstar_mul_le_kstar (a := l))

theorem heard_visit (n n' : Node α) {v w : List Reason} (hv : v ∈ (Phase.visit n).heard)
    (hw : w ∈ repeating) : v ++ w ∈ (Phase.visit n').heard := by
  obtain ⟨u, hu, x, hx, rfl⟩ := Language.mem_mul.1 hv
  obtain ⟨o, ho, r, hr, rfl⟩ := Language.mem_mul.1 hx
  rw [List.append_assoc, List.append_assoc]
  exact Language.append_mem_mul hu (Language.append_mem_mul ho (append_mem_kstar hr hw))

theorem heard_choose (n : Node α) {v w : List Reason} (hv : v ∈ (Phase.visit n).heard)
    (hw : w ∈ closing) : v ++ w ∈ visited := by
  obtain ⟨u, hu, x, hx, rfl⟩ := Language.mem_mul.1 hv
  rw [List.append_assoc]
  exact append_mem_kstar hu (Language.append_mem_mul hx hw)

theorem heard_opening (n : Node α) {v : List Reason} (hv : v ∈ visited) :
    v ++ opening ∈ (Phase.visit n).heard := by
  have h : opening ++ [] ∈ ({opening} * repeating∗ : Language Reason) :=
    Language.append_mem_mul rfl (Language.nil_mem_kstar _)
  rw [List.append_nil] at h
  exact Language.append_mem_mul hv h

/-! ### Records -/

/-- The reason of an event. -/
def Happening.reason? : Happening α → Option Reason
  | .asked _ => none
  | .heard e => e.shown.reason

/-- The reasons of the events on a record. -/
def reasons (es : List (Happening α)) : List Reason := es.filterMap Happening.reason?

theorem reasons_append (as bs : List (Happening α)) :
    reasons (as ++ bs) = reasons as ++ reasons bs := List.filterMap_append

@[simp] theorem reasons_nil : reasons ([] : List (Happening α)) = [] := rfl

@[simp] theorem reasons_asked (rs : List (Request α)) : reasons (rs.map .asked) = [] := by
  simp [reasons, Happening.reason?]

theorem reasons_shown {e : Event α} {r : Reason} {t : Tree α}
    (h : e.shown = { t with reason := some r }) (es : List (Happening α)) :
    reasons (.heard e :: es) = r :: reasons es :=
  List.filterMap_cons_some (by rw [Happening.reason?, h])

theorem reasons_heard {e : Event α} {r : Reason} {t : Tree α} (h : e.Passed r t)
    (es : List (Happening α)) : reasons (.heard e :: es) = r :: reasons es :=
  reasons_shown h.shown es

/-- No event on the record is the last of the search. -/
def Lively (es : List (Happening α)) : Prop := ∀ e, .heard e ∈ es → e.ends = false

theorem Lively.append {as bs : List (Happening α)} (ha : Lively as) (hb : Lively bs) :
    Lively (as ++ bs) :=
  fun e he => (List.mem_append.1 he).elim (ha e) (hb e)

theorem lively_asked (rs : List (Request α)) : Lively (rs.map .asked) := by
  intro e he
  obtain ⟨r, -, hr⟩ := List.mem_map.1 he
  cases hr

theorem lively_nil : Lively ([] : List (Happening α)) := lively_asked []

theorem Lively.heard {es : List (Happening α)} (h : Lively es) {e : Event α} {r : Reason}
    {t : Tree α} (he : e.Passed r t) : Lively (es ++ [.heard e]) := by
  refine h.append fun e' he' => ?_
  cases List.mem_singleton.1 he'
  exact he.goes_on

/-! ### Moves -/

/-- A round is one run of the simplex method: its questions, which are about the relaxation in hand
unless that has no columns, and the tree with the solution of this run. -/
def Solved (t : Tree α) (es : List (Happening α)) (u : Tree α) : Prop :=
  ∃ rs b, t.problem.Consults rs ∧ es = rs.map .asked ∧
    u = { t with solved := t.solved + 1, problem := t.problem.withBasic b }

/-- The node has an optimum, which is its bound from now on. -/
def Weighed (n : Node α) (t : Tree α) (es : List (Happening α)) (n' : Node α) (u : Tree α) :
    Prop :=
  ∃ v, Solved t es v ∧ v.problem.basic.status = .optimal ∧
    n' = { n with bound := v.problem.basic.objective } ∧
      u = (v.learn n v.problem.basic.objective).settle n'

/-- An optimum that may lead to something better is announced. -/
def Offered (n : Node α) (t : Tree α) (es : List (Happening α)) (n' : Node α) (e : Event α) :
    Prop :=
  ∃ u, Weighed n t es n' u ∧ u.hopeful n'.bound = true ∧ e.Passed .rowGeneration u

/-- The root notes how far it is from integers. -/
def noted (t : Tree α) (n : Node α) (fs : List (Fraction α)) : Tree α :=
  if n.number = 1 then { t with rootInfeasibility := infeasibility fs } else t

/-- The point of a node has fractions: what is heard before the node is split. -/
structure Divided (n : Node α) (t : Tree α) (es : List (Happening α)) (n' : Node α)
    (fs : List (Fraction α)) (e e₁ e₂ : Event α) : Prop where
  offered : Offered n t es n' e
  kept : ¬e.Grew
  fractional : e.after.fractional = .ok fs
  ne_nil : fs ≠ []
  heuristic : e₁.Passed .heuristic (noted e.after n' fs)
  cuts : e₂.Passed .cutGeneration e₁.after

/-- What a search does in one step, what happens meanwhile, and where it goes on. A node is split into
the two children of `split_children`. -/
inductive Move : Phase α → Tree α → List (Happening α) → Phase α → Tree α → Prop
  | take {t u : Tree α} {n : Node α} {e e' : Event α} :
      e.Passed .selection { t with current := none } → e.after.select = .ok (some n) →
        e.after.activate n = .ok u → e'.Passed .preprocessing u →
          Move .choose t [.heard e, .heard e'] (.visit n) e'.after
  | infeasible {n : Node α} {t u : Tree α} {es : List (Happening α)} :
      Solved t es u → u.problem.basic.status = .noFeasible →
        Move (.visit n) t es .choose (u.fathom n)
  | hopeless {n n' : Node α} {t u : Tree α} {es : List (Happening α)} :
      Weighed n t es n' u → u.hopeful n'.bound = false →
        Move (.visit n) t es .choose (u.fathom n')
  | grow {n n' : Node α} {t : Tree α} {es : List (Happening α)} {e : Event α} :
      Offered n t es n' e → e.Grew →
        Move (.visit n) t (es ++ [.heard e]) (.visit n') e.after
  | dismiss {n n' : Node α} {t : Tree α} {es : List (Happening α)} {e : Event α} :
      Offered n t es n' e → ¬e.Grew → e.after.fractional = .ok [] →
        e.after.candidate = .ok none →
          Move (.visit n) t (es ++ [.heard e]) .choose (e.after.fathom n').prune
  | improve {n n' : Node α} {t : Tree α} {es : List (Happening α)} {e e₁ : Event α}
      {i : Incumbent α} :
      Offered n t es n' e → ¬e.Grew → e.after.fractional = .ok [] →
        e.after.candidate = .ok (some i) →
          e₁.Passed .newIncumbent { e.after with incumbent := some i } →
            Move (.visit n) t (es ++ [.heard e, .heard e₁]) .choose (e₁.after.fathom n').prune
  | cut {n n' : Node α} {t : Tree α} {es : List (Happening α)} {fs : List (Fraction α)}
      {e e₁ e₂ : Event α} :
      Divided n t es n' fs e e₁ e₂ → e₂.Grew →
        Move (.visit n) t (es ++ [.heard e, .heard e₁, .heard e₂]) (.visit n') e₂.after
  | split {n n' : Node α} {t : Tree α} {es : List (Happening α)} {fs : List (Fraction α)}
      {e e₁ e₂ e₃ : Event α} {f : Fraction α} :
      Divided n t es n' fs e e₁ e₂ → ¬e₂.Grew → e₃.Passed .branching e₂.after →
        e₃.after.choose fs = some f →
          Move (.visit n) t (es ++ [.heard e, .heard e₁, .heard e₂, .heard e₃]) .choose
            (e₃.after.split n' f fs)

/-- Moves, one after another. -/
inductive Course : Phase α → Tree α → List (Happening α) → Phase α → Tree α → Prop
  | start {φ : Phase α} {t : Tree α} : Course φ t [] φ t
  | move {φ φ' φ'' : Phase α} {t t' t'' : Tree α} {es es' : List (Happening α)} :
      Move φ t es φ' t' → Course φ' t' es' φ'' t'' → Course φ t (es ++ es') φ'' t''

/-- A move that is broken off asks and announces no more than a whole one. -/
def Broken (φ : Phase α) (t : Tree α) (es : List (Happening α)) : Prop :=
  match φ with
  | .choose => ∃ hs : List (Event α), es = hs.map .heard ∧ reasons es <+: opening
  | .visit _ => ∃ rs, ∃ hs : List (Event α), t.problem.Asks rs ∧
      es = rs.map .asked ++ hs.map .heard ∧ ∃ w ∈ closing, reasons es <+: w

/-! ### One move -/

section
variable {n n' : Node α} {t u : Tree α} {es : List (Happening α)}

theorem Solved.reasons (h : Solved t es u) : reasons es = [] := by
  obtain ⟨rs, b, -, rfl, -⟩ := h
  exact reasons_asked rs

theorem Solved.lively (h : Solved t es u) : Lively es := by
  obtain ⟨rs, b, -, rfl, -⟩ := h
  exact lively_asked rs

theorem Solved.broken (h : Solved t es u) {v : List (Event α)} {w : List Reason}
    (hw : w ∈ closing) (hreasons : Search.reasons (v.map .heard) <+: w) :
    Broken (.visit n) t (es ++ v.map .heard) := by
  have hes := h.reasons
  obtain ⟨rs, b, hconsults, rfl, -⟩ := h
  refine ⟨rs, v, hconsults.1, rfl, w, hw, ?_⟩
  rwa [reasons_append, hes, List.nil_append]

theorem Weighed.solved (h : Weighed n t es n' u) : ∃ v, Solved t es v := by
  obtain ⟨v, hv, -⟩ := h
  exact ⟨v, hv⟩

theorem Offered.solved {e : Event α} (h : Offered n t es n' e) : ∃ v, Solved t es v := by
  obtain ⟨u, hu, -⟩ := h
  exact hu.solved

theorem Offered.passed {e : Event α} (h : Offered n t es n' e) :
    ∃ u, e.Passed .rowGeneration u := by
  obtain ⟨u, -, -, he⟩ := h
  exact ⟨u, he⟩

theorem Offered.reasons {e : Event α} (h : Offered n t es n' e) (hs : List (Happening α)) :
    Search.reasons (es ++ .heard e :: hs) = .rowGeneration :: Search.reasons hs := by
  obtain ⟨v, hv⟩ := h.solved
  obtain ⟨u, he⟩ := h.passed
  rw [reasons_append, hv.reasons, List.nil_append, reasons_heard he]

theorem Offered.lively {e : Event α} (h : Offered n t es n' e) : Lively (es ++ [.heard e]) := by
  obtain ⟨v, hv⟩ := h.solved
  obtain ⟨u, he⟩ := h.passed
  exact hv.lively.heard he

variable {fs : List (Fraction α)} {e e₁ e₂ : Event α}

theorem Divided.reasons (h : Divided n t es n' fs e e₁ e₂) (hs : List (Happening α)) :
    Search.reasons (es ++ .heard e :: .heard e₁ :: .heard e₂ :: hs) =
      .rowGeneration :: .heuristic :: .cutGeneration :: Search.reasons hs := by
  rw [h.offered.reasons, reasons_heard h.heuristic, reasons_heard h.cuts]

theorem Divided.lively (h : Divided n t es n' fs e e₁ e₂) :
    Lively (es ++ [.heard e] ++ [.heard e₁] ++ [.heard e₂]) :=
  (h.offered.lively.heard h.heuristic).heard h.cuts

end

section
variable {φ φ' : Phase α} {t t' : Tree α} {es : List (Happening α)}

/-- What a move lets hear is what the protocol allows. -/
theorem Move.heard (h : Move φ t es φ' t') {v : List Reason} (hv : v ∈ φ.heard) :
    v ++ reasons es ∈ φ'.heard := by
  cases h with
  | take he _ _ he' =>
    rw [reasons_heard he, reasons_heard he']
    exact heard_opening _ hv
  | infeasible hs =>
    rw [hs.reasons]
    exact heard_choose _ hv (.inl rfl)
  | hopeless hw =>
    obtain ⟨u, hs⟩ := hw.solved
    rw [hs.reasons]
    exact heard_choose _ hv (.inl rfl)
  | grow ho =>
    rw [ho.reasons]
    exact heard_visit _ _ hv (.inl rfl)
  | dismiss ho =>
    rw [ho.reasons]
    exact heard_choose _ hv (.inr (.inl rfl))
  | improve ho _ _ _ hfound =>
    rw [ho.reasons, reasons_heard hfound]
    exact heard_choose _ hv (.inr (.inr (.inl rfl)))
  | cut hd =>
    rw [hd.reasons]
    exact heard_visit _ _ hv (.inr rfl)
  | split hd _ hb =>
    rw [hd.reasons, reasons_heard hb]
    exact heard_choose _ hv (.inr (.inr (.inr rfl)))

/-- After a move the search goes on. -/
theorem Move.lively (h : Move φ t es φ' t') : Lively es := by
  cases h with
  | take he _ _ he' => exact (lively_nil.heard he).heard he'
  | infeasible hs => exact hs.lively
  | hopeless hw =>
    obtain ⟨u, hs⟩ := hw.solved
    exact hs.lively
  | grow ho => exact ho.lively
  | dismiss ho => exact ho.lively
  | improve ho _ _ _ hfound =>
    rw [List.append_cons]
    exact ho.lively.heard hfound
  | cut hd =>
    rw [List.append_cons, List.append_cons]
    exact hd.lively
  | split hd _ hb =>
    rw [List.append_cons, List.append_cons, List.append_cons]
    exact hd.lively.heard hb

/-! ### All moves -/

theorem Course.heard (h : Course φ t es φ' t') {v : List Reason} (hv : v ∈ φ.heard) :
    v ++ reasons es ∈ φ'.heard := by
  induction h generalizing v with
  | start => simpa [reasons] using hv
  | move hmove _ ih =>
    rw [reasons_append, ← List.append_assoc]
    exact ih (hmove.heard hv)

/-- A search that is broken off in the middle of a move has not been heard saying anything that
it could not go on to say. -/
theorem Broken.heard (h : Broken φ t es) {v : List Reason} (hv : v ∈ φ.heard) :
    ∃ w ∈ visited, v ++ reasons es <+: w := by
  cases φ with
  | choose =>
    obtain ⟨hs, -, hprefix⟩ := h
    have n : Node α := ⟨1, 0, 0, 0, [], 0, none⟩
    refine ⟨_, heard_choose n (heard_opening n hv) (.inl rfl), ?_⟩
    rw [List.append_nil]
    exact (List.prefix_append_right_inj _).2 hprefix
  | visit n =>
    obtain ⟨rs, hs, -, -, w, hw, hprefix⟩ := h
    exact ⟨_, heard_choose n hv hw, (List.prefix_append_right_inj _).2 hprefix⟩

end

end Search

end MixedInteger
