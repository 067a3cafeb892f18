import MixedInteger.Proofs.Model.CallbackFrame
import MixedInteger.Proofs.Model.Memory
import MixedInteger.Proofs.Model.Questions
import MixedInteger.Proofs.Parameter.Updates

/-! Silent models. The message level is kept in three stores, and silence is one level written into
all of them when it is asked for. It lasts through everything that becomes of the model, until a
level is set by name; and when it is lifted the stores are back at the level that was asked for
last. While it lasts the algorithms report nothing but that there is no certificate, which is told
at any level. -/

namespace MixedInteger

variable {α σ β : Type} [Scalar α]

/-! ### Levels -/

namespace Parameter.Stores

/-- All algorithms report from one level on. -/
structure AtLevel (s : Stores α) (level : Int) : Prop where
  simplex : s.simplex.messageLevel = level
  interior : s.interior.messageLevel = level
  search : s.search.messageLevel = level

theorem kindOf_messageLevel : kindOf α "msg_lev" = some .int := by
  simp [kindOf, get?, read?, Simplex.fields, Field.read, Setting.kind]

theorem held_messageLevel (s : Stores α) : s.held "msg_lev" =
    [some (.int s.interior.messageLevel), some (.int s.search.messageLevel),
      some (.int s.simplex.messageLevel)] := by
  simp [held, read?, Interior.fields, Search.fields, Simplex.fields, Field.read]

theorem atLevel_iff {s : Stores α} {level : Int} :
    s.AtLevel level ↔ ∀ x ∈ s.held "msg_lev", x = some (.int level) := by
  rw [held_messageLevel]
  simp only [List.mem_cons, List.not_mem_nil, or_false, forall_eq_or_imp, forall_eq,
    Option.some.injEq, Setting.int.injEq]
  exact ⟨fun h => ⟨h.interior, h.search, h.simplex⟩, fun h => ⟨h.2.2, h.1, h.2.1⟩⟩

/-- A level that is set is set in all stores. -/
theorem Put.atLevel {s s' : Stores α} {level : Int} (h : s.Put "msg_lev" (.int level) s') :
    s'.AtLevel level := by
  rw [atLevel_iff, h "msg_lev", held_messageLevel]
  simp

/-- Other settings have nothing to do with levels. -/
theorem Put.atLevel_of_ne {s s' : Stores α} {key : String} {c : Setting α} {level : Int}
    (h : s.Put key c s') (hkey : "msg_lev" ≠ key) (hs : s.AtLevel level) : s'.AtLevel level := by
  rw [atLevel_iff] at hs ⊢
  rw [h "msg_lev"]
  simpa [hkey] using hs

/-- Levels are whole numbers. -/
theorem set_messageLevel {v : Value α} {level : Int} (h : wholeInt "msg_lev" v = .ok level)
    (s : Stores α) : ∃ s', Stores.set "msg_lev" v s = .ok () s' ∧ s'.AtLevel level := by
  have hconverted : converted "msg_lev" v .int = .ok (.int level) := by
    rw [converted, h]
    rfl
  obtain ⟨s', hrun, hput⟩ := set_ok (by rfl) kindOf_messageLevel hconverted s
  exact ⟨s', hrun, hput.atLevel⟩

end Parameter.Stores

theorem Modelling.applyParameter_messageLevel {v : Value α} {level : Int}
    (h : Parameter.wholeInt "msg_lev" v = .ok level) (m : Model α) :
    ∃ stores : Parameter.Stores α, applyParameter "msg_lev" v m = .ok () { m with stores := stores } ∧
      stores.AtLevel level := by
  obtain ⟨stores, hrun, hlevel⟩ := Parameter.Stores.set_messageLevel h m.stores
  exact ⟨stores, by rw [applyParameter, hrun], hlevel⟩

/-! ### What is said about messages -/

/-- What was said about messages: the level that was asked for last, and whether that was while the
model was silent. -/
structure Voice where
  level : Int := Parameter.levelErrors
  overruled : Bool := false

namespace Voice

/-- A parameter is given. A level that is no whole number is refused. -/
def hear (v : Voice) (silent : Bool) (key value : Value α) : Voice :=
  match key with
  | .text name =>
    if name = "msg_lev" then
      match Parameter.wholeInt name value with
      | .ok level => ⟨level, silent⟩
      | .error _ => v
    else v
  | _ => v

/-- Parameters that a model starts with. -/
def ofParameters (params : List (String × Value α)) : Voice :=
  params.foldl (fun v p => v.hear false (.text p.1) p.2) {}

/-- The level at which the algorithms report. -/
def inForce (v : Voice) (silent : Bool) : Int :=
  if silent = true ∧ v.overruled = false then Parameter.levelOff else v.level

end Voice

/-- What can become of a model, with what was said about messages. Whatever does not touch the
settings may happen to it in between. -/
inductive Model.Speaks : Model α → Voice → Prop
  | created {presolve method : Value α} {params : List (String × Value α)} {m : Model α}
      (h : Model.create presolve method params = .ok m) : m.Speaks (.ofParameters params)
  | silent {m : Model α} {v : Voice} (h : m.Speaks v) (flag : Bool) :
      (after (Modelling.setSilent flag) m).Speaks { v with overruled := false }
  | parameter {m : Model α} {v : Voice} (h : m.Speaks v) (key value : Value α) :
      (after (Modelling.setParameter key value) m).Speaks (v.hear m.silent key value)
  | timeLimit {m : Model α} {v : Voice} (h : m.Speaks v) (limit : Value α) :
      (after (Modelling.setTimeLimit limit) m).Speaks v
  | solved {m : Model α} {v : Voice} (h : m.Speaks v) {σ : Type} (host : Host α σ)
      (callback : Option (Callback α σ)) (fuel : Nat) (session : Session α σ) :
      (after (Solving.optimize host callback fuel) ⟨session, m⟩).model.Speaks v
  | elsewhere {m m' : Model α} {v : Voice} (h : m.Speaks v) (hsame : m'.settings = m.settings) :
      m'.Speaks v

/-- The model has kept what was said: the level that was asked for last can be asked for again, and
the stores have the level that is in force. -/
structure Model.Minds (m : Model α) (v : Voice) : Prop where
  given : Parameter.wholeInt "msg_lev" m.givenLevel = .ok v.level
  stores : m.stores.AtLevel (v.inForce m.silent)

namespace Model.Minds

variable {m m' : Model α} {v : Voice}

theorem congr (h : m.Minds v) (hsame : m'.settings = m.settings) : m'.Minds v := by
  obtain ⟨hsilent, hgiven, hstores⟩ : m'.silent = m.silent ∧ m'.given = m.given ∧
      m'.stores = m.stores := by
    simpa [Model.settings] using hsame
  refine ⟨?_, ?_⟩
  · rw [givenLevel, hgiven]
    exact h.given
  · rw [hstores, hsilent]
    exact h.stores

/-- The level that is given counts at once, whether the model is silent or not. -/
theorem setLevel {value : Value α} {level : Int}
    (hlevel : Parameter.wholeInt "msg_lev" value = .ok level) (m : Model α) :
    (after (Modelling.setParameter (.text "msg_lev") value) m).Minds ⟨level, m.silent⟩ := by
  obtain ⟨stores, hrun, hstores⟩ := Modelling.applyParameter_messageLevel hlevel m
  have hset : Modelling.setParameter (.text "msg_lev") value m =
      .ok () { m with stores := stores, given := setEntry "msg_lev" value m.given } := by
    simp only [Modelling.setParameter, bind_run, hrun]
    rfl
  rw [after_ok hset]
  refine ⟨?_, ?_⟩
  · rw [givenLevel, lookup_setEntry, if_pos rfl]
    exact hlevel
  · rw [Voice.inForce, if_neg (by simp)]
    exact hstores

/-- Other parameters, and calls that are refused, leave levels alone. -/
theorem setOther (h : m.Minds v) {key value : Value α}
    (hother : key = .text "msg_lev" → ∀ level, Parameter.wholeInt "msg_lev" value ≠ .ok level) :
    (after (Modelling.setParameter key value) m).Minds v := by
  rcases Modelling.setParameter_cases key value m with
    ⟨e, hrun⟩ | ⟨name, k, c, stores, rfl, hk, hc, hput, hrun⟩
  · rw [after_error hrun]
    exact h
  · have hname : "msg_lev" ≠ name := by
      rintro rfl
      rw [Parameter.Stores.kindOf_messageLevel] at hk
      cases hk
      obtain ⟨level, hlevel, -⟩ := except_map_eq_ok.1 hc
      exact hother rfl level hlevel
    rw [after_ok hrun]
    refine ⟨?_, hput.atLevel_of_ne hname h.stores⟩
    rw [givenLevel, lookup_setEntry, if_neg hname]
    exact h.given

theorem setParameter (h : m.Minds v) (key value : Value α) :
    (after (Modelling.setParameter key value) m).Minds (v.hear m.silent key value) := by
  by_cases hkey : key = .text "msg_lev"
  · subst hkey
    cases hlevel : Parameter.wholeInt "msg_lev" value with
    | ok level =>
      simp only [Voice.hear, if_true, hlevel]
      exact setLevel hlevel m
    | error e =>
      simp only [Voice.hear, if_true, hlevel]
      exact h.setOther fun _ level heq => by cases hlevel.symm.trans heq
  · have hsame : v.hear m.silent key value = v := by
      cases key with
      | text name => exact if_neg (by rintro rfl; exact hkey rfl)
      | _ => rfl
    rw [hsame]
    exact h.setOther fun heq => absurd heq hkey

theorem setTimeLimit (h : m.Minds v) (limit : Value α) :
    (after (Modelling.setTimeLimit limit) m).Minds v := by
  have hset : ∀ value, (after (Modelling.setParameter (.text "tm_lim") value) m).Minds v :=
    fun value => h.setOther fun heq => by simp at heq
  unfold Modelling.setTimeLimit
  split
  · exact hset _
  · split
    · exact h
    · split
      · exact h
      · exact hset _

/-- Silence is a level, and so is its end. -/
theorem setSilent (h : m.Minds v) (flag : Bool) : ∃ m', Modelling.setSilent flag m = .ok () m' ∧
    m'.silent = flag ∧ m'.Minds { v with overruled := false } := by
  have hlevel : Parameter.wholeInt "msg_lev"
      (if flag then (.int Parameter.levelOff : Value α) else m.givenLevel) =
      .ok (if flag then Parameter.levelOff else v.level) := by
    cases flag with
    | true => rfl
    | false => exact h.given
  obtain ⟨stores, hrun, hstores⟩ :=
    Modelling.applyParameter_messageLevel hlevel { m with silent := flag }
  refine ⟨{ m with silent := flag, stores := stores }, hrun, rfl, h.given, ?_⟩
  simpa [Voice.inForce] using hstores

end Model.Minds

/-! ### Models that are made -/

/-- The level that was asked for last can be asked for again. -/
structure Model.Remembers (m : Model α) (v : Voice) : Prop where
  silent : m.silent = false
  given : Parameter.wholeInt "msg_lev" m.givenLevel = .ok v.level

namespace Modelling

/-- A parameter that a model starts with is remembered before it is set. -/
theorem setStart_runs {m : Model α} {v : Voice} (h : m.Remembers v) (key : String) (value : Value α) :
    Runs (setParameter (.text key) value) { m with given := setEntry key value m.given }
      (fun _ m' => m'.Remembers (v.hear false (.text key) value)) fun _ => True := by
  unfold Runs
  rcases setParameter_cases (.text key) value { m with given := setEntry key value m.given } with
    ⟨e, hrun⟩ | ⟨name, k, c, stores, hname, hk, hc, -, hrun⟩
  · rw [hrun]
    trivial
  · cases hname
    rw [hrun]
    refine ⟨h.silent, ?_⟩
    rw [Model.givenLevel, lookup_setEntry]
    by_cases hkey : "msg_lev" = key
    · subst hkey
      rw [Parameter.Stores.kindOf_messageLevel] at hk
      cases hk
      obtain ⟨level, hlevel, -⟩ := except_map_eq_ok.1 hc
      simp only [if_true, Option.getD_some, Voice.hear, hlevel]
    · rw [if_neg hkey, lookup_setEntry, if_neg hkey, Voice.hear, if_neg (Ne.symm hkey)]
      exact h.given

theorem presolve_runs {m : Model α} {v : Voice} (h : m.silent = false ∧ m.Minds v) :
    Runs (applyParameter "presolve" (.int 1)) m (fun _ m' => m'.silent = false ∧ m'.Minds v)
      fun _ => True := by
  unfold Runs applyParameter
  rcases Parameter.Stores.set_cases "presolve" (.int 1 : Value α) m.stores with
    ⟨e, hrun⟩ | ⟨k, c, stores, -, -, hrun, hput⟩
  · rw [hrun]
    trivial
  · rw [hrun]
    exact ⟨h.1, h.2.given, hput.atLevel_of_ne (by decide) h.2.stores⟩

theorem configure_runs (params : List (String × Value α)) {m : Model α} {v : Voice}
    (h : m.Remembers v) : Runs (configure params) m
      (fun _ m' => m'.silent = false ∧
        m'.Minds (params.foldl (fun v p => v.hear false (.text p.1) p.2) v)) fun _ => True := by
  unfold configure
  refine Runs.bind (P := fun _ m' =>
    m'.Remembers (params.foldl (fun v p => v.hear false (.text p.1) p.2) v)) ?_ ?_
  · induction params generalizing m v with
    | nil => exact h
    | cons p params ih =>
      rw [List.forIn_cons]
      refine (Runs.bind (P := fun r m' => r = .yield ⟨⟩ ∧
        m'.Remembers (v.hear false (.text p.1) p.2)) ?_ ?_)
      · exact (setStart_runs h p.1 p.2).bind fun _ m' h' => ⟨rfl, h'⟩
      · rintro _ m' ⟨rfl, h'⟩
        exact ih h'
  · rintro _ m' h'
    obtain ⟨stores, hrun, hstores⟩ := applyParameter_messageLevel h'.given m'
    have hminds : ({ m' with stores := stores } : Model α).silent = false ∧
        ({ m' with stores := stores } : Model α).Minds
          (params.foldl (fun v p => v.hear false (.text p.1) p.2) v) := by
      refine ⟨h'.silent, h'.given, ?_⟩
      rw [Voice.inForce, if_neg (by simp [h'.silent])]
      exact hstores
    refine Runs.bind (P := fun m'' s => m'' = m' ∧ s = m') (.of_ok rfl ⟨rfl, rfl⟩) ?_
    rintro _ _ ⟨rfl, rfl⟩
    refine Runs.bind (P := fun _ m' => m'.silent = false ∧
      m'.Minds (params.foldl (fun v p => v.hear false (.text p.1) p.2) v)) (.of_ok hrun hminds) ?_
    intro _ m' hminds
    refine Runs.bind (P := fun m'' s => m'' = m' ∧ s = m') (.of_ok rfl ⟨rfl, rfl⟩) ?_
    rintro _ _ ⟨rfl, rfl⟩
    split_ifs
    · exact presolve_runs hminds
    · exact .pure hminds

end Modelling

/-- A new model is not silent and has the level that it was made with. -/
theorem Model.minds_of_create {presolve method : Value α} {params : List (String × Value α)}
    {m : Model α} (h : Model.create presolve method params = .ok m) :
    m.silent = false ∧ m.Minds (.ofParameters params) := by
  unfold Model.create at h
  obtain ⟨way, -, h⟩ := except_bind_eq_ok.1 h
  have hruns := Modelling.configure_runs params (v := {})
    (m := { presolve := presolve.truthy, method := way }) ⟨rfl, rfl⟩
  unfold Runs at hruns
  dsimp only at h
  split at h
  · next m' hrun =>
    rw [hrun] at hruns
    cases h
    exact hruns
  · cases h

/-! ### Solves

Between algorithms that are silent only what the solve itself tells is heard, and that there is no
certificate. -/

/-- The notice comes from one of the algorithms. -/
def Notice.OfAlgorithm (n : Notice α) : Prop := n.source = .continuous ∨ n.source = .search

/-- There is no certificate. -/
def Notice.Uncertified (n : Notice α) : Prop := n = .noRay ∨ n = .noCertificate

/-- All that the algorithms have told since is that there is no certificate. -/
def Session.HushedSince (before : List (Notice α)) (s : Session α σ) : Prop :=
  ∃ told, s.journal.toList = before ++ told ∧ ∀ n ∈ told, n.OfAlgorithm → n.Uncertified

/-- A callback that keeps a search silent and tells nothing in its name. -/
def Callback.Discreet (call : Callback α σ) : Prop :=
  ∀ d before, Lasts (fun s => s.tree.params.messageLevel < Parameter.levelErrors ∧
    s.session.HushedSince before) (fun _ => True) (call d)

namespace Session.HushedSince

omit [Scalar α]

variable {before : List (Notice α)} {s : Session α σ}

theorem refl (s : Session α σ) : s.HushedSince s.journal.toList :=
  ⟨[], by rw [List.append_nil], by simp⟩

theorem told (h : s.HushedSince before) {n : Notice α} (hn : n.OfAlgorithm → n.Uncertified) :
    (s.told n).HushedSince before := by
  obtain ⟨told, hjournal, htold⟩ := h
  refine ⟨told ++ [n], ?_, fun k hk => ?_⟩
  · rw [Session.told, Array.toList_push, hjournal, List.append_assoc]
  · rcases List.mem_append.1 hk with hk | hk
    · exact htold k hk
    · rw [List.mem_singleton.1 hk]
      exact hn

end Session.HushedSince

/-- What is written with callback data alone is discreet. -/
theorem Callback.Written.discreet {call : Callback α σ} (h : call.Written) : call.Discreet :=
  fun d _ => (h d).lasts
    { tree := fun _ => ⟨fun _ hs => hs, fun _ _ hs => hs, fun _ hs => hs⟩
      told := fun _ _ _ _ _ hs => ⟨hs.1, hs.2.told fun h => by rcases h with h | h <;> cases h⟩ }

/-! ### Silent algorithms -/

omit [Scalar α] in
/-- A silent task tells nothing. -/
theorem Session.HushedSince.host_upholds (host : Host α σ) (before : List (Notice α)) (level : Int)
    (hlevel : level < Parameter.levelErrors) :
    host.Upholds (fun _ => True) (Session.HushedSince before) (fun _ => True) level where
  innocent _ _ := trivial
  ask {r} _ s hs := by
    unfold Ends Task.ask
    rcases host.solve r s.world with ⟨a | e, world⟩
    · exact ⟨trivial, hs⟩
    · exact hs
  told hloud := absurd hloud (by omega)

/-- No algorithm reports anything. -/
structure Model.Muted (m : Model α) : Prop where
  simplex : m.stores.simplex.messageLevel < Parameter.levelErrors
  interior : m.stores.interior.messageLevel < Parameter.levelErrors
  search : m.stores.search.messageLevel < Parameter.levelErrors

theorem Tree.params_activate {t t' : Tree α} {n : Node α} (h : t.activate n = .ok t') :
    t'.params = t.params := by
  obtain ⟨p, -, h⟩ := except_bind_eq_ok.1 h
  obtain ⟨q, -, h⟩ := except_bind_eq_ok.1 h
  cases h
  rfl

/-- A silent search tells nothing. -/
theorem search_hushed (host : Host α σ) {listener : Option (Listener α σ)}
    {V : Session α σ → Prop} (hhost : ∀ level < Parameter.levelErrors,
      host.Upholds (fun _ => True) V (fun _ => True) level)
    (hlistener : ∀ hear, listener = some hear → Lasts (fun s =>
      s.tree.params.messageLevel < Parameter.levelErrors ∧ V s.session) (fun _ => True) hear) :
    Search.Upholds ⟨host, listener⟩ (fun s =>
      s.tree.params.messageLevel < Parameter.levelErrors ∧ V s.session) (fun _ => True) where
  innocent _ _ := trivial
  alike hs h := ⟨h.params ▸ hs.1, hs.2⟩
  activate hs ht := ⟨Tree.params_activate ht ▸ hs.1, hs.2⟩
  relaxed {s} settings hs hlevel := by
    have hsilent : settings.messageLevel < Parameter.levelErrors :=
      not_le.1 fun hloud => absurd (hlevel hloud) (not_le.2 hs.1)
    exact (simplex_lasts (hhost _ hsilent) trivial trivial s.session hs.2).imp
      (fun _ _ hv => ⟨hs.1, hv⟩) fun _ _ he => ⟨trivial, hs.1, he.2⟩
  recorded hs _ := hs
  told n hs hloud := absurd hs.1 (by omega)
  hear := hlistener

theorem Model.Muted.congr {m m' : Model α} (h : m.Muted) (hsame : m'.stores = m.stores) :
    m'.Muted :=
  ⟨hsame ▸ h.simplex, hsame ▸ h.interior, hsame ▸ h.search⟩

/-- What is about settings only has nothing to do with bounds. -/
theorem Modelling.setVariableBound_settings {M : Model α → Prop}
    (hM : ∀ {m m' : Model α}, M m → m'.settings = m.settings → M m') (j : Nat)
    (b : BoundChange α) : Lasts M (fun _ => True) (setVariableBound j b) := fun m hm =>
  (Runs.of_after (I := M) (hM hm (setVariableBound_steady j b m).settings)).ends.imp
    (fun _ _ => id) fun _ _ h => ⟨trivial, h⟩

theorem Model.muted_sustains (host : Host α σ) {callback : Option (Callback α σ)}
    (hcall : ∀ call, callback = some call → call.Discreet) (before : List (Notice α)) :
    Solving.Sustains host callback Model.Muted (Session.HushedSince before) (fun _ => True) where
  innocent _ _ := trivial
  last _ hm := ⟨hm.simplex, hm.interior, hm.search⟩
  presolve _ hm := ⟨hm.simplex, hm.interior, hm.search⟩
  bound := Modelling.setVariableBound_settings fun hm hsame => hm.congr (congrArg (·.2.2) hsame)
  continuous {m m'} hm hm' run hrun s hs := by
    have hhost : ∀ {level}, level < Parameter.levelErrors → host.Upholds (fun _ => True)
        (Session.HushedSince before) (fun _ => True) level := Session.HushedSince.host_upholds _ _ _
    have hends : Lasts (Session.HushedSince before) (fun _ => True) (run m'.problem) := by
      rcases hrun with rfl | rfl | rfl
      · exact simplex_lasts (hhost hm.simplex) trivial trivial
      · exact exact_lasts (hhost hm.simplex) trivial trivial
      · exact interior_lasts (hhost hm.interior) trivial
    exact (hends s hs).imp (fun _ _ hv => ⟨hm'.congr rfl, hv⟩) fun _ _ => id
  search {m m'} hm hm' fuel s bound gap hs := by
    have hwatch : ∀ hear, some (m.watch callback) = some hear → Lasts (fun s =>
        s.tree.params.messageLevel < Parameter.levelErrors ∧
          s.session.unwatched.HushedSince before) (fun _ => True) hear := by
      rintro _ ⟨⟩
      exact m.watch_lasts (V := Session.HushedSince before)
        (I := fun t => t.params.messageLevel < Parameter.levelErrors) fun call hc d =>
          hcall call hc d before
    have hhost : ∀ level < Parameter.levelErrors, host.watched.Upholds (fun _ => True)
        (fun s : Session α (Watched α σ) => s.unwatched.HushedSince before) (fun _ => True) level :=
      Session.HushedSince.host_upholds host.watched before
    have hlasts := (search_hushed host.watched hhost hwatch).intopt
      (V := fun s => s.unwatched.HushedSince before) m.stores.search m.problem
      (fun _ _ hv => ⟨hm.search, hv⟩) (fun _ hv => hv.2) fuel
    exact (hlasts (s.watched bound gap) hs).imp (fun _ _ hv => ⟨hm'.congr rfl, hv⟩) fun _ _ => id
  ray _ := unboundedRay_lasts (Session.HushedSince.host_upholds host before 0 (by decide))
    trivial fun _ hs => hs.told fun _ => .inl rfl
  certificate _ := infeasibilityRay_lasts
    (Session.HushedSince.host_upholds host before 0 (by decide)) trivial
    fun _ hs => hs.told fun _ => .inr rfl
  told n hn _ hs := hs.told fun halgorithm => by
    rcases halgorithm with h | h <;> rw [hn] at h <;> cases h

/-- A solve touches no settings but the presolving parameter. -/
theorem Model.Minds.optimize {m : Model α} {v : Voice} (h : m.Minds v) (host : Host α σ)
    (callback : Option (Callback α σ)) (fuel : Nat) (session : Session α σ) :
    (after (Solving.optimize host callback fuel) ⟨session, m⟩).model.Minds v := by
  have hstored : ∀ {m : Model α} {p : Problem α}, m.Minds v →
      ({ m with problem := p } : Model α).Minds v := fun hm => hm.congr rfl
  have hsustains : Solving.Sustains host callback (Model.Minds · v) (fun _ => True)
      (fun _ => True) := {
    innocent := fun _ _ => trivial
    last := fun _ hm => hm.congr rfl
    presolve := fun _ hm =>
      ⟨hm.given, hm.stores.simplex, hm.stores.interior, hm.stores.search⟩
    bound := Modelling.setVariableBound_settings fun hm hsame => hm.congr hsame
    continuous := fun _ hm' run _ s hs =>
      (Lasts.any (run _) s hs).imp (fun _ _ _ => ⟨hstored hm', trivial⟩) fun _ _ => id
    search := fun _ hm' _ s bound gap _ =>
      (Lasts.any _ (s.watched bound gap) trivial).imp (fun _ _ _ => ⟨hstored hm', trivial⟩)
        fun _ _ => id
    ray := fun _ => Lasts.any _
    certificate := fun _ => Lasts.any _
    told := fun _ _ _ _ => trivial }
  exact (hsustains.optimize fuel).after_model h trivial

/-! ### All that can become of a model -/

namespace Model.Speaks

variable {m : Model α} {v : Voice}

/-- Calls do not touch the settings. -/
theorem call (h : m.Speaks v) (c : Call α) : (Call.after m c).Speaks v :=
  h.elsewhere (Call.keeps_after m c).settings

/-- What is said is minded. -/
theorem minds (h : m.Speaks v) : m.Minds v := by
  induction h with
  | created h => exact (minds_of_create h).2
  | silent h flag ih =>
    obtain ⟨m', hrun, -, hminds⟩ := ih.setSilent flag
    rwa [after_ok hrun]
  | parameter h key value ih => exact ih.setParameter key value
  | timeLimit h limit ih => exact ih.setTimeLimit limit
  | solved h host callback fuel session ih => exact ih.optimize host callback fuel session
  | elsewhere h hsame ih => exact ih.congr hsame

end Model.Speaks

theorem Model.Minds.muted {m : Model α} {v : Voice} (h : m.Minds v) (hsilent : m.silent = true)
    (hlast : v.overruled = false) : m.Muted := by
  have hlevel : v.inForce m.silent < Parameter.levelErrors := by
    rw [Voice.inForce, if_pos ⟨hsilent, hlast⟩]
    decide
  exact ⟨h.stores.simplex ▸ hlevel, h.stores.interior ▸ hlevel, h.stores.search ▸ hlevel⟩

/-- What was said about messages is minded, whatever becomes of the model. When silence is lifted,
every store is at the level that was asked for last, or at the default. While it lasts and no level
has been set since it was asked for, a solve hears nothing from the algorithms, whatever the solver
answers, but that there is no certificate. -/
theorem silent_solves {m : Model α} {v : Voice} (h : m.Speaks v) :
    (∃ m', Modelling.setSilent false m = .ok () m' ∧ m'.stores.AtLevel v.level) ∧
    (m.silent = true → v.overruled = false → ∀ {σ : Type} (host : Host α σ)
      (callback : Option (Callback α σ)), (∀ call, callback = some call → call.Discreet) →
      ∀ fuel (session : Session α σ), (after (Solving.optimize host callback fuel)
        ⟨session, m⟩).session.HushedSince session.journal.toList) := by
  refine ⟨?_, fun hsilent hlast σ host callback hcall fuel session => ?_⟩
  · obtain ⟨m', hrun, hoff, hminds⟩ := h.minds.setSilent false
    refine ⟨m', hrun, ?_⟩
    have hstores := hminds.stores
    rwa [Voice.inForce, if_neg (by simp [hoff])] at hstores
  · exact ((Model.muted_sustains host hcall _).optimize fuel).after_session
      (h.minds.muted hsilent hlast) (.refl session)

/-! ### A silent model that is heard -/

/-- A model with one free variable. -/
def untold : Model Float :=
  Call.after ((Model.create .null (.text "SIMPLEX") []).toOption.getD {}) (.edit .addVariable)

def hushed : Model Float := after (Modelling.setSilent true) untold

/-- A level is set while the model is silent. -/
def roused : Model Float := after (Modelling.setParameter (.text "msg_lev") (.int 3)) hushed

/-- A solver that gives every program one status. -/
def decided (status : Int) : Host Float Unit :=
  .steady ⟨status, "", [0], 0, [], [], [0], [0]⟩

/-- What is told in a solve. -/
def Model.heard (m : Model Float) (status : Int) : List (Notice Float) :=
  (after (Solving.optimize (decided status) none 0) ⟨⟨(), #[]⟩, m⟩).session.journal.toList

theorem untold_speaks : untold.Speaks {} := by
  refine Model.Speaks.call ?_ _
  have hmade : (Model.create .null (.text "SIMPLEX") [] : Except _ (Model Float)).toOption.isSome := by
    decide +kernel
  obtain ⟨m, hm⟩ := Option.isSome_iff_exists.1 hmade
  rw [hm]
  exact .created (ok_of_toOption hm)

theorem hushed_speaks : hushed.Speaks {} := untold_speaks.silent true

theorem roused_speaks : roused.Speaks ⟨3, true⟩ := hushed_speaks.parameter _ _

theorem silent_solves_hushed : hushed.silent = true ∧ (after (Solving.optimize (decided 3)
    (some CallbackData.terminate) 10) ⟨⟨(), #[]⟩, hushed⟩).session.HushedSince [] :=
  ⟨rfl, (silent_solves hushed_speaks).2 rfl rfl (decided 3) (some CallbackData.terminate)
    (by rintro _ ⟨⟩; exact Callback.Written.discreet fun _ => .terminate) 10 ⟨(), #[]⟩⟩

/-- A level that is set while the model is silent makes the algorithms speak again, and that there
is no ray is told even when none is. -/
theorem not_forall_silent : (¬∀ (m : Model Float) (v : Voice), m.Speaks v → m.silent = true →
      ∀ n ∈ m.heard 0, n.source ≠ .continuous) ∧
    ¬∀ (m : Model Float) (v : Voice), m.Speaks v → m.silent = true → v.overruled = false →
      ∀ n ∈ m.heard 3, n.source ≠ .continuous := by
  constructor
  · intro h
    have htold : .continuous ∈ (roused.heard 0).map Notice.source := by decide +kernel
    obtain ⟨n, hn, hsource⟩ := List.mem_map.1 htold
    exact h roused _ roused_speaks (by decide +kernel) n hn hsource
  · intro h
    have htold : .continuous ∈ (hushed.heard 3).map Notice.source := by decide +kernel
    obtain ⟨n, hn, hsource⟩ := List.mem_map.1 htold
    exact h hushed _ hushed_speaks (by decide +kernel) rfl n hn hsource

end MixedInteger
