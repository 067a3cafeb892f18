import MixedInteger.Proofs.Model.Identity
import MixedInteger.Proofs.Model.Reachable
import MixedInteger.Proofs.Model.Run
import MixedInteger.Proofs.Model.Verdict

/-! Certificates of a model that has changed since its solve. A certificate is kept by position,
so it still speaks of the right variable or row as long as nothing that came earlier was deleted,
and it has nothing to say of what was added later. Without a certificate every live variable and
every live row has an answer. Deletions do not renumber a certificate, so one that lost an earlier
column or row no longer speaks of the right one. -/

namespace MixedInteger

variable {α σ : Type} [Scalar α]

namespace Model

/-! ### Answers -/

/-- Without certificates every variable has a value, and every row has a dual when the last
solve was none by search. -/
structure Answers (m : Model α) : Prop where
  value : m.last.ray = none → ∀ v, m.isValid (.var v) = true →
    ∃ x, m.variablePrimal (.var v) = .ok x
  dual : m.last.certificate = none → m.last.bySearch = false → ∀ c : ConstraintIndex,
    c.function = .scalarAffine → m.isValid (.constraint c) = true →
      ∃ x, m.constraintDual (.constraint c) = .ok x

/-- What the certificates of a solve that left `m` say when the model has become `m'`. -/
structure Retains (m m' : Model α) : Prop where
  /-- The component of a variable is its own until one before it is deleted. -/
  ray : ∀ r v, m.last.ray = some r → m.isValid (.var v) = true → m'.isValid (.var v) = true →
    (∀ k < v.value, m.vars.contains k = true → m'.vars.contains k = true) →
      ∃ info x, m.info (.var v) = .ok info ∧ r[info.column - 1]? = some x ∧
        m'.variablePrimal (.var v) = .ok x
  /-- A variable that was added since has no component until one is deleted. -/
  noRay : m.last.ray ≠ none → (∀ k, m.vars.contains k = true → m'.vars.contains k = true) →
    ∀ v, m.isValid (.var v) = false → m'.isValid (.var v) = true →
      m'.variablePrimal (.var v) = .error .pastEnd
  certificate : ∀ y c, m.last.certificate = some y → c.function = .scalarAffine →
    m.isValid (.constraint c) = true → m'.isValid (.constraint c) = true →
    (∀ k < c.value, m.affine.contains k = true → m'.affine.contains k = true) →
      ∃ info x, m.affineInfo c = .ok info ∧ y[info.row - 1]? = some x ∧
        m'.constraintDual (.constraint c) = .ok x
  noCertificate : m.last.certificate ≠ none →
    (∀ k, m.affine.contains k = true → m'.affine.contains k = true) →
    ∀ c, c.function = .scalarAffine → m.affine.contains c.value = false →
      m'.isValid (.constraint c) = true → m'.constraintDual (.constraint c) = .error .pastEnd

theorem WellFormed.answers {m : Model α} (hm : m.WellFormed) : m.Answers where
  value hnone v hv := by
    obtain ⟨i, k, info, c, rfl, hinfo, hat⟩ := hm.exists_variableAt hv
    rw [hat.variablePrimal hinfo, hnone]
    exact ⟨_, rfl⟩
  dual hnone hsearch c hc hv := by
    obtain ⟨i, k, info, r, -, hinfo, hat⟩ := hm.exists_rowAt hc hv
    rw [hat.constraintDual hc hinfo fun _ => hsearch, hnone]
    exact ⟨_, rfl⟩

/-! ### Components by length and place -/

section
variable {m m' : Model α} (h : m.Precedes m') (hm : m.WellFormed) (hm' : m'.WellFormed)
include h hm hm'

theorem Precedes.ray_retained {r : List α} (hr : m.last.ray = some r)
    (hlength : r.length = m.problem.columnCount) {v : VariableIndex}
    (hv : m.isValid (.var v) = true) (hv' : m'.isValid (.var v) = true)
    (hkept : ∀ k < v.value, m.vars.contains k = true → m'.vars.contains k = true) :
    ∃ info x, m.info (.var v) = .ok info ∧ r[info.column - 1]? = some x ∧
      m'.variablePrimal (.var v) = .ok x := by
  obtain ⟨i, k, info, c, rfl, hinfo, hat⟩ := hm.exists_variableAt hv
  obtain ⟨j, k', info', c', hk, hinfo', hat'⟩ := hm'.exists_variableAt hv'
  cases hk
  obtain rfl : i = j := h.vars.place_eq hm.vars hm'.vars hat.entry hat'.entry fun n hn =>
    hm.vars.mem_keys_of_contains hm'.vars (hkept n (Int.ofNat_lt.2 hn))
  have hi : i < r.length := by
    rw [hlength]
    exact hat.place_lt
  refine ⟨info, r[i], hinfo, ?_, ?_⟩
  · rw [hat.number, Nat.add_sub_cancel, List.getElem?_eq_getElem hi]
  · rw [hat'.variablePrimal hinfo', h.last, hr]
    exact component_of_getElem (List.getElem?_eq_getElem hi)

theorem Precedes.ray_ends {r : List α} (hr : m.last.ray = some r)
    (hlength : r.length = m.problem.columnCount)
    (hkept : ∀ k, m.vars.contains k = true → m'.vars.contains k = true) {v : VariableIndex}
    (hv : m.isValid (.var v) = false) (hv' : m'.isValid (.var v) = true) :
    m'.variablePrimal (.var v) = .error .pastEnd := by
  obtain ⟨j, k, info, c, rfl, hinfo, hat⟩ := hm'.exists_variableAt hv'
  have hnew : k ∉ m.vars.keys := by
    rw [hm.vars.mem_keys, ← hm.vars.contains_eq, Bool.not_eq_true]
    exact hv
  have hle := h.vars.length_le_place hm.vars hm'.vars hat.entry hnew fun n =>
    hm.vars.mem_keys_of_contains hm'.vars (hkept n)
  rw [hat.variablePrimal hinfo, h.last, hr]
  refine component_of_length_le ?_
  rw [hlength, Problem.columnCount, hm.columnCount]
  exact hle

theorem Precedes.certificate_retained {y : List α} (hy : m.last.certificate = some y)
    (hlength : y.length = m.problem.rowCount) {c : ConstraintIndex}
    (hc : c.function = .scalarAffine) (hv : m.isValid (.constraint c) = true)
    (hv' : m'.isValid (.constraint c) = true)
    (hkept : ∀ k < c.value, m.affine.contains k = true → m'.affine.contains k = true) :
    ∃ info x, m.affineInfo c = .ok info ∧ y[info.row - 1]? = some x ∧
      m'.constraintDual (.constraint c) = .ok x := by
  obtain ⟨i, k, info, r, hk, hinfo, hat⟩ := hm.exists_rowAt hc hv
  obtain ⟨j, k', info', r', hk', hinfo', hat'⟩ := hm'.exists_rowAt hc hv'
  obtain rfl : k = k' := by exact_mod_cast hk.symm.trans hk'
  obtain rfl : i = j := h.affine.place_eq hm.affine hm'.affine hat.entry hat'.entry fun n hn =>
    hm.affine.mem_keys_of_contains hm'.affine (hkept n (by rw [hk]; exact_mod_cast hn))
  have hi : i < y.length := by
    rw [hlength]
    exact hat.place_lt
  refine ⟨info, y[i], hinfo, ?_, ?_⟩
  · rw [hat.number, Nat.add_sub_cancel, List.getElem?_eq_getElem hi]
  · have hsome : m'.last.certificate = some y := by rw [h.last, hy]
    rw [hat'.constraintDual hc hinfo' (fun hnone => nomatch hsome.symm.trans hnone), hsome]
    exact component_of_getElem (List.getElem?_eq_getElem hi)

theorem Precedes.certificate_ends {y : List α} (hy : m.last.certificate = some y)
    (hlength : y.length = m.problem.rowCount)
    (hkept : ∀ k, m.affine.contains k = true → m'.affine.contains k = true)
    {c : ConstraintIndex} (hc : c.function = .scalarAffine)
    (hv : m.affine.contains c.value = false) (hv' : m'.isValid (.constraint c) = true) :
    m'.constraintDual (.constraint c) = .error .pastEnd := by
  obtain ⟨j, k, info, r, hk, hinfo, hat⟩ := hm'.exists_rowAt hc hv'
  have hnew : k ∉ m.affine.keys := by
    rw [hm.affine.mem_keys, ← hm.affine.contains_eq, Bool.not_eq_true, ← hk]
    exact hv
  have hle := h.affine.length_le_place hm.affine hm'.affine hat.entry hnew fun n =>
    hm.affine.mem_keys_of_contains hm'.affine (hkept n)
  have hsome : m'.last.certificate = some y := by rw [h.last, hy]
  rw [hat.constraintDual hc hinfo (fun hnone => nomatch hsome.symm.trans hnone), hsome]
  refine component_of_length_le ?_
  rw [hlength, Problem.rowCount, hm.rowCount]
  exact hle

theorem Precedes.retains (hray : ∀ r, m.last.ray = some r → r.length = m.problem.columnCount)
    (hcertificate : ∀ y, m.last.certificate = some y → y.length = m.problem.rowCount) :
    m.Retains m' where
  ray r v hr hv hv' hkept := h.ray_retained hm hm' hr (hray r hr) hv hv' hkept
  noRay hne hkept v hv hv' := by
    obtain ⟨r, hr⟩ := Option.ne_none_iff_exists'.1 hne
    exact h.ray_ends hm hm' hr (hray r hr) hkept hv hv'
  certificate y c hy hc hv hv' hkept :=
    h.certificate_retained hm hm' hy (hcertificate y hy) hc hv hv' hkept
  noCertificate hne hkept c hc hv hv' := by
    obtain ⟨y, hy⟩ := Option.ne_none_iff_exists'.1 hne
    exact h.certificate_ends hm hm' hy (hcertificate y hy) hkept hc hv hv'

end

end Model

/-- In every model that can be reached: without certificates each live variable has a value, and
each live row a dual if the last solve was none by search. After a solve that returned, and any
calls, each variable and row before which nothing was deleted has its own component of a
certificate; one that was added since has none, and asking for it fails. -/
theorem certificates_follow [LawfulScalar α] {m : Model α} (h : m.Reachable) :
    m.Answers ∧ ∀ {host : Host α σ}, host.FillsPoints → ∀ {callback : Option (Callback α σ)}
      {fuel : Nat} {session : Session α σ} {w : Workbench α σ},
      Solving.optimize host callback fuel ⟨session, m⟩ = .ok () w →
        ∀ {cs : List (Call α)}, (∀ c ∈ cs, c.InRange) →
          w.model.Retains (Call.afterAll w.model cs) := by
  refine ⟨h.sound.named.wf.answers, ?_⟩
  intro host hhost callback fuel session w hrun cs hcs
  have hsolved : w.model.Reachable := by
    have := Model.Reachable.solved h host callback fuel session
    rwa [after_ok hrun] at this
  obtain ⟨hsound, hprecedes⟩ := hsolved.sound.precedes_calls hcs
  have hconsistent := (Solving.optimize_consists hhost callback fuel _).ok hrun
  exact hprecedes.retains hsolved.sound.named.wf hsound.named.wf hconsistent.ray_length
    hconsistent.certificate_length

/-! ### A variable that came too late -/

theorem falling_reachable : falling.Reachable := by
  rw [← afterAll_fallingCalls]
  exact (Model.Reachable.emptied {}).calls (by decide +kernel)

/-- The solve of `falling` leaves a ray with one component. -/
theorem exists_solved_falling : ∃ w x,
    Solving.optimize Host.single none 20 ⟨⟨(), #[]⟩, falling⟩ = .ok () w ∧ w.model.Reachable ∧
      w.model.vars = falling.vars ∧ w.model.last.ray = some [x] ∧ x.value = -1 := by
  obtain ⟨_, w, hrun, -⟩ := exists_of_passes (x := Solving.optimize Host.single none 20)
    (s := ⟨⟨(), #[]⟩, falling⟩) (fun _ => true) (by decide +kernel)
  have hray : (after (Solving.optimize Host.single none 20) ⟨⟨(), #[]⟩, falling⟩).model.last.ray.map
      (·.map (·.value)) = some [-1] := by decide +kernel
  have hsolved := falling_reachable.solved Host.single none 20 ⟨(), #[]⟩
  have hunsolved := falling_reachable.sound.unsolved_after Host.single none 20 ⟨(), #[]⟩
  rw [after_ok hrun] at hray hsolved hunsolved
  obtain ⟨r, hr, hvalues⟩ := Option.map_eq_some_iff.1 hray
  obtain ⟨x, hx, hvalue⟩ := List.map_eq_singleton_iff.1 hvalues
  have hvars : w.model.vars = falling.vars := congrArg (fun m => m.vars) hunsolved
  exact ⟨w, x, hrun, hsolved, hvars, hr.trans (congrArg _ hx), hvalue⟩

/-- One more variable. -/
def lateCalls : List (Call Extended) := [.edit (.addVariables 1)]

theorem lateCalls_inRange : ∀ c ∈ lateCalls, c.InRange := by decide +kernel

theorem afterAll_lateCalls {m : Model Extended} (hm : m.WellFormed) :
    Call.afterAll m lateCalls = m.grown 1 :=
  Call.after_addVariables hm le_rfl

/-- The variables of `falling`, and one more. -/
theorem keys_grown_falling {m : Model Extended} (hvars : m.vars = falling.vars) :
    m.vars.keys = [1] ∧ (m.grown 1).vars.keys = [1, 2] := by
  rw [Model.grown, hvars]
  exact ⟨rfl, rfl⟩

theorem contains_grown_falling {m : Model Extended} (hm : m.WellFormed)
    (hvars : m.vars = falling.vars) (k : Int) :
    (m.vars.contains k = true ↔ k = 1) ∧ ((m.grown 1).vars.contains k = true ↔ k = 1 ∨ k = 2) := by
  obtain ⟨hkeys, hgrown⟩ := keys_grown_falling hvars
  rw [hm.vars.contains_iff, (hm.grown 1).vars.contains_iff, hkeys, hgrown]
  refine ⟨by simp, ?_⟩
  simp only [List.mem_cons, List.not_mem_nil, or_false]
  constructor
  · rintro ⟨n, rfl, hn⟩
    omega
  · rintro (rfl | rfl)
    · exact ⟨1, rfl, .inl rfl⟩
    · exact ⟨2, rfl, .inr rfl⟩

/-- The first variable keeps its component, the second one has none. -/
theorem certificates_follow_falling : ∃ w x,
    Solving.optimize Host.single none 20 ⟨⟨(), #[]⟩, falling⟩ = .ok () w ∧ x.value = -1 ∧
      (Call.afterAll w.model lateCalls).variablePrimal (.var ⟨1⟩) = .ok x ∧
      (Call.afterAll w.model lateCalls).variablePrimal (.var ⟨2⟩) = .error .pastEnd := by
  obtain ⟨w, x, hrun, hsolved, hvars, hray, hx⟩ := exists_solved_falling
  have hm := hsolved.sound.named.wf
  obtain ⟨-, hfollow⟩ := certificates_follow (σ := Unit) falling_reachable
  have hretains := hfollow Host.single_fillsPoints hrun lateCalls_inRange
  rw [afterAll_lateCalls hm] at hretains
  have hlive := contains_grown_falling hm hvars
  have hkept : ∀ k, w.model.vars.contains k = true → (w.model.grown 1).vars.contains k = true :=
    fun k hk => (hlive k).2.2 (.inl ((hlive k).1.1 hk))
  refine ⟨w, x, hrun, hx, ?_⟩
  rw [afterAll_lateCalls hm]
  constructor
  · have hfirst : w.model.isValid (.var ⟨1⟩) = true := (hlive 1).1.2 rfl
    obtain ⟨info, y, -, hy, hvalue⟩ := hretains.ray [x] ⟨1⟩ hray hfirst (hkept 1 hfirst)
      fun k _ => hkept k
    obtain rfl : y = x := List.mem_singleton.1 (List.mem_of_getElem? hy)
    exact hvalue
  · have hsecond : w.model.isValid (.var ⟨2⟩) = false :=
      Bool.eq_false_iff.2 fun h => by simpa using (hlive 2).1.1 h
    exact hretains.noRay (by rw [hray]; exact Option.some_ne_none _) hkept ⟨2⟩ hsecond
      ((hlive 2).2.2 (.inr rfl))

/-- Not every live variable has a value in every model that can be reached. -/
theorem not_forall_variablePrimal : ¬∀ m : Model Extended, m.Reachable → ∀ v,
    m.isValid (.var v) = true → ∃ x, m.variablePrimal (.var v) = .ok x := by
  intro hall
  obtain ⟨w, x, hrun, hsolved, hvars, hray, hx⟩ := exists_solved_falling
  have hm := hsolved.sound.named.wf
  have hlate := hsolved.calls lateCalls_inRange
  rw [afterAll_lateCalls hm] at hlate
  have hvalid : (w.model.grown 1).isValid (.var ⟨2⟩) = true :=
    (contains_grown_falling hm hvars 2).2.2 (.inr rfl)
  obtain ⟨y, hy⟩ := hall _ hlate ⟨2⟩ hvalid
  obtain ⟨i, k, info, c, hk, hinfo, hat⟩ := (hm.grown 1).exists_variableAt hvalid
  -- the ray has one component, and the variable is the second one
  have hplace : i = 1 := by
    have hkey : (w.model.grown 1).vars.keys[i]? = some k := by
      rw [Registry.keys, List.getElem?_map, hat.entry]
      rfl
    cases hk
    rw [(keys_grown_falling hvars).2] at hkey
    obtain _ | _ | i := i
    · cases hkey
    · rfl
    · cases hkey
  have hray' : (w.model.grown 1).last.ray = some [x] := hray
  rw [hat.variablePrimal hinfo, hray', hplace] at hy
  cases hy

end MixedInteger
