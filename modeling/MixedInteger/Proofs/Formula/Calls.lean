import MixedInteger.Formula.Reader

/-! What one call of the reader does. Where words of arithmetic come, a call hands on to the next
tighter level; any other way it takes ends in something that is not arithmetic, whatever comes then.
So a formula of arithmetic that was read tells which way the reader took. -/

namespace MixedInteger.Formula

/-! ### Looking at words -/

/-- The mark at the front. -/
def front : List Token → Option String
  | .mark m :: _ => some m
  | _ => none

theorem front_eq_some {ts : List Token} {m : String} :
    front ts = some m ↔ ∃ us, ts = .mark m :: us := by
  rcases ts with _ | ⟨t, ts⟩
  · simp [front]
  · cases t <;> simp [front]

section
open Reading
variable {β γ : Type} {ts : List Token} {s : String}

theorem run_bind (x : Reading β) (f : β → Reading γ) :
    (x >>= f) ts = (x ts).bind fun p => f p.1 p.2 := rfl

theorem run_pure (b : β) : (pure b : Reading β) ts = some (b, ts) := rfl

theorem run_next : next s ts = some (front ts == some s, ts) := by
  rcases ts with _ | ⟨t, ts⟩
  · rfl
  · cases t <;> rfl

theorem run_accept :
    accept s ts = some (front ts == some s, if front ts = some s then ts.tail else ts) := by
  unfold accept
  rw [run_bind, run_next]
  by_cases h : front ts = some s
  · simp only [h, beq_self_eq_true, if_true]
    rfl
  · have : (front ts == some s) = false := by simpa using h
    simp only [this, h, if_false]
    rfl

theorem run_expect : expect s ts = if front ts = some s then some ((), ts.tail) else none := by
  unfold expect
  rw [run_bind, run_accept]
  by_cases h : front ts = some s
  · simp only [h, beq_self_eq_true, if_true]
    rfl
  · have : (front ts == some s) = false := by simpa using h
    simp only [this, h, if_false]
    rfl

theorem run_nextIn (ms : List String) : nextIn ms ts = some ((front ts).any ms.contains, ts) := by
  rcases ts with _ | ⟨t, ts⟩
  · rfl
  · cases t <;> rfl

theorem run_acceptIn (ms : List String) : acceptIn ms ts =
    some ((front ts).any ms.contains, if (front ts).any ms.contains then ts.tail else ts) := by
  unfold acceptIn
  rw [run_bind, run_nextIn]
  cases (front ts).any ms.contains <;> rfl

theorem run_takeSign : takeSign ts = match (front ts).bind (List.lookup · signs) with
    | some s => some (some s, ts.tail)
    | none => some (none, ts) := by
  rcases ts with _ | ⟨t, ts⟩
  · rfl
  · cases t
    case mark m =>
      change (match signs.lookup m with
        | some s => (do modify List.tail; return some s : Reading (Option Sign))
        | none => return none) (.mark m :: ts) = _
      simp only [front, Option.bind_some]
      cases signs.lookup m <;> rfl
    all_goals rfl

theorem run_takeOperator (ops : List (String × Operator)) :
    takeOperator ops ts = match (front ts).bind (List.lookup · ops) with
    | some op => some (some op, ts.tail)
    | none => some (none, ts) := by
  rcases ts with _ | ⟨t, ts⟩
  · rfl
  · cases t
    case mark m =>
      change (match ops.lookup m with
        | some op => (do modify List.tail; return some op : Reading (Option Operator))
        | none => return none) (.mark m :: ts) = _
      simp only [front, Option.bind_some]
      cases ops.lookup m <;> rfl
    all_goals rfl

theorem run_nameBefore : ∃ b, nameBefore s ts = some (b, ts) := by
  rcases ts with _ | ⟨t, _ | ⟨u, ts⟩⟩
  · exact ⟨_, rfl⟩
  · cases t <;> exact ⟨_, rfl⟩
  · cases t <;> cases u <;> exact ⟨_, rfl⟩

theorem run_nameBefore_false (h : ∀ x us, ts ≠ .name x :: .mark s :: us) :
    nameBefore s ts = some (false, ts) := by
  rcases ts with _ | ⟨t, _ | ⟨u, ts⟩⟩
  · rfl
  · cases t <;> rfl
  · cases t
    case name x =>
      cases u
      case mark m =>
        have : (m == s) = false := beq_eq_false_iff_ne.mpr fun same => h x ts (same ▸ rfl)
        change some ((m == s), _) = _
        rw [this]
      all_goals rfl
    all_goals cases u <;> rfl

theorem run_takeComparison {b : Bool} {us : List Token} (h : takeComparison ts = some (b, us)) :
    b = true ∨ us = ts := by
  simp only [takeComparison, run_bind] at h
  revert h
  change (fun r : Reading Bool => r ts = some (b, us) → b = true ∨ us = ts) _
  split
  case h_1 | h_2 => exact fun h => by cases h; exact .inl rfl
  case h_3 m rest _ _ two =>
    cases ["==", "!=", "<=", "<", ">=", ">", "in", "is"].contains m
    · exact fun h => by cases h; exact .inr rfl
    · exact fun h => by cases h; exact .inl rfl
  case h_4 => exact fun h => by cases h; exact .inr rfl

theorem run_takeComparison_false (h : ∀ m ∈ front ts, m = ")") :
    takeComparison ts = some (false, ts) := by
  rcases ts with _ | ⟨t, ts⟩
  · rfl
  cases t
  case mark m =>
    obtain rfl := h m rfl
    rfl
  all_goals rfl

end

/-! ### One call -/

/-- Only arithmetic, with whatever names. -/
def IsArithmetic : Formula → Prop
  | int _ | real _ | name _ => True
  | unary s f => s ≠ .other ∧ f.IsArithmetic
  | binary op f g => op ≠ .other ∧ f.IsArithmetic ∧ g.IsArithmetic
  | constant | other _ => False

/-- Reads no arithmetic. -/
def Strange (x : Reading Formula) : Prop := ∀ ts f more, x ts = some (f, more) → ¬ f.IsArithmetic

theorem Strange.bind {β : Type} {x : Reading β} {k : β → Reading Formula} (h : ∀ b, Strange (k b)) :
    Strange (x >>= k) := by
  intro ts f more run
  rw [run_bind, Option.bind_eq_some_iff] at run
  obtain ⟨p, -, run⟩ := run
  exact h p.1 p.2 f more run

theorem Strange.pure {f : Formula} (h : ¬ f.IsArithmetic) : Strange (pure f) := by
  intro ts g more run
  cases run
  exact h

theorem Strange.ite {c : Prop} [Decidable c] {x y : Reading Formula} (hx : Strange x)
    (hy : Strange y) : Strange (if c then x else y) := by
  split
  · exact hx
  · exact hy

theorem strange_other (place : Bool) : Strange (pure (other place)) := .pure id

section
open Reading
variable {fuel : Nat} {ts more : List Token} {f g : Formula}

theorem expression_run (hl : front ts ≠ some "lambda") (hi : front more ≠ some "if")
    (h : alternative fuel ts = some (f, more)) : expression (fuel + 1) ts = some (f, more) := by
  simp [expression, run_bind, run_accept, run_pure, hl, hi, h]

theorem expression_inv (h : expression (fuel + 1) ts = some (f, more)) (hf : f.IsArithmetic) :
    alternative fuel ts = some (f, more) := by
  simp only [expression, run_bind, run_accept, Option.bind_some, beq_iff_eq] at h
  split at h
  · exact absurd hf (Strange.bind (fun _ => .bind fun _ => strange_other false) _ _ _ h)
  · rw [run_bind, Option.bind_eq_some_iff] at h
    obtain ⟨⟨g, mid⟩, h, after⟩ := h
    simp only [run_bind, run_accept, Option.bind_some, beq_iff_eq] at after
    split at after
    · exact absurd hf (Strange.bind (fun _ => .bind fun _ => .bind fun _ => strange_other false)
        _ _ _ after)
    · cases after
      exact h

theorem alternative_run (h : negation fuel ts = some (f, more))
    (hm : (front more).any ["and", "or"].contains = false) :
    alternative (fuel + 1) ts = some (f, more) := by
  simp only [alternative, run_bind, run_acceptIn, h, Option.bind_some, hm]
  rfl

theorem alternative_inv (h : alternative (fuel + 1) ts = some (f, more)) (hf : f.IsArithmetic) :
    negation fuel ts = some (f, more) := by
  rw [alternative, run_bind, Option.bind_eq_some_iff] at h
  obtain ⟨⟨g, mid⟩, h, after⟩ := h
  simp only [run_bind, run_acceptIn, Option.bind_some] at after
  cases hm : (front mid).any ["and", "or"].contains with
  | true =>
    simp only [hm, if_true] at after
    exact absurd hf (Strange.bind (fun _ => strange_other false) _ _ _ after)
  | false =>
    simp only [hm, Bool.false_eq_true, if_false] at after
    cases after
    exact h

theorem negation_run (hn : front ts ≠ some "not") (hc : ∀ m ∈ front more, m = ")")
    (h : chain fuel operators ts = some (f, more)) : negation (fuel + 1) ts = some (f, more) := by
  simp [negation, run_bind, run_accept, run_pure, hn, run_takeComparison_false hc, h]

theorem negation_inv (h : negation (fuel + 1) ts = some (f, more)) (hf : f.IsArithmetic) :
    chain fuel operators ts = some (f, more) := by
  simp only [negation, run_bind, run_accept, Option.bind_some, beq_iff_eq] at h
  split at h
  · rw [run_bind, Option.bind_eq_some_iff] at h
    obtain ⟨g, -, h⟩ := h
    cases h
    exact absurd rfl hf.1
  · rw [run_bind, Option.bind_eq_some_iff] at h
    obtain ⟨⟨g, mid⟩, h, after⟩ := h
    rw [run_bind, Option.bind_eq_some_iff] at after
    obtain ⟨⟨b, last⟩, taken, after⟩ := after
    rcases run_takeComparison taken with rfl | rfl
    · exact absurd hf (Strange.bind (fun _ => strange_other false) _ _ _ after)
    · cases b with
      | true => exact absurd hf (Strange.bind (fun _ => strange_other false) _ _ _ after)
      | false =>
        cases after
        exact h

theorem chain_cons {ops : List (String × Operator)} {tighter : List (List (String × Operator))} :
    chain (fuel + 1) (ops :: tighter) ts =
      (chain fuel tighter ts).bind fun p => chainFrom fuel ops tighter p.1 p.2 := rfl

theorem chainFrom_succ {ops : List (String × Operator)}
    {tighter : List (List (String × Operator))} : chainFrom (fuel + 1) ops tighter f ts =
      match (front ts).bind (List.lookup · ops) with
      | some op => (chain fuel tighter ts.tail).bind fun p =>
        chainFrom fuel ops tighter (.binary op f p.1) p.2
      | none => some (f, ts) := by
  rw [chainFrom, run_bind, run_takeOperator]
  cases (front ts).bind (List.lookup · ops) <;> rfl

theorem signed_succ : signed (fuel + 1) ts = match (front ts).bind (List.lookup · signs) with
    | some s => (signed fuel ts.tail).bind fun p => some (.unary s p.1, p.2)
    | none => (awaited fuel ts).bind fun p =>
      if front p.2 = some "**" then
        (signed fuel p.2.tail).bind fun q => some (.binary .power p.1 q.1, q.2)
      else some (p.1, p.2) := by
  rw [signed, run_bind, run_takeSign]
  cases (front ts).bind (List.lookup · signs) with
  | some s => rfl
  | none =>
    simp only [Option.bind_some, run_bind, run_accept, beq_iff_eq]
    congr 1
    funext p
    split <;> rfl

theorem awaited_run (ha : front ts ≠ some "await") (h : operand fuel ts = some (f, more)) :
    awaited (fuel + 1) ts = trailers fuel f more := by
  simp [awaited, run_bind, run_accept, ha, h]

theorem awaited_inv (h : awaited (fuel + 1) ts = some (f, more)) (hf : f.IsArithmetic) :
    ∃ g mid, operand fuel ts = some (g, mid) ∧ trailers fuel g mid = some (f, more) := by
  simp only [awaited, run_bind, run_accept, Option.bind_some, beq_iff_eq] at h
  by_cases ha : front ts = some "await"
  · rw [if_pos ha] at h
    exact absurd hf (Strange.bind (fun _ => strange_other false) _ _ _ h)
  · rw [if_neg ha, if_neg ha] at h
    rw [run_bind, Option.bind_eq_some_iff] at h
    obtain ⟨⟨g, mid⟩, h, after⟩ := h
    exact ⟨g, mid, h, after⟩

theorem trailers_run (h : ∀ m ∈ front ts, m ∉ [".", "(", "["]) :
    trailers (fuel + 1) f ts = some (f, ts) := by
  have plain : front ts ≠ some "." ∧ front ts ≠ some "(" ∧ front ts ≠ some "[" :=
    ⟨fun hm => h _ hm (by simp), fun hm => h _ hm (by simp), fun hm => h _ hm (by simp)⟩
  simp [trailers, run_bind, run_accept, run_pure, plain]

theorem trailers_inv (h : trailers fuel f ts = some (g, more)) (hg : g.IsArithmetic) :
    g = f ∧ more = ts := by
  induction fuel generalizing f ts with
  | zero => cases h
  | succ fuel ih =>
    -- a member, a call or a part stays one
    have strange {β : Type} {x : Reading β} (place : Bool) {us : List Token}
        (hx : (x >>= fun _ => trailers fuel (.other place)) us = some (g, more)) :
        g = f ∧ more = ts := by
      rw [run_bind, Option.bind_eq_some_iff] at hx
      obtain ⟨_, -, hx⟩ := hx
      rw [(ih hx).1] at hg
      exact absurd hg id
    simp only [trailers, run_bind, run_accept, Option.bind_some, beq_iff_eq] at h
    by_cases hp : front ts = some "."
    · simp only [hp, if_true] at h
      exact strange true h
    simp only [hp, if_false, run_bind, run_accept, Option.bind_some, beq_iff_eq] at h
    by_cases hc : front ts = some "("
    · simp only [hc, if_true] at h
      exact strange false h
    simp only [hc, if_false, run_bind, run_accept, Option.bind_some, beq_iff_eq] at h
    by_cases hb : front ts = some "["
    · simp only [hb, if_true] at h
      exact strange true h
    simp only [hb, if_false] at h
    cases h
    exact ⟨rfl, rfl⟩

theorem operand_int (n : Nat) : operand (fuel + 1) (.int n :: ts) = some (.int n, ts) := rfl

theorem operand_real (x : Float) : operand (fuel + 1) (.real x :: ts) = some (.real x, ts) := rfl

theorem operand_name (s : String) : operand (fuel + 1) (.name s :: ts) = some (.name s, ts) := rfl

theorem operand_group : operand (fuel + 1) (.mark "(" :: ts) = group fuel ts := rfl

theorem texts_strange (bytes : Bool) (pieced : Bool) (h : texts bytes pieced ts = some (f, more)) :
    ¬ f.IsArithmetic := by
  induction ts generalizing pieced with
  | nil =>
    cases pieced <;> cases h <;> exact id
  | cons t ts ih =>
    cases t
    case text b p =>
      simp only [texts] at h
      split at h
      · exact ih _ h
      · cases h
    all_goals
      cases pieced <;> cases h <;> exact id

/-- A list is one whatever its items are. -/
theorem strange_bracketed : Strange (bracketed fuel) := by
  cases fuel with
  | zero => exact fun _ _ _ h => nomatch h
  | succ fuel =>
    refine .bind fun _ => .ite (strange_other true) (.bind fun _ => .bind fun _ => .ite ?_ ?_)
    · exact .bind fun _ => .bind fun _ => .bind fun _ => strange_other false
    · exact .bind fun _ => .ite (.bind fun _ => .bind fun _ => strange_other _)
        (.bind fun _ => strange_other _)

/-- So is a mapping or a set. -/
theorem strange_braced : Strange (braced fuel) := by
  cases fuel with
  | zero => exact fun _ _ _ h => nomatch h
  | succ fuel =>
    refine .bind fun _ => .bind fun _ => .ite (.bind fun _ => strange_other false) ?_
    refine .bind fun _ => .bind fun _ => .bind fun _ => ?_
    repeat' first
      | exact strange_other false
      | apply Strange.ite
      | refine Strange.bind fun _ => ?_

theorem operand_inv (h : operand (fuel + 1) ts = some (f, more)) (hf : f.IsArithmetic) :
    (∃ n, f = .int n ∧ ts = .int n :: more) ∨ (∃ x, f = .real x ∧ ts = .real x :: more) ∨
      (∃ s, f = .name s ∧ ts = .name s :: more) ∨
      ∃ us, ts = .mark "(" :: us ∧ group fuel us = some (f, more) := by
  rcases ts with _ | ⟨t, ts⟩
  · cases h
  cases t
  case int n => cases h; exact .inl ⟨n, rfl, rfl⟩
  case real x => cases h; exact .inr (.inl ⟨x, rfl, rfl⟩)
  case imaginary => cases h; exact absurd hf id
  case text bytes pieced => exact absurd hf (texts_strange bytes false h)
  case name s => cases h; exact .inr (.inr (.inl ⟨s, rfl, rfl⟩))
  case mark m =>
    change (if ["None", "True", "False", "..."].contains m then pure constant
      else if m == "(" then group fuel
      else if m == "[" then bracketed fuel
      else if m == "\x7b" then braced fuel
      else refuse : Reading Formula) ts = _ at h
    split at h
    · cases h
      exact absurd hf id
    split at h
    case isTrue hm => exact .inr (.inr (.inr ⟨ts, by rw [beq_iff_eq.mp hm], h⟩))
    split at h
    · exact absurd hf (strange_bracketed _ _ _ h)
    split at h
    · exact absurd hf (strange_braced _ _ _ h)
    · cases h
  all_goals cases h

theorem named_run (hn : ∀ x us, ts ≠ .name x :: .mark ":=" :: us)
    (h : expression fuel ts = some (f, more)) : named (fuel + 1) ts = some (f, more) := by
  simp [named, run_bind, run_nameBefore_false hn, h]

theorem named_inv (h : named (fuel + 1) ts = some (f, more)) (hf : f.IsArithmetic) :
    expression fuel ts = some (f, more) := by
  obtain ⟨b, hb⟩ : ∃ b, nameBefore ":=" ts = some (b, ts) := run_nameBefore
  simp only [named, run_bind, hb, Option.bind_some] at h
  cases b with
  | true => exact absurd hf (Strange.bind (fun _ => .bind fun _ => strange_other false) _ _ _ h)
  | false => exact h

theorem starred_run (hs : front ts ≠ some "*") (h : named fuel ts = some (f, more)) :
    starred (fuel + 1) ts = some ((f, false), more) := by
  simp only [starred, run_bind, run_accept, Option.bind_some, beq_iff_eq, hs, if_false, h]
  rfl

theorem starred_inv (h : starred (fuel + 1) ts = some ((f, false), more)) :
    named fuel ts = some (f, more) := by
  simp only [starred, run_bind, run_accept, Option.bind_some, beq_iff_eq] at h
  split at h
  · rw [run_bind, Option.bind_eq_some_iff] at h
    obtain ⟨p, -, h⟩ := h
    cases h
  · rw [run_bind, Option.bind_eq_some_iff] at h
    obtain ⟨p, h, after⟩ := h
    cases after
    exact h

theorem group_run (hc : front ts ≠ some ")") (hy : front ts ≠ some "yield")
    (h : starred fuel ts = some ((f, false), .mark ")" :: more)) :
    group (fuel + 1) ts = some (f, more) := by
  simp only [group, run_bind, run_accept, Option.bind_some, beq_iff_eq, hc, hy, if_false, h]
  rfl

theorem group_inv (h : group (fuel + 1) ts = some (f, more)) (hf : f.IsArithmetic) :
    starred fuel ts = some ((f, false), .mark ")" :: more) := by
  simp only [group, run_bind, run_accept, Option.bind_some, beq_iff_eq] at h
  by_cases hc : front ts = some ")"
  · rw [if_pos hc] at h
    exact absurd hf (strange_other true _ _ _ h)
  simp only [if_neg hc, run_bind, run_accept, Option.bind_some, beq_iff_eq] at h
  by_cases hy : front ts = some "yield"
  · rw [if_pos hy] at h
    exact absurd hf (Strange.bind (fun _ => .bind fun _ => strange_other false) _ _ _ h)
  simp only [if_neg hy, run_bind, Option.bind_eq_some_iff] at h
  obtain ⟨⟨⟨g, star⟩, mid⟩, h, after⟩ := h
  simp only [run_nextIn] at after
  obtain ⟨_, looked, after⟩ := after
  cases looked
  split at after
  · exact absurd hf
      (Strange.bind (fun _ => .bind fun _ => .bind fun _ => strange_other false) _ _ _ after)
  simp only [run_bind, run_accept, Option.bind_some, beq_iff_eq] at after
  split at after
  · exact absurd hf (Strange.bind (fun _ => strange_other _) _ _ _ after)
  · cases star with
    | true => cases after
    | false =>
      change (expect ")" >>= fun _ => pure g) mid = some (f, more) at after
      rw [run_bind, run_expect] at after
      split at after
      case isTrue closed =>
        obtain ⟨us, rfl⟩ := front_eq_some.mp closed
        cases after
        exact h
      case isFalse => cases after

theorem whole_run (h : expression fuel ts = some (f, more)) (hc : front more ≠ some ",") :
    whole fuel ts = some (f, more) := by
  simp only [whole, run_bind, run_accept, h, Option.bind_some, beq_iff_eq, hc, if_false]
  rfl

theorem whole_inv (h : whole fuel ts = some (f, more)) (hf : f.IsArithmetic) :
    expression fuel ts = some (f, more) := by
  rw [whole, run_bind, Option.bind_eq_some_iff] at h
  obtain ⟨⟨g, mid⟩, h, after⟩ := h
  simp only [run_bind, run_accept, Option.bind_some, beq_iff_eq] at after
  split at after
  · exact absurd hf (Strange.bind (fun _ => strange_other false) _ _ _ after)
  · cases after
    exact h

end

end MixedInteger.Formula
