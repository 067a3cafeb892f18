import MixedInteger.Proofs.Formula.Calls

/-! The grammar of arithmetic. A formula is read from its words and from no others: operators bind
and group as their fixities say, and brackets make an operand of any formula. That what is written is
read is an induction on the grammar, and that what is read was written is one on the fuel. -/

namespace MixedInteger

/-- How an operator is written, how tightly it binds, and how tightly its operands must. -/
structure Fixity where
  symbol : String
  own : Nat
  left : Nat
  right : Nat
deriving DecidableEq, Repr

/-- A sum binds loosest, then come products, signs, which stand at level two, and powers; operands
alone are tighter than any. Powers group to the right, and an exponent may have a sign. -/
def Operator.fixity? : Operator → Option Fixity
  | .add => some ⟨"+", 0, 0, 1⟩
  | .subtract => some ⟨"-", 0, 0, 1⟩
  | .multiply => some ⟨"*", 1, 1, 2⟩
  | .divide => some ⟨"/", 1, 1, 2⟩
  | .floorDivide => some ⟨"//", 1, 1, 2⟩
  | .modulo => some ⟨"%", 1, 1, 2⟩
  | .power => some ⟨"**", 3, 4, 2⟩
  | .other => none

def Sign.symbol? : Sign → Option String
  | .plus => some "+"
  | .minus => some "-"
  | .other => none

namespace Formula

/-- The words of a formula where an operand of some level is asked for. Brackets make an operand of
any formula. -/
inductive Words : Nat → Formula → List Token → Prop
  | int {l : Nat} (n : Nat) : Words l (.int n) [.int n]
  | real {l : Nat} (x : Float) : Words l (.real x) [.real x]
  | name {l : Nat} (s : String) : Words l (.name s) [.name s]
  | sign {l : Nat} {s : Sign} {m : String} {f : Formula} {ts : List Token} (hs : s.symbol? = some m)
      (level : l ≤ 2) (operand : Words 2 f ts) : Words l (.unary s f) (.mark m :: ts)
  | binary {l : Nat} {op : Operator} {x : Fixity} {f g : Formula} {ts us : List Token}
      (hop : op.fixity? = some x) (level : l ≤ x.own) (left : Words x.left f ts)
      (right : Words x.right g us) : Words l (.binary op f g) (ts ++ .mark x.symbol :: us)
  | group {l : Nat} {f : Formula} {ts : List Token} (inner : Words 0 f ts) :
      Words l f (.mark "(" :: ts ++ [.mark ")"])

/-! ### Marks around operands -/

/-- An operand of a level may end before `more`: what is next is no mark, or a closing bracket, or an
operator that binds looser. -/
def Ends (l : Nat) (more : List Token) : Prop := ∀ m, front more = some m →
  m = ")" ∨ ∃ op x, Operator.fixity? op = some x ∧ x.own < l ∧ m = x.symbol

/-- The binary operators of a level, counted as in arithmetic. -/
def rung (k : Nat) : List (String × Operator) := operators.getD (4 + k) []

section
variable {l k fuel : Nat} {f g : Formula} {ts us more : List Token} {m : String} {op : Operator}
  {x : Fixity}

theorem Ends.mono (h : Ends l more) (hl : l ≤ k) : Ends k more := fun m hm =>
  (h m hm).imp_right fun ⟨op, x, hx, lt, same⟩ => ⟨op, x, hx, Nat.lt_of_lt_of_le lt hl, same⟩

theorem ends_symbol (hop : op.fixity? = some x) (hl : x.own < l) :
    Ends l (.mark x.symbol :: more) := by
  intro m hm
  cases hm
  exact .inr ⟨op, x, hop, hl, rfl⟩

theorem ends_close : Ends l (.mark ")" :: more) := by
  intro m hm
  cases hm
  exact .inl rfl

theorem Ends.of_zero (h : Ends 0 more) (hm : front more = some m) : m = ")" :=
  (h m hm).resolve_right fun ⟨_, _, _, lt, _⟩ => absurd lt (Nat.not_lt_zero _)

theorem Ends.rung (h : Ends k more) (hk : k < 2) :
    (front more).bind (List.lookup · (rung k)) = none := by
  cases hm : front more with
  | none => rfl
  | some m =>
    obtain rfl | rfl : k = 0 ∨ k = 1 := by omega
    · rw [h.of_zero hm]
      rfl
    · rcases h m hm with rfl | ⟨op, x, hx, lt, rfl⟩
      · rfl
      · cases op <;> cases hx <;> first | rfl | exact absurd lt (by decide)

theorem Ends.not_power (h : Ends 2 more) : front more ≠ some "**" := by
  intro hm
  rcases h _ hm with h | ⟨op, x, hx, lt, same⟩
  · exact absurd h (by decide)
  · cases op <;> cases hx <;> first | exact absurd same (by decide) | exact absurd lt (by decide)

theorem Ends.not_trailer (h : Ends l more) : ∀ m ∈ front more, m ∉ [".", "(", "["] := by
  intro m hm
  rcases h m hm with rfl | ⟨op, x, hx, -, rfl⟩
  · decide
  · cases op <;> cases hx <;> decide

theorem drop_operators {j : Nat} (hj : j < 6) :
    operators.drop j = operators.getD j [] :: operators.drop (j + 1) := by
  have all : ∀ j < 6, operators.drop j = operators.getD j [] :: operators.drop (j + 1) := by decide
  exact all j hj

theorem rung_eq (hk : k < 2) : operators.drop (4 + k) = rung k :: operators.drop (5 + k) := by
  rw [drop_operators (by omega), show 4 + k + 1 = 5 + k by omega]
  rfl

theorem front_append (h : ts ≠ []) : front (ts ++ more) = front ts := by
  rcases ts with _ | ⟨t, ts⟩
  · exact absurd rfl h
  · cases t <;> rfl

theorem Words.ne_nil (h : Words l f ts) : ts ≠ [] := by
  cases h <;> simp

/-- Where a formula begins. -/
theorem Words.front_mem (h : Words l f ts) (hm : front ts = some m) :
    m = "(" ∨ l ≤ 2 ∧ (m = "+" ∨ m = "-") := by
  induction h with
  | int | real | name => cases hm
  | @sign l s m' f ts hs level =>
    obtain rfl : m' = m := by simpa [front] using hm
    refine .inr ⟨level, ?_⟩
    cases s <;> cases hs
    · exact .inl rfl
    · exact .inr rfl
  | @binary l op x f g ts us hop level left _ ihf _ =>
    rw [front_append left.ne_nil] at hm
    refine (ihf hm).imp_right (And.imp_left fun low => ?_)
    cases op <;> cases hop <;> simp at low level ⊢ <;> omega
  | group =>
    cases hm
    exact .inl rfl

/-- What marks a formula is made of. -/
theorem Words.mark_mem (h : Words l f ts) (hm : .mark m ∈ ts) :
    m ∈ ["+", "-", "*", "/", "//", "%", "**", "(", ")"] := by
  induction h with
  | int | real | name => simp at hm
  | @sign l s m' f ts hs level _ ih =>
    rcases List.mem_cons.mp hm with same | hm
    · cases same
      cases s <;> cases hs <;> decide
    · exact ih hm
  | @binary l op x f g ts us hop level _ _ ihf ihg =>
    rcases List.mem_append.mp hm with hm | hm
    · exact ihf hm
    rcases List.mem_cons.mp hm with same | hm
    · cases same
      cases op <;> cases hop <;> decide
    · exact ihg hm
  | @group l f ts _ ih =>
    simp at hm
    rcases hm with rfl | hm | rfl
    · decide
    · exact ih hm
    · decide

end

/-! ### Reading what is written

A formula of `n` words is read with `24 * n` calls to spare: no more are nested between two words.
The closer a level is to the operands the fewer it needs. -/

/-- An operand is read where one is asked for. -/
def ReadsOperand (f : Formula) (ts : List Token) : Prop := ∀ fuel more,
  24 * ts.length ≤ fuel + 8 → Ends 4 more → awaited fuel (ts ++ more) = some (f, more)

def ReadsSigned (f : Formula) (ts : List Token) : Prop := ∀ fuel more,
  24 * ts.length ≤ fuel + 7 → Ends 2 more → signed fuel (ts ++ more) = some (f, more)

def ReadsChain (k : Nat) (f : Formula) (ts : List Token) : Prop := ∀ fuel more,
  24 * ts.length ≤ fuel + (4 + k) → Ends k more →
    chain fuel (operators.drop (4 + k)) (ts ++ more) = some (f, more)

/-- A formula may be the left operand of what comes next: the reader gets as far as knowing it. -/
def ReadsLeft (k : Nat) (f : Formula) (ts : List Token) : Prop := ∀ fuel more,
  24 * ts.length ≤ fuel + (4 + k) → Ends (k + 1) more → ∃ left, fuel ≤ left + ts.length ∧
    chain fuel (operators.drop (4 + k)) (ts ++ more) =
      chainFrom left (rung k) (operators.drop (5 + k)) f more

section
variable {l k fuel : Nat} {f g : Formula} {ts us more : List Token} {m : String} {op : Operator}
  {x : Fixity}

theorem unsigned (hne : ts ≠ []) (hm : ∀ m, front ts = some m → m = "(") :
    (front (ts ++ more)).bind (List.lookup · signs) = none := by
  rw [front_append hne]
  cases hf : front ts with
  | none => rfl
  | some m => rw [hm m hf]; rfl

theorem ReadsOperand.signed (h : ReadsOperand f ts) (hne : ts ≠ [])
    (hm : ∀ m, front ts = some m → m = "(") : ReadsSigned f ts := by
  intro fuel more hfuel hmore
  have := List.length_pos_iff.mpr hne
  obtain ⟨fuel, rfl⟩ : ∃ n, fuel = n + 1 := ⟨fuel - 1, by omega⟩
  rw [signed_succ, unsigned hne hm, h fuel more (by omega) (hmore.mono (by decide))]
  simp [hmore.not_power]

theorem ReadsSigned.chain (h : ReadsSigned f ts) (hne : ts ≠ []) : ReadsChain 2 f ts := by
  intro fuel more hfuel hmore
  have := List.length_pos_iff.mpr hne
  obtain ⟨fuel, rfl⟩ : ∃ n, fuel = n + 1 := ⟨fuel - 1, by omega⟩
  exact h fuel more (by omega) hmore

theorem ReadsChain.left (h : ReadsChain (k + 1) f ts) (hk : k < 2) (hne : ts ≠ []) :
    ReadsLeft k f ts := by
  intro fuel more hfuel hmore
  have := List.length_pos_iff.mpr hne
  obtain ⟨fuel, rfl⟩ : ∃ n, fuel = n + 1 := ⟨fuel - 1, by omega⟩
  refine ⟨fuel, by omega, ?_⟩
  have inner := h fuel more (by omega) hmore
  rw [show 4 + (k + 1) = 5 + k by omega] at inner
  rw [rung_eq hk, chain_cons, inner]
  rfl

theorem ReadsLeft.chain (h : ReadsLeft k f ts) (hk : k < 2) (hne : ts ≠ []) : ReadsChain k f ts := by
  intro fuel more hfuel hmore
  have := List.length_pos_iff.mpr hne
  obtain ⟨left, hleft, run⟩ := h fuel more hfuel (hmore.mono (by omega))
  obtain ⟨left, rfl⟩ : ∃ n, left = n + 1 := ⟨left - 1, by omega⟩
  rw [run, chainFrom_succ, hmore.rung hk]

theorem ReadsLeft.binary (hf : ReadsLeft k f ts) (hg : ReadsChain (k + 1) g us) (hk : k < 2)
    (hop : (rung k).lookup m = some op) (hm : ∀ more, Ends (k + 1) (.mark m :: more)) :
    ReadsLeft k (.binary op f g) (ts ++ .mark m :: us) := by
  intro fuel more hfuel hmore
  rw [List.length_append, List.length_cons] at hfuel
  obtain ⟨left, hleft, run⟩ := hf fuel (.mark m :: us ++ more) (by omega) (hm _)
  obtain ⟨left, rfl⟩ : ∃ n, left = n + 1 := ⟨left - 1, by omega⟩
  have right := hg left more (by omega) hmore
  rw [show 4 + (k + 1) = 5 + k by omega] at right
  refine ⟨left, by simp; omega, ?_⟩
  rw [List.append_assoc, run, chainFrom_succ]
  simp [front, hop, right]

theorem ReadsOperand.power (hf : ReadsOperand f ts) (hg : ReadsSigned g us) (hne : ts ≠ [])
    (hm : ∀ m, front ts = some m → m = "(") :
    ReadsSigned (.binary .power f g) (ts ++ .mark "**" :: us) := by
  intro fuel more hfuel hmore
  rw [List.length_append, List.length_cons] at hfuel
  obtain ⟨fuel, rfl⟩ : ∃ n, fuel = n + 1 := ⟨fuel - 1, by omega⟩
  have base := hf fuel (.mark "**" :: us ++ more) (by omega)
    (ends_symbol (show Operator.power.fixity? = some ⟨"**", 3, 4, 2⟩ from rfl) (by decide))
  rw [List.append_assoc, signed_succ, unsigned hne hm, base]
  simp [front, hg fuel more (by omega) hmore]

theorem ReadsSigned.sign {s : Sign} (h : ReadsSigned f ts) (hs : signs.lookup m = some s) :
    ReadsSigned (.unary s f) (.mark m :: ts) := by
  intro fuel more hfuel hmore
  rw [List.length_cons] at hfuel
  obtain ⟨fuel, rfl⟩ : ∃ n, fuel = n + 1 := ⟨fuel - 1, by omega⟩
  rw [List.cons_append, signed_succ]
  simp [front, hs, h fuel more (by omega) hmore]

/-- An operand of one word. -/
theorem readsOperand_one {t : Token} (ht : ∀ m, t ≠ .mark m)
    (h : ∀ fuel more, operand (fuel + 1) (t :: more) = some (f, more)) : ReadsOperand f [t] := by
  intro fuel more hfuel hmore
  obtain ⟨fuel, rfl⟩ : ∃ n, fuel = n + 3 := ⟨fuel - 3, by simp at hfuel; omega⟩
  have none : front ([t] ++ more) ≠ some "await" := by
    intro hf
    obtain ⟨_, same⟩ := front_eq_some.mp hf
    cases same
    exact ht _ rfl
  rw [awaited_run none (h _ more), trailers_run hmore.not_trailer]

theorem chain_pass {ops : List (String × Operator)} {tighter : List (List (String × Operator))}
    (h : chain (fuel + 1) tighter ts = some (f, more))
    (hn : (front more).bind (List.lookup · ops) = none) :
    chain (fuel + 2) (ops :: tighter) ts = some (f, more) := by
  rw [chain_cons, h, Option.bind_some, chainFrom_succ, hn]

/-- Four levels of operators are not for numbers. -/
theorem ReadsChain.all (h : ReadsChain 0 f ts) (hfuel : 24 * ts.length ≤ fuel + 5)
    (hmore : Ends 0 more) :
    Formula.chain (fuel + 5) operators (ts ++ more) = some (f, more) := by
  have none (ops : List (String × Operator)) (ho : ops.lookup ")" = Option.none) :
      (front more).bind (List.lookup · ops) = Option.none := by
    cases hm : front more with
    | none => rfl
    | some m => rw [hmore.of_zero hm]; exact ho
  have sums := h (fuel + 1) more (by omega) hmore
  exact chain_pass (chain_pass (chain_pass (chain_pass sums (none _ rfl)) (none _ rfl))
    (none _ rfl)) (none _ rfl)

theorem Words.not_assigned (h : Words l f ts) (hmore : Ends 0 more) (s : String)
    (rest : List Token) : ts ++ more ≠ .name s :: .mark ":=" :: rest := by
  intro same
  have hm : Token.mark ":=" ∈ ts ∨ front more = some ":=" := by
    rcases ts with _ | ⟨t, _ | ⟨u, ts⟩⟩
    · exact absurd rfl h.ne_nil
    · obtain ⟨-, rfl⟩ : t = .name s ∧ more = .mark ":=" :: rest := by simpa using same
      exact .inr rfl
    · obtain ⟨-, rfl, -⟩ : t = .name s ∧ u = .mark ":=" ∧ _ := by simpa using same
      exact .inl (by simp)
  rcases hm with hm | hm
  · exact absurd (h.mark_mem hm) (by decide)
  · exact absurd (hmore.of_zero hm) (by decide)

/-- Nothing but an operator or a bracket stands where a formula begins or ends. -/
theorem Words.front_ne (h : Words l f ts) (hm : m ∉ ["(", "+", "-"]) :
    front (ts ++ more) ≠ some m := by
  rw [front_append h.ne_nil]
  intro hf
  rcases h.front_mem hf with rfl | ⟨-, rfl | rfl⟩ <;> simp at hm

theorem ReadsChain.expression (h : ReadsChain 0 f ts) (hw : Words 0 f ts)
    (hfuel : 24 * ts.length + 3 ≤ fuel) (hmore : Ends 0 more) :
    Formula.expression fuel (ts ++ more) = some (f, more) := by
  have := List.length_pos_iff.mpr hw.ne_nil
  obtain ⟨fuel, rfl⟩ : ∃ n, fuel = n + 8 := ⟨fuel - 8, by omega⟩
  have closed {m : String} (hm : m ≠ ")") : front more ≠ some m :=
    fun hf => hm (hmore.of_zero hf)
  have noJoin : (front more).any ["and", "or"].contains = false := by
    cases hm : front more with
    | none => rfl
    | some m => rw [hmore.of_zero hm]; rfl
  refine expression_run (hw.front_ne (by decide)) (closed (by decide)) ?_
  refine alternative_run ?_ noJoin
  exact negation_run (hw.front_ne (by decide)) (fun m hm => hmore.of_zero hm)
    (h.all (by omega) hmore)

theorem ReadsChain.group (h : ReadsChain 0 f ts) (hw : Words 0 f ts) :
    ReadsOperand f (.mark "(" :: ts ++ [.mark ")"]) := by
  intro fuel more hfuel hmore
  simp only [List.length_append, List.length_cons, List.length_nil] at hfuel
  obtain ⟨fuel, rfl⟩ : ∃ n, fuel = n + 5 := ⟨fuel - 5, by omega⟩
  have inner : Formula.expression fuel (ts ++ .mark ")" :: more) = some (f, .mark ")" :: more) :=
    h.expression hw (by omega) ends_close
  have read : Formula.operand (fuel + 4) (.mark "(" :: (ts ++ .mark ")" :: more)) =
      some (f, more) := by
    rw [operand_group]
    refine group_run (hw.front_ne (by decide)) (hw.front_ne (by decide)) ?_
    refine starred_run (hw.front_ne (by decide)) ?_
    exact named_run (hw.not_assigned ends_close) inner
  have first : front (.mark "(" :: (ts ++ .mark ")" :: more)) ≠ some "await" := by simp [front]
  simpa using (awaited_run first read).trans (trailers_run hmore.not_trailer)

/-- A formula is read where an operand of its level is asked for. -/
def Reads : Nat → Formula → List Token → Prop
  | 0, f, ts => ReadsLeft 0 f ts
  | 1, f, ts => ReadsLeft 1 f ts
  | 2, f, ts => ReadsSigned f ts
  | 3, f, ts => ReadsSigned f ts
  | _, f, ts => ReadsOperand f ts

theorem reads_iff_left (hk : k < 2) : Reads k f ts ↔ ReadsLeft k f ts := by
  obtain rfl | rfl : k = 0 ∨ k = 1 := by omega
  · rfl
  · rfl

theorem Reads.lower (h : Reads k f ts) (hne : ts ≠ [])
    (hm : 3 < k → ∀ m, front ts = some m → m = "(") (hl : l ≤ k) : Reads l f ts := by
  have signed (hk : 2 ≤ k) : ReadsSigned f ts := by
    rcases k with _ | _ | _ | _ | k
    · omega
    · omega
    · exact h
    · exact h
    · exact ReadsOperand.signed h hne (hm (by omega))
  have products (hk : 1 ≤ k) : ReadsLeft 1 f ts := by
    rcases k with _ | _ | k
    · omega
    · exact h
    · exact ((signed (by omega)).chain hne).left (by decide) hne
  have sums : ReadsLeft 0 f ts := by
    rcases k with _ | k
    · exact h
    · exact ((products (by omega)).chain (by decide) hne).left (by decide) hne
  rcases l with _ | _ | _ | _ | l
  · exact sums
  · exact products hl
  · exact signed hl
  · exact signed (by omega)
  · obtain ⟨k, rfl⟩ : ∃ n, k = n + 4 := ⟨k - 4, by omega⟩
    exact h

theorem ReadsOperand.reads (h : ReadsOperand f ts) (hne : ts ≠ [])
    (hm : ∀ m, front ts = some m → m = "(") : Reads l f ts :=
  Reads.lower (k := l + 4) h hne (fun _ => hm) (by omega)

theorem Reads.chain (h : Reads k f ts) (hk : k ≤ 2) (hne : ts ≠ []) : ReadsChain k f ts := by
  obtain rfl | rfl | rfl : k = 0 ∨ k = 1 ∨ k = 2 := by omega
  · exact ReadsLeft.chain h (by decide) hne
  · exact ReadsLeft.chain h (by decide) hne
  · exact ReadsSigned.chain h hne

/-- Operators of a rung group to the left. -/
theorem fixity_rung (hop : op.fixity? = some x) (hx : x.own < 2) : x.left = x.own ∧
    x.right = x.own + 1 ∧ (rung x.own).lookup x.symbol = some op := by
  cases op <;> cases hop <;> first | exact ⟨rfl, rfl, rfl⟩ | exact absurd hx (by decide)

/-- The only other one is the power. -/
theorem fixity_power (hop : op.fixity? = some x) (hx : ¬ x.own < 2) :
    op = .power ∧ x = ⟨"**", 3, 4, 2⟩ := by
  cases op <;> cases hop <;> first | exact ⟨rfl, rfl⟩ | exact absurd (by decide) hx

/-- What is written is read. -/
theorem Words.reads (h : Words l f ts) : Reads l f ts := by
  induction h with
  | int n => exact (readsOperand_one (by simp) fun _ _ => operand_int n).reads (by simp) nofun
  | real x => exact (readsOperand_one (by simp) fun _ _ => operand_real x).reads (by simp) nofun
  | name s => exact (readsOperand_one (by simp) fun _ _ => operand_name s).reads (by simp) nofun
  | @sign l s m f ts hs level inner ih =>
    have known : signs.lookup m = some s := by cases s <;> cases hs <;> rfl
    exact Reads.lower (k := 2) (ReadsSigned.sign ih known) (by simp) (by omega) level
  | @binary l op x f g ts us hop level left right ihf ihg =>
    by_cases hx : x.own < 2
    · obtain ⟨hl, hr, known⟩ := fixity_rung hop hx
      rw [hl] at ihf
      rw [hr] at ihg
      have node := ((reads_iff_left hx).mp ihf).binary (ihg.chain (by omega) right.ne_nil) hx known
        fun more => ends_symbol hop (Nat.lt_succ_self _)
      exact Reads.lower ((reads_iff_left hx).mpr node) (by simp) (by omega) level
    · obtain ⟨rfl, rfl⟩ := fixity_power hop hx
      have node := ReadsOperand.power ihf ihg left.ne_nil fun m hm =>
        (left.front_mem hm).resolve_right (by simp)
      exact Reads.lower (k := 3) node (by simp) (by omega) level
  | @group l f ts inner ih =>
    refine ((Reads.chain ih (by decide) inner.ne_nil).group inner).reads (by simp) ?_
    intro m hm
    cases hm
    rfl

end

/-! ### Writing what is read

Whatever is read as arithmetic has the words of it, so all other words lead to something else or to
nothing. -/

/-- What is read as arithmetic is an operand of the level. -/
def Takes (l : Nat) (x : Reading Formula) : Prop := ∀ ts f more, x ts = some (f, more) →
  f.IsArithmetic → ∃ us, ts = us ++ more ∧ Words l f us

/-- With so much fuel only words of arithmetic are read as it. -/
structure Sound (fuel : Nat) : Prop where
  awaited : Takes 4 (awaited fuel)
  signed : Takes 2 (signed fuel)
  chain : ∀ j ≤ 6, Takes (j - 4) (chain fuel (operators.drop j))
  chainFrom : ∀ j < 6, ∀ ts left f more,
    chainFrom fuel (operators.getD j []) (operators.drop (j + 1)) left ts = some (f, more) →
      f.IsArithmetic → left.IsArithmetic ∧ ∀ before, Words (j - 4) left before →
        ∃ us, ts = us ++ more ∧ Words (j - 4) f (before ++ us)

section
variable {l k fuel : Nat} {f g : Formula} {ts us more : List Token} {m : String} {op : Operator}
  {x : Fixity}

theorem Words.mono (h : Words k f ts) (hl : l ≤ k) : Words l f ts := by
  cases h with
  | int n => exact .int n
  | real x => exact .real x
  | name s => exact .name s
  | sign hs level operand => exact .sign hs (Nat.le_trans hl level) operand
  | binary hop level left right => exact .binary hop (Nat.le_trans hl level) left right
  | group inner => exact .group inner

theorem expression_chain (h : expression fuel ts = some (f, more)) (hf : f.IsArithmetic) :
    ∃ n ≤ fuel, chain n operators ts = some (f, more) := by
  rcases fuel with _ | fuel
  · cases h
  replace h := expression_inv h hf
  rcases fuel with _ | fuel
  · cases h
  replace h := alternative_inv h hf
  rcases fuel with _ | fuel
  · cases h
  exact ⟨fuel, by omega, negation_inv h hf⟩

/-- What stands in brackets was read with less fuel. -/
theorem group_chain (h : group fuel ts = some (f, more)) (hf : f.IsArithmetic) :
    ∃ n ≤ fuel, chain n operators ts = some (f, .mark ")" :: more) := by
  rcases fuel with _ | fuel
  · cases h
  replace h := group_inv h hf
  rcases fuel with _ | fuel
  · cases h
  replace h := starred_inv h
  rcases fuel with _ | fuel
  · cases h
  obtain ⟨n, hn, run⟩ := expression_chain (named_inv h hf) hf
  exact ⟨n, by omega, run⟩

theorem Sound.awaited_succ (h : ∀ n ≤ fuel, Sound n) : Takes 4 (Formula.awaited (fuel + 1)) := by
  intro ts f more run hf
  obtain ⟨g, mid, run, after⟩ := awaited_inv run hf
  obtain ⟨rfl, rfl⟩ := trailers_inv after hf
  rcases fuel with _ | fuel
  · cases run
  rcases operand_inv run hf with ⟨n, rfl, rfl⟩ | ⟨x, rfl, rfl⟩ | ⟨s, rfl, rfl⟩ | ⟨us, rfl, run⟩
  · exact ⟨_, rfl, .int n⟩
  · exact ⟨_, rfl, .real x⟩
  · exact ⟨_, rfl, .name s⟩
  · obtain ⟨n, hn, run⟩ := group_chain run hf
    obtain ⟨us, rfl, words⟩ := (h n (by omega)).chain 0 (by decide) _ _ _ run hf
    exact ⟨.mark "(" :: us ++ [.mark ")"], by simp, .group words⟩

theorem mem_of_lookup {β : Type} {es : List (String × β)} {b : β} (h : es.lookup m = some b) :
    (m, b) ∈ es := by
  obtain ⟨before, after, rfl, -⟩ := List.lookup_eq_some_iff.mp h
  simp

theorem signs_symbol {s : Sign} (h : signs.lookup m = some s) (hs : s ≠ .other) :
    s.symbol? = some m := by
  have all : ∀ e ∈ signs, e.2 ≠ .other → e.2.symbol? = some e.1 := by decide
  exact all _ (mem_of_lookup h) hs

/-- An operator of arithmetic stands on its rung. -/
theorem operators_fixity {j : Nat} (hj : j < 6) (h : (operators.getD j []).lookup m = some op)
    (hop : op ≠ .other) :
    4 ≤ j ∧ op.fixity? = some ⟨m, j - 4, j - 4, j + 1 - 4⟩ := by
  have all : ∀ j < 6, ∀ e ∈ operators.getD j [], e.2 ≠ .other →
      4 ≤ j ∧ e.2.fixity? = some ⟨e.1, j - 4, j - 4, j + 1 - 4⟩ := by decide
  exact all j hj _ (mem_of_lookup h) hop

theorem Sound.signed_succ (h : Sound fuel) : Takes 2 (Formula.signed (fuel + 1)) := by
  intro ts f more run hf
  rw [Formula.signed_succ] at run
  cases known : (front ts).bind (List.lookup · signs) with
  | some s =>
    rw [known] at run
    obtain ⟨m, hm, lookup⟩ := Option.bind_eq_some_iff.mp known
    obtain ⟨us, rfl⟩ := front_eq_some.mp hm
    obtain ⟨p, inner, same⟩ := Option.bind_eq_some_iff.mp run
    cases same
    obtain ⟨ws, rest, words⟩ := h.signed _ _ _ inner hf.2
    exact ⟨.mark m :: ws, by simpa using rest, .sign (signs_symbol lookup hf.1) (by decide) words⟩
  | none =>
    rw [known] at run
    obtain ⟨⟨g, mid⟩, base, after⟩ := Option.bind_eq_some_iff.mp run
    split at after
    case isTrue hm =>
      obtain ⟨us, hus⟩ := front_eq_some.mp hm
      obtain ⟨q, exponent, same⟩ := Option.bind_eq_some_iff.mp after
      cases same
      subst hus
      obtain ⟨vs, rfl, left⟩ := h.awaited _ _ _ base hf.2.1
      obtain ⟨ws, rest, right⟩ := h.signed _ _ _ exponent hf.2.2
      refine ⟨vs ++ .mark "**" :: ws, by simpa using rest, ?_⟩
      exact .binary (show Operator.power.fixity? = some ⟨"**", 3, 4, 2⟩ from rfl) (by decide) left right
    case isFalse =>
      cases after
      obtain ⟨us, rest, words⟩ := h.awaited _ _ _ base hf
      exact ⟨us, rest, words.mono (by decide)⟩

theorem Sound.chain_succ (h : Sound fuel) (j : Nat) (hj : j ≤ 6) :
    Takes (j - 4) (Formula.chain (fuel + 1) (operators.drop j)) := by
  obtain rfl | hj : j = 6 ∨ j < 6 := by omega
  · exact h.signed
  intro ts f more run hf
  rw [drop_operators hj, chain_cons] at run
  obtain ⟨⟨left, mid⟩, first, after⟩ := Option.bind_eq_some_iff.mp run
  obtain ⟨plain, rest⟩ := h.chainFrom j hj _ _ _ _ after hf
  obtain ⟨us, rfl, words⟩ := h.chain (j + 1) hj _ _ _ first plain
  obtain ⟨vs, hvs, words⟩ := rest us (words.mono (by omega))
  exact ⟨us ++ vs, by simpa using hvs, words⟩

theorem Sound.chainFrom_succ (h : Sound fuel) (j : Nat) (hj : j < 6) (ts : List Token)
    (left f : Formula) (more : List Token) (run : Formula.chainFrom (fuel + 1)
      (operators.getD j []) (operators.drop (j + 1)) left ts = some (f, more))
    (hf : f.IsArithmetic) : left.IsArithmetic ∧ ∀ before, Words (j - 4) left before →
      ∃ us, ts = us ++ more ∧ Words (j - 4) f (before ++ us) := by
  rw [Formula.chainFrom_succ] at run
  cases known : (front ts).bind (List.lookup · (operators.getD j [])) with
  | none =>
    rw [known] at run
    cases run
    exact ⟨hf, fun before words => ⟨[], rfl, by simpa using words⟩⟩
  | some op =>
    rw [known] at run
    obtain ⟨m, hm, lookup⟩ := Option.bind_eq_some_iff.mp known
    obtain ⟨us, rfl⟩ := front_eq_some.mp hm
    obtain ⟨⟨g, mid⟩, inner, after⟩ := Option.bind_eq_some_iff.mp run
    obtain ⟨⟨hop, plain, hg⟩, rest⟩ := h.chainFrom j hj _ _ _ _ after hf
    refine ⟨plain, fun before words => ?_⟩
    obtain ⟨low, fixity⟩ := operators_fixity hj lookup hop
    obtain ⟨vs, hvs, right⟩ := h.chain (j + 1) hj _ _ _ inner hg
    obtain ⟨ws, rfl, words⟩ := rest _ (.binary fixity (Nat.le_refl _) words right)
    exact ⟨.mark m :: vs ++ ws, by simpa using hvs, by simpa using words⟩

theorem sound (fuel : Nat) : Sound fuel := by
  induction fuel using Nat.strongRecOn with
  | ind fuel ih =>
    rcases fuel with _ | fuel
    · exact ⟨(fun _ _ _ h => nomatch h), (fun _ _ _ h => nomatch h),
        (fun _ _ _ _ _ h => nomatch h), (fun _ _ _ _ _ _ h => nomatch h)⟩
    · have one := ih fuel (Nat.lt_succ_self fuel)
      exact ⟨Sound.awaited_succ fun n hn => ih n (by omega), one.signed_succ, one.chain_succ,
        one.chainFrom_succ⟩

theorem Words.isArithmetic (h : Words l f ts) : f.IsArithmetic := by
  induction h with
  | int | real | name => exact trivial
  | sign hs _ _ ih =>
    refine ⟨?_, ih⟩
    rintro rfl
    cases hs
  | binary hop _ _ _ ihf ihg =>
    refine ⟨?_, ihf, ihg⟩
    rintro rfl
    cases hop
  | group _ ih => exact ih

theorem Words.not_indent (h : Words l f ts) (us : List Token) : ts ++ more ≠ .indent :: us := by
  induction h generalizing more us with
  | binary _ _ _ _ ihf _ => simpa using ihf us
  | _ => simp

theorem dropNewlines_front (h : dropNewlines more = []) : front more = none := by
  rcases more with _ | ⟨t, more⟩
  · rfl
  · cases t <;> first | rfl | cases h

/-- Arithmetic is read from its words and from nothing else. Empty lines may follow them. -/
theorem read_iff {s : String} (hf : f.IsArithmetic) : read s = .ok f ↔
    ∃ ts more, tokens s = ts ++ more ∧ dropNewlines more = [] ∧ Words 0 f ts := by
  constructor
  · intro h
    unfold read at h
    split at h
    · cases h
    split at h
    · cases h
    case h_2 g rest run =>
      split at h
      · cases h
        obtain ⟨n, -, run⟩ := expression_chain (whole_inv run hf) hf
        obtain ⟨us, split, words⟩ := (sound n).chain 0 (by decide) _ _ _ run hf
        exact ⟨us, rest, split, ‹_›, words⟩
      · cases h
      · cases h
  · rintro ⟨ts, more, split, ends, words⟩
    have closed := dropNewlines_front ends
    have run : whole (levels * ((tokens s).length + 1)) (tokens s) = some (f, more) := by
      rw [split]
      refine whole_run ?_ (by simp [closed])
      refine ReadsChain.expression (Reads.chain words.reads (by decide) words.ne_nil) words ?_ ?_
      · simp [levels]
        omega
      · intro m hm
        rw [closed] at hm
        cases hm
    unfold read
    split
    case h_1 us same => exact absurd (split.symm.trans same) (words.not_indent us)
    case h_2 => simp only [run, ends]

end

end Formula

end MixedInteger
