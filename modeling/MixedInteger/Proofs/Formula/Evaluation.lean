import Mathlib.Data.Rat.Floor
import MixedInteger.Formula.Evaluation
import MixedInteger.Proofs.Steps

/-! What a formula evaluates to, as a relation. It knows the numbers around a formula by what they
are called and by nothing else, so neither their order nor data that are no numbers have a part in
it. Where no text is the key of two entries the evaluator computes this relation. A value stops
being real only at a power of a negative number whose exponent is not whole, and trees of integers
have integer values. -/

namespace MixedInteger

/-- No text is the key of two entries. -/
def DistinctKeys (names : Names) : Prop :=
  names.Pairwise fun a b => ∀ s, a.1 = .text s → b.1 ≠ .text s

/-- An entry is found under its key. -/
theorem DistinctKeys.find?_iff {names : Names} (h : DistinctKeys names) {s : String}
    {v : Value Float} : Value.find? s names = some v ↔ (.text s, v) ∈ names := by
  induction names with
  | nil => simp [Value.find?]
  | cons e names ih =>
    obtain ⟨key, w⟩ := e
    obtain ⟨apart, rest⟩ := List.pairwise_cons.mp h
    by_cases hk : key = .text s
    · subst hk
      have others : (.text s, v) ∉ names := fun mem => apart _ mem s rfl rfl
      simp [Value.find?, others, eq_comm]
    · have passes : Value.find? s ((key, w) :: names) = Value.find? s names := by
        cases key
        case text t =>
          have : t ≠ s := fun e => hk (e ▸ rfl)
          simp [Value.find?, this]
        all_goals rfl
      rw [passes, ih rest]
      simp [Ne.symm hk]

namespace Quantity

/-- The number that data are. -/
def ofValue? : Value Float → Option Quantity
  | .int i => some (.int i)
  | .real x => some (.real x)
  | _ => none

def IsReal : Quantity → Prop
  | complex _ => False
  | _ => True

def double? : Quantity → Option Float
  | int i => doubleOfInt? i
  | real x => some x
  | complex _ => none

end Quantity

open Quantity

namespace Formula

inductive Evaluates (names : Names) : Formula → Quantity → Prop
  | int (n : Nat) : Evaluates names (.int n) (.int n)
  | real (x : Float) : Evaluates names (.real x) (.real x)
  | name {s : String} {v : Value Float} {q : Quantity} (mem : (.text s, v) ∈ names)
      (number : ofValue? v = some q) : Evaluates names (.name s) q
  | unary {s : Sign} {f : Formula} {apply : Quantity → Quantity} {q : Quantity}
      (sign : signed? s = some apply) (operand : Evaluates names f q) :
      Evaluates names (.unary s f) (apply q)
  | binary {op : Operator} {l r : Formula} {f : Arithmetic} {a b c : Quantity}
      (operation : operation? op = some f) (left : Evaluates names l a)
      (right : Evaluates names r b) (result : f.apply a b = .ok c) :
      Evaluates names (.binary op l r) c

theorem Evaluates.mono {names others : Names}
    (h : ∀ e ∈ names, (ofValue? e.2).isSome → e ∈ others) {f : Formula} {q : Quantity}
    (hf : Evaluates names f q) : Evaluates others f q := by
  induction hf with
  | int n => exact .int n
  | real x => exact .real x
  | name mem number => exact .name (h _ mem (by simp [number])) number
  | unary sign _ ih => exact .unary sign ih
  | binary operation _ _ result ihl ihr => exact .binary operation ihl ihr result

theorem valueOf_ok {names : Names} {s : String} {q : Quantity} :
    valueOf names s = .ok q ↔ ∃ v, Value.find? s names = some v ∧ ofValue? v = some q := by
  unfold valueOf
  cases Value.find? s names with
  | none => simp
  | some v => cases v <;> simp [ofValue?]

theorem evaluate_unary {names : Names} {s : Sign} {f : Formula} {q : Quantity} :
    evaluate names (.unary s f) = .ok q ↔
      ∃ apply a, signed? s = some apply ∧ f.evaluate names = .ok a ∧ apply a = q := by
  rw [evaluate]
  cases signed? s with
  | none => simp
  | some apply => simp [except_map_eq_ok]

theorem mapError_eq_ok {ε ε' β : Type} {x : Except ε β} {f : ε → ε'} {b : β} :
    x.mapError f = .ok b ↔ x = .ok b := by
  cases x <;> simp [Except.mapError]

theorem evaluate_binary {names : Names} {op : Operator} {l r : Formula} {q : Quantity} :
    evaluate names (.binary op l r) = .ok q ↔ ∃ f a b, operation? op = some f ∧
      l.evaluate names = .ok a ∧ r.evaluate names = .ok b ∧ f.apply a b = .ok q := by
  rw [evaluate]
  cases operation? op with
  | none => simp
  | some f => simp [except_bind_eq_ok, mapError_eq_ok]

/-- The evaluator computes the relation. -/
theorem evaluate_iff {names : Names} (h : DistinctKeys names) {f : Formula} {q : Quantity} :
    f.evaluate names = .ok q ↔ Evaluates names f q := by
  constructor
  · intro he
    induction f generalizing q with
    | int n => cases he; exact .int n
    | real x => cases he; exact .real x
    | name s =>
      obtain ⟨v, found, number⟩ := valueOf_ok.mp he
      exact .name (h.find?_iff.mp found) number
    | unary s f ih =>
      obtain ⟨apply, a, sign, ha, rfl⟩ := evaluate_unary.mp he
      exact .unary sign (ih ha)
    | binary op l r ihl ihr =>
      obtain ⟨f, a, b, operation, ha, hb, result⟩ := evaluate_binary.mp he
      exact .binary operation (ihl ha) (ihr hb) result
    | constant | other => cases he
  · intro he
    induction he with
    | int | real => rfl
    | name mem number => exact valueOf_ok.mpr ⟨_, h.find?_iff.mpr mem, number⟩
    | unary sign _ ih => exact evaluate_unary.mpr ⟨_, _, sign, ih, rfl⟩
    | binary operation _ _ result ihl ihr =>
      exact evaluate_binary.mpr ⟨_, _, _, operation, ihl, ihr, result⟩

/-! ### Complex values -/

/-- The formula and all that it is made of. -/
def subformulas : Formula → List Formula
  | unary s f => unary s f :: f.subformulas
  | binary op l r => binary op l r :: (l.subformulas ++ r.subformulas)
  | f => [f]

/-- Somewhere a negative number is raised to a power that is not whole. -/
def LeavesReals (names : Names) (f : Formula) : Prop :=
  ∃ l r a b x y, binary .power l r ∈ f.subformulas ∧ Evaluates names l a ∧ Evaluates names r b ∧
    a.double? = some x ∧ b.double? = some y ∧ x < 0 ∧ isWhole y = false

theorem LeavesReals.of_sub {names : Names} {f g : Formula} (h : f.LeavesReals names)
    (sub : ∀ e ∈ f.subformulas, e ∈ g.subformulas) : g.LeavesReals names := by
  obtain ⟨l, r, a, b, x, y, mem, rest⟩ := h
  exact ⟨l, r, a, b, x, y, sub _ mem, rest⟩

end Formula

namespace Quantity

theorem realOfInt_ok {i : Int} {x : Float} : realOfInt i = .ok x ↔ doubleOfInt? i = some x := by
  unfold realOfInt
  cases doubleOfInt? i <;> simp

theorem isReal_orFail {β γ : Type} {kind : γ → Quantity} {f : β → β → Result γ} {x y : β}
    {c : Quantity} (h : orFail kind f x y = .ok c) (hk : ∀ g, (kind g).IsReal) : c.IsReal := by
  obtain ⟨g, -, rfl⟩ := except_map_eq_ok.mp h
  exact hk g

/-- On real numbers the power alone leaves them. -/
theorem isReal_power {x y : Float} {c : Quantity} (h : power x y = .ok c) :
    c.IsReal ∨ x < 0 ∧ isWhole y = false := by
  unfold power at h
  split at h
  · exact .inr (by simp_all)
  · exact .inl (isReal_orFail h fun _ => trivial)

theorem isReal_powerInt {i j : Int} {c : Quantity} (h : powerInt i j = .ok c) : c.IsReal ∨
    ∃ x y, doubleOfInt? i = some x ∧ doubleOfInt? j = some y ∧ x < 0 ∧ isWhole y = false := by
  unfold powerInt at h
  split at h
  · cases h; exact .inl trivial
  · obtain ⟨x, hx, h⟩ := except_bind_eq_ok.mp h
    obtain ⟨y, hy, h⟩ := except_bind_eq_ok.mp h
    rcases isReal_power h with h | h
    · exact .inl h
    · exact .inr ⟨x, y, realOfInt_ok.mp hx, realOfInt_ok.mp hy, h⟩

/-- What an operation makes of real numbers is real. -/
structure Arithmetic.KeepsReals (f : Arithmetic) : Prop where
  onInt : ∀ i j c, f.onInt i j = .ok c → c.IsReal
  onReal : ∀ x y c, f.onReal x y = .ok c → c.IsReal

theorem keepsReals_total (onInt : Int → Int → Int) (onReal : Float → Float → Float)
    (onComplex : DoublePair → DoublePair → DoublePair) :
    (Arithmetic.total onInt onReal onComplex).KeepsReals where
  onInt _ _ _ h := by cases h; trivial
  onReal _ _ _ h := by cases h; trivial

theorem keepsReals_of_operation {op : Operator} {f : Arithmetic} (hf : operation? op = some f)
    (hop : op ≠ .power) : f.KeepsReals := by
  cases op
  case add | subtract | multiply => cases hf; exact keepsReals_total _ _ _
  case divide | floorDivide | modulo =>
    cases hf
    exact ⟨fun _ _ _ h => isReal_orFail h fun _ => trivial,
      fun _ _ _ h => isReal_orFail h fun _ => trivial⟩
  case power => exact absurd rfl hop
  case other => cases hf

theorem Arithmetic.KeepsReals.apply {f : Arithmetic} (hf : f.KeepsReals) {a b c : Quantity}
    (ha : a.IsReal) (hb : b.IsReal) (h : f.apply a b = .ok c) : c.IsReal := by
  cases a <;> cases b
  case int.int i j => exact hf.onInt _ _ _ h
  case int.real i y => obtain ⟨x, -, h⟩ := except_bind_eq_ok.mp h; exact hf.onReal _ _ _ h
  case real.int x j => obtain ⟨y, -, h⟩ := except_bind_eq_ok.mp h; exact hf.onReal _ _ _ h
  case real.real x y => exact hf.onReal _ _ _ h
  all_goals first | exact absurd ha id | exact absurd hb id

theorem isReal_power_apply {f : Arithmetic} (hf : operation? .power = some f) {a b c : Quantity}
    (ha : a.IsReal) (hb : b.IsReal) (h : f.apply a b = .ok c) : c.IsReal ∨
      ∃ x y, a.double? = some x ∧ b.double? = some y ∧ x < 0 ∧ isWhole y = false := by
  cases hf
  have onReal {x y : Float} (hx : a.double? = some x) (hy : b.double? = some y)
      (h : power x y = .ok c) : c.IsReal ∨
        ∃ x y, a.double? = some x ∧ b.double? = some y ∧ x < 0 ∧ isWhole y = false :=
    (isReal_power h).imp_right fun h => ⟨x, y, hx, hy, h⟩
  cases a <;> cases b
  case int.int i j => exact isReal_powerInt h
  case int.real i y =>
    obtain ⟨x, hx, h⟩ := except_bind_eq_ok.mp h
    exact onReal (realOfInt_ok.mp hx) rfl h
  case real.int x j =>
    obtain ⟨y, hy, h⟩ := except_bind_eq_ok.mp h
    exact onReal rfl (realOfInt_ok.mp hy) h
  case real.real x y => exact onReal rfl rfl h
  all_goals first | exact absurd ha id | exact absurd hb id

theorem isReal_of_ofValue? {v : Value Float} {q : Quantity} (h : ofValue? v = some q) : q.IsReal := by
  cases v <;> simp only [ofValue?, Option.some.injEq, reduceCtorEq] at h
  all_goals subst h; trivial

theorem isReal_signed {s : Sign} {apply : Quantity → Quantity} (hs : signed? s = some apply)
    {q : Quantity} (h : q.IsReal) : (apply q).IsReal := by
  cases s <;> cases hs
  case plus => exact h
  case minus => cases q <;> exact h

end Quantity

namespace Formula

variable {names : Names}

/-- A value is an integer or a double unless the formula leaves the real numbers. -/
theorem Evaluates.isReal {f : Formula} {q : Quantity} (h : Evaluates names f q) :
    q.IsReal ∨ f.LeavesReals names := by
  induction h with
  | int n => exact .inl trivial
  | real x => exact .inl trivial
  | name mem number => exact .inl (isReal_of_ofValue? number)
  | unary sign operand ih =>
    rcases ih with ih | ih
    · exact .inl (isReal_signed sign ih)
    · exact .inr (ih.of_sub fun e he => List.mem_cons_of_mem _ he)
  | @binary op l r f a b c operation left right result ihl ihr =>
    rcases ihl with ha | ihl
    case inr => exact .inr (ihl.of_sub fun e he => by simp [subformulas, he])
    rcases ihr with hb | ihr
    case inr => exact .inr (ihr.of_sub fun e he => by simp [subformulas, he])
    by_cases hop : op = .power
    · subst hop
      rcases isReal_power_apply operation ha hb result with h | ⟨x, y, hx, hy, h⟩
      · exact .inl h
      · exact .inr ⟨l, r, a, b, x, y, by simp [subformulas], left, right, hx, hy, h⟩
    · exact .inl ((keepsReals_of_operation operation hop).apply ha hb result)

end Formula

/-! ### Operations on complex numbers that are refused -/

namespace Quantity

/-- Ends otherwise than by asking a number that is not real for what only real numbers have. -/
def Fits {β : Type} (r : Result β) : Prop := r ≠ .error .notReal

section Fits
variable {β γ : Type}

theorem fits_ok (b : β) : Fits (.ok b : Result β) := nofun

theorem fits_zeroDivision : Fits (.error .zeroDivision : Result β) := nofun

theorem fits_overflow : Fits (.error .overflow : Result β) := nofun

theorem Fits.bind {r : Result β} {f : β → Result γ} (h : Fits r) (hf : ∀ b, Fits (f b)) :
    Fits (r >>= f) := by
  cases r with
  | error e => exact fun he => h (by cases he; rfl)
  | ok b => exact hf b

theorem Fits.map {r : Result β} {f : β → γ} (h : Fits r) : Fits (r.map f) := by
  cases r with
  | error e => exact fun he => h (by cases he; rfl)
  | ok b => exact fits_ok _

theorem Fits.ite {c : Prop} [Decidable c] {r t : Result β} (hr : Fits r) (ht : Fits t) :
    Fits (if c then r else t) := by
  split
  · exact hr
  · exact ht

end Fits

theorem fits_realOfInt (i : Int) : Fits (realOfInt i) := by
  unfold realOfInt
  cases doubleOfInt? i
  · exact fits_overflow
  · exact fits_ok _

theorem fits_divide (a b : DoublePair) : Fits (DoublePair.divide a b) :=
  .ite (.ite fits_zeroDivision (fits_ok _)) (.ite (fits_ok _) (fits_ok _))

theorem fits_powerWhole (a : DoublePair) (i : Int) : Fits (a.powerWhole i) :=
  .ite (fits_ok _) (fits_divide _ _)

theorem fits_powerPolar (a b : DoublePair) : Fits (a.powerPolar b) :=
  .ite (fits_ok _) (.ite (.ite fits_zeroDivision (fits_ok _)) (.ite fits_zeroDivision (fits_ok _)))

theorem fits_pairPower (a b : DoublePair) : Fits (a.power b) := by
  have finite (z : DoublePair) :
      Fits (if (z.re.isInf || z.im.isInf) = true then .error .overflow else .ok z) :=
    .ite fits_overflow (fits_ok z)
  exact .ite ((fits_powerWhole _ _).bind finite) ((fits_powerPolar _ _).bind finite)

theorem fits_powerReal (x y : Float) : Fits (powerReal x y) :=
  .ite (fits_ok _) (.ite (fits_ok _) (.ite (fits_ok _) (.ite (fits_ok _) (.ite (fits_ok _)
    (.ite (.ite fits_zeroDivision (fits_ok _)) (.ite fits_overflow (fits_ok _)))))))

theorem fits_power (x y : Float) : Fits (power x y) :=
  .ite (fits_pairPower _ _).map (fits_powerReal _ _).map

theorem fits_powerInt (i j : Int) : Fits (powerInt i j) := by
  unfold powerInt
  split
  · exact fits_ok _
  · exact (fits_realOfInt i).bind fun x => (fits_realOfInt j).bind fun y => fits_power x y

structure Arithmetic.FitsReals (f : Arithmetic) : Prop where
  onInt : ∀ i j, Fits (f.onInt i j)
  onReal : ∀ x y, Fits (f.onReal x y)

theorem fitsReals_of_operation {op : Operator} {f : Arithmetic} (hf : operation? op = some f) :
    f.FitsReals := by
  have divideInt (i j : Int) : Fits (divideInt i j) :=
    .ite fits_zeroDivision (.ite fits_overflow (fits_ok _))
  have floorDivReal (x y : Float) : Fits (floorDivReal x y) :=
    .ite fits_zeroDivision (.ite (fits_ok _) (fits_ok _))
  have modReal (x y : Float) : Fits (modReal x y) :=
    .ite fits_zeroDivision (.ite (fits_ok _) (.ite (fits_ok _) (fits_ok _)))
  have unlessZero (g : Int → Int → Int) (i j : Int) : Fits (unlessZero g i j) :=
    .ite fits_zeroDivision (fits_ok _)
  cases op
  case add | subtract | multiply => cases hf; exact ⟨fun _ _ => fits_ok _, fun _ _ => fits_ok _⟩
  case divide =>
    cases hf
    exact ⟨fun i j => (divideInt i j).map, fun _ _ => (Fits.ite fits_zeroDivision (fits_ok _)).map⟩
  case floorDivide =>
    cases hf
    exact ⟨fun i j => (unlessZero _ i j).map, fun x y => (floorDivReal x y).map⟩
  case modulo =>
    cases hf
    exact ⟨fun i j => (unlessZero _ i j).map, fun x y => (modReal x y).map⟩
  case power => cases hf; exact ⟨fits_powerInt, fits_power⟩
  case other => cases hf

theorem Arithmetic.FitsReals.apply {f : Arithmetic} (hf : f.FitsReals) {a b : Quantity}
    (ha : a.IsReal) (hb : b.IsReal) : Fits (f.apply a b) := by
  cases a <;> cases b
  case int.int i j => exact hf.onInt _ _
  case int.real i y => exact (fits_realOfInt i).bind fun x => hf.onReal x y
  case real.int x j => exact (fits_realOfInt j).bind fun y => hf.onReal x y
  case real.real x y => exact hf.onReal _ _
  all_goals first | exact absurd ha id | exact absurd hb id

end Quantity

namespace Formula

/-- Only a formula that leaves the real numbers asks them for too much. -/
theorem leavesReals_of_notReal {names : Names} (hd : DistinctKeys names) {f : Formula}
    (h : f.evaluate names = .error (.arithmetic .notReal)) : f.LeavesReals names := by
  induction f with
  | int | real | constant | other => cases h
  | name s =>
    simp only [evaluate, valueOf] at h
    split at h <;> cases h
  | unary s f ih =>
    rw [evaluate] at h
    cases hs : signed? s with
    | none => simp [hs] at h
    | some apply =>
      cases hf : f.evaluate names with
      | ok a => simp [hs, hf, Except.map] at h
      | error e =>
        obtain rfl : e = .arithmetic .notReal := by simpa [hs, hf, Except.map] using h
        exact (ih hf).of_sub fun e he => List.mem_cons_of_mem _ he
  | binary op l r ihl ihr =>
    rw [evaluate] at h
    cases ho : operation? op with
    | none => simp [ho] at h
    | some f =>
      have left : ∀ e ∈ l.subformulas, e ∈ (binary op l r).subformulas :=
        fun e he => by simp [subformulas, he]
      have right : ∀ e ∈ r.subformulas, e ∈ (binary op l r).subformulas :=
        fun e he => by simp [subformulas, he]
      cases hl : l.evaluate names with
      | error e =>
        obtain rfl : e = .arithmetic .notReal := by simpa [ho, hl] using h
        exact (ihl hl).of_sub left
      | ok a =>
        cases hr : r.evaluate names with
        | error e =>
          obtain rfl : e = .arithmetic .notReal := by simpa [ho, hl, hr] using h
          exact (ihr hr).of_sub right
        | ok b =>
          rcases ((evaluate_iff hd).mp hl).isReal with ha | leaves
          case inr => exact leaves.of_sub left
          rcases ((evaluate_iff hd).mp hr).isReal with hb | leaves
          case inr => exact leaves.of_sub right
          refine absurd ?_ ((fitsReals_of_operation ho).apply ha hb)
          cases hc : f.apply a b with
          | ok c => simp [ho, hl, hr, hc, Except.mapError] at h
          | error e => simpa [ho, hl, hr, hc, Except.mapError] using h

end Formula

/-! ### Integers -/

/-- Quotients of integers are rounded down whatever their signs. -/
theorem fdiv_eq_floor (a b : ℤ) : a.fdiv b = ⌊(a : ℚ) / b⌋ := by
  obtain ⟨n, rfl | rfl⟩ := Int.eq_nat_or_neg b
  · rw [Int.fdiv_eq_ediv_of_nonneg a n.cast_nonneg, Int.cast_natCast,
      Rat.floor_intCast_div_natCast]
  · have flipped : a.fdiv (-n) = (-a).fdiv n := by rw [← Int.neg_fdiv_neg, neg_neg]
    have same : (a : ℚ) / (-n : ℤ) = (-a : ℤ) / (n : ℚ) := by push_cast; rw [div_neg, neg_div]
    rw [flipped, same, Int.fdiv_eq_ediv_of_nonneg (-a) n.cast_nonneg,
      Rat.floor_intCast_div_natCast]

namespace Formula

/-- A tree of integers with signs and with operators that do not leave them, and what it comes to.
Exponents are not negative and divisors are not zero. -/
inductive IntegerTree (names : Names) : Formula → ℤ → Prop
  | int (n : ℕ) : IntegerTree names (.int n) n
  | name {s : String} {i : ℤ} (found : Value.find? s names = some (.int i)) :
      IntegerTree names (.name s) i
  | plus {f : Formula} {a : ℤ} (operand : IntegerTree names f a) :
      IntegerTree names (.unary .plus f) a
  | minus {f : Formula} {a : ℤ} (operand : IntegerTree names f a) :
      IntegerTree names (.unary .minus f) (-a)
  | add {f g : Formula} {a b : ℤ} (left : IntegerTree names f a) (right : IntegerTree names g b) :
      IntegerTree names (.binary .add f g) (a + b)
  | subtract {f g : Formula} {a b : ℤ} (left : IntegerTree names f a)
      (right : IntegerTree names g b) : IntegerTree names (.binary .subtract f g) (a - b)
  | multiply {f g : Formula} {a b : ℤ} (left : IntegerTree names f a)
      (right : IntegerTree names g b) : IntegerTree names (.binary .multiply f g) (a * b)
  | floorDivide {f g : Formula} {a b : ℤ} (left : IntegerTree names f a)
      (right : IntegerTree names g b) (divisor : b ≠ 0) :
      IntegerTree names (.binary .floorDivide f g) ⌊(a : ℚ) / b⌋
  | modulo {f g : Formula} {a b : ℤ} (left : IntegerTree names f a)
      (right : IntegerTree names g b) (divisor : b ≠ 0) :
      IntegerTree names (.binary .modulo f g) (a - b * ⌊(a : ℚ) / b⌋)
  | power {f g : Formula} {a : ℤ} {n : ℕ} (left : IntegerTree names f a)
      (right : IntegerTree names g n) : IntegerTree names (.binary .power f g) (a ^ n)

theorem IntegerTree.evaluate {names : Names} {f : Formula} {v : ℤ} (h : IntegerTree names f v) :
    f.evaluate names = .ok (.int v) := by
  induction h with
  | int n => rfl
  | name found => exact valueOf_ok.mpr ⟨_, found, rfl⟩
  | plus _ ih | minus _ ih => exact evaluate_unary.mpr ⟨_, _, rfl, ih, rfl⟩
  | add _ _ ihf ihg | subtract _ _ ihf ihg | multiply _ _ ihf ihg =>
    exact evaluate_binary.mpr ⟨_, _, _, rfl, ihf, ihg, rfl⟩
  | floorDivide _ _ divisor ihf ihg =>
    refine evaluate_binary.mpr ⟨_, _, _, rfl, ihf, ihg, ?_⟩
    simp [Arithmetic.apply, orFail, unlessZero, divisor, fdiv_eq_floor, Except.map]
  | modulo _ _ divisor ihf ihg =>
    refine evaluate_binary.mpr ⟨_, _, _, rfl, ihf, ihg, ?_⟩
    simp [Arithmetic.apply, orFail, unlessZero, divisor, fdiv_eq_floor, Except.map, Int.fmod_def]
  | power _ _ ihf ihg =>
    refine evaluate_binary.mpr ⟨_, _, _, rfl, ihf, ihg, ?_⟩
    simp [Arithmetic.apply, powerInt]

end Formula

end MixedInteger
