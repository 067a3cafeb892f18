import MixedInteger.Proofs.Number.DoubleParts
import MixedInteger.Proofs.Number.Valued

/-! The values of doubles. A finite double is a significand times a power of two, and the
comparisons of doubles are those of these values. The floor and the ceiling of a finite double are
doubles again, and equal doubles have no difference: so much is exact. Of the other arithmetic only
products with one and minus one are looked at, which are finite when the other factor is:
multiplying by one makes the significand longer by fifty-two zeros, which rounding drops again. -/

namespace MixedInteger.DoubleValue

open Float.Model UnpackedFloat DoubleOrder DoubleRounding DoubleParts

/-- The value of what was unpacked from a finite double. -/
def valueOf : UnpackedFloat → ℚ
  | .finite s m e _ => (s.apply m : ℤ) * 2 ^ e
  | _ => 0

/-! ### Order -/

theorem value_pos {m : ℕ} {e : ℤ} (h : Canonical m e) : 0 < (m : ℚ) * 2 ^ e :=
  mul_pos (Nat.cast_pos.2 h.pos) (zpow_pos two_pos e)

/-- The greater exponent decides, then the greater significand. -/
theorem value_lt {m m' : ℕ} {e e' : ℤ} (h : Canonical m e) (h' : Canonical m' e')
    (hlt : e < e' ∨ e = e' ∧ m < m') : (m : ℚ) * 2 ^ e < m' * 2 ^ e' := by
  rcases hlt with he | ⟨rfl, hm⟩
  · have hm : m < 2 ^ 53 := h.lt
    have hm' : 2 ^ 52 ≤ m' := h'.normal.resolve_right (by have := h.least; omega)
    have htwo : (0 : ℚ) < 2 ^ e := zpow_pos two_pos e
    calc (m : ℚ) * 2 ^ e < 2 ^ 53 * 2 ^ e := by
          refine mul_lt_mul_of_pos_right ?_ htwo
          exact_mod_cast hm
      _ = 2 ^ 52 * 2 ^ (e + 1) := by
          rw [zpow_add_one₀ two_ne_zero]
          ring
      _ ≤ m' * 2 ^ e' := by
          refine mul_le_mul ?_ (zpow_le_zpow_right₀ one_le_two (by omega)) (zpow_pos two_pos _).le
            (Nat.cast_nonneg _)
          exact_mod_cast hm'
  · exact mul_lt_mul_of_pos_right (Nat.cast_lt.2 hm) (zpow_pos two_pos e)

theorem valueOf_lt {f g : UnpackedFloat} (hf : Proper f) (hg : Proper g) (h : rank f < rank g) :
    valueOf f < valueOf g := by
  cases hf with
  | zero s =>
    cases hg with
    | zero t => simp [rank] at h
    | finite t hg =>
      have := value_pos hg
      cases t <;> simp [rank, toLex_lt] at h
      simpa [valueOf, UnpackedFloat.Sign.apply] using this
  | finite s hf =>
    cases hg with
    | zero t =>
      have := value_pos hf
      cases s <;> simp [rank, toLex_lt] at h
      simpa [valueOf, UnpackedFloat.Sign.apply] using this
    | finite t hg =>
      have := value_pos hf
      have := value_pos hg
      cases s <;> cases t <;> simp only [rank, toLex_lt] at h <;>
        simp only [valueOf, UnpackedFloat.Sign.apply, Int.cast_neg, Int.cast_natCast, neg_mul]
      · refine neg_lt_neg (value_lt hg hf ?_)
        omega
      · linarith
      · omega
      · refine value_lt hf hg ?_
        omega

/-- The two zeros apart, a rank belongs to one double. -/
theorem eq_of_rank {f g : UnpackedFloat} (hf : Proper f) (hg : Proper g) (h : rank f = rank g) :
    f = g ∨ ∃ s t, f = .zero s ∧ g = .zero t := by
  cases hf with
  | zero s =>
    cases hg with
    | zero t => exact .inr ⟨s, t, rfl, rfl⟩
    | finite t hg => cases t <;> simp [rank] at h
  | finite s hf =>
    cases hg with
    | zero t => cases s <;> simp [rank] at h
    | finite t hg =>
      refine .inl ?_
      cases s <;> cases t <;> simp [rank] at h
      · obtain ⟨rfl, rfl⟩ := h
        rfl
      · obtain ⟨rfl, rfl⟩ := h
        rfl

theorem valueOf_le_iff {f g : UnpackedFloat} (hf : Proper f) (hg : Proper g) :
    rank f ≤ rank g ↔ valueOf f ≤ valueOf g := by
  constructor
  · intro h
    rcases h.lt_or_eq with hlt | heq
    · exact (valueOf_lt hf hg hlt).le
    · rcases eq_of_rank hf hg heq with rfl | ⟨s, t, rfl, rfl⟩ <;> rfl
  · intro h
    by_contra hlt
    exact (valueOf_lt hg hf (not_le.1 hlt)).not_ge h

/-! ### Rounding to integers -/

theorem two_zpow (e : ℤ) : (2 : ℚ) ^ e = 2 ^ e.toNat / 2 ^ (-e).toNat := by
  rcases le_total 0 e with he | he
  · obtain ⟨k, rfl⟩ := Int.eq_ofNat_of_zero_le he
    simp
  · obtain ⟨k, hk⟩ := Int.eq_ofNat_of_zero_le (neg_nonneg.2 he)
    obtain rfl : e = -k := by omega
    simp

/-- The floor of a binary form is the floor of its value. -/
theorem floor_eq (s : UnpackedFloat.Sign) (m : ℕ) (e : ℤ) :
    BinaryForm.floor ⟨s == .negative, m, e⟩ = ⌊((s.apply m : ℤ) : ℚ) * 2 ^ e⌋ := by
  have hvalue : ((s.apply m : ℤ) : ℚ) * 2 ^ e =
      (s.apply (m * 2 ^ e.toNat : ℕ) : ℤ) / ((2 ^ (-e).toNat : ℕ) : ℚ) := by
    rw [two_zpow]
    cases s <;> simp [UnpackedFloat.Sign.apply] <;> ring
  rw [hvalue, Rat.floor_intCast_div_natCast]
  cases s <;> rfl

theorem floorInt_eq {x : Float} (hx : Proper x.toModel.unpack) :
    Scalar.floorInt x = ⌊valueOf x.toModel.unpack⌋ := by
  change ((BinaryForm.ofFloat? x).map BinaryForm.floor).getD 0 = _
  rw [ofFloat?_eq]
  generalize x.toModel.unpack = f at hx
  cases hx with
  | zero s =>
    have hfloor := floor_eq s 0 (-1074)
    have hzero : s.apply ((0 : ℕ) : ℤ) = 0 := by cases s <;> rfl
    rw [hzero, Int.cast_zero, zero_mul] at hfloor
    exact hfloor
  | finite s h => exact floor_eq s _ _

/-! ### Integers that are doubles -/

/-- An integer with a significand of fifty-three bits. -/
def Fits (i : ℤ) : Prop := ∃ m k : ℕ, i.natAbs = m * 2 ^ k ∧ m < 2 ^ 53 ∧ k ≤ 971

theorem Fits.neg {i : ℤ} (h : Fits i) : Fits (-i) := by
  rwa [Fits, Int.natAbs_neg]

/-- The floor of a double is a double. -/
theorem fits_floor {c e : ℤ} (hc : c.natAbs < 2 ^ 53) (he : e ≤ 971) :
    Fits ⌊(c : ℚ) * 2 ^ e⌋ := by
  rcases le_or_gt 0 e with hpos | hneg
  · obtain ⟨k, rfl⟩ := Int.eq_ofNat_of_zero_le hpos
    have hvalue : (c : ℚ) * 2 ^ (k : ℤ) = (c * 2 ^ k : ℤ) := by
      push_cast
      rw [zpow_natCast]
    rw [hvalue, Int.floor_intCast]
    exact ⟨c.natAbs, k, by rw [Int.natAbs_mul, Int.natAbs_pow]; rfl, hc, by omega⟩
  · have hone : (2 : ℚ) ^ e ≤ 1 := zpow_le_one_of_nonpos₀ one_le_two hneg.le
    have hpos : (0 : ℚ) < 2 ^ e := zpow_pos two_pos e
    have hle : |(c : ℚ) * 2 ^ e| ≤ (2 ^ 53 - 1 : ℤ) := by
      rw [abs_mul, abs_of_pos hpos]
      have habs : |(c : ℚ)| ≤ (2 ^ 53 - 1 : ℤ) := by
        rw [← Int.cast_abs, Int.cast_le, Int.abs_eq_natAbs]
        omega
      calc |(c : ℚ)| * 2 ^ e ≤ |(c : ℚ)| * 1 := mul_le_mul_of_nonneg_left hone (abs_nonneg _)
        _ ≤ _ := by rwa [mul_one]
    obtain ⟨hlower, hupper⟩ := abs_le.1 hle
    have hfloor : -(2 ^ 53 - 1) ≤ ⌊(c : ℚ) * 2 ^ e⌋ := Int.le_floor.2 (by exact_mod_cast hlower)
    have hfloor' : ⌊(c : ℚ) * 2 ^ e⌋ ≤ 2 ^ 53 - 1 := by
      have := (Int.floor_le ((c : ℚ) * 2 ^ e)).trans hupper
      exact_mod_cast this
    exact ⟨⌊(c : ℚ) * 2 ^ e⌋.natAbs, 0, by rw [pow_zero, mul_one], by omega, by omega⟩

theorem unpack_packDouble {q : ℕ} {e : ℤ} (h : Canonical q e) (hq : 2 ^ 52 ≤ q) :
    (packDouble q e).toModel.unpack = .finite .positive q e h.pos := by
  have hlt := h.lt
  have hleast := h.least
  have hgreatest := h.greatest
  let n := (e + 1075).toNat * 2 ^ 52 + (q - 2 ^ 52)
  let b : Bits := (UInt64.ofNat n).toBitVec
  have hn : b.toNat = n := by
    simp [b]
    omega
  have hexponent : (unpackExponent b).toNat = (e + 1075).toNat := by
    rw [toNat_unpackExponent, hn]
    omega
  have hmantissa : (unpackMantissa b).toNat = q - 2 ^ 52 := by
    rw [toNat_unpackMantissa, hn]
    omega
  have hsign : signOf b = .positive := by
    have hbeq : (signOf b == .negative) = false := by
      rw [signOf_beq, hn, beq_eq_false_iff_ne]
      omega
    cases hs : signOf b with
    | positive => rfl
    | negative =>
      rw [hs] at hbeq
      cases hbeq
  have hunpack : UnpackedFloat.unpack Format.binary64 b = .finite .positive q e h.pos := by
    have hq' : 2 ^ 52 + (q - 2 ^ 52) = q := Nat.add_sub_cancel' hq
    have he : ((e + 1075).toNat : ℤ) - 1075 = e := by omega
    rw [unpack_normal (by omega) (by omega)]
    simp only [hsign, hexponent, hmantissa, hq', he]
  have hpack : packDouble q e = Float.ofBits (UInt64.ofNat n) := by
    unfold packDouble
    rw [twoTo_eq, if_neg (by omega), if_neg (by omega)]
  rw [hpack]
  change UnpackedFloat.unpack Format.binary64
    (UnpackedFloat.pack Format.binary64 (UnpackedFloat.unpack Format.binary64 b)) = _
  rw [hunpack]
  exact Proper.unpack_pack (.finite _ h)

theorem roundQuotient_mul {q d : ℕ} (hd : 0 < d) : roundQuotient (q * d) d = q := by
  unfold roundQuotient
  dsimp only
  rw [Nat.mul_div_cancel _ hd, Nat.mul_mod_left, if_pos (.inl (by omega))]

/-- Scaled to fifty-three bits, an integer that fits is still an integer. -/
theorem exists_significand {n : ℕ} (hn : 0 < n) (h : Fits n) :
    ∃ q : ℕ, Canonical q (n.log2 - 52) ∧ 2 ^ 52 ≤ q ∧
      n * 2 ^ (-((n.log2 : ℤ) - 52)).toNat = q * 2 ^ ((n.log2 : ℤ) - 52).toNat := by
  obtain ⟨m, k, hmk, hm, hk⟩ := h
  rw [Int.natAbs_natCast] at hmk
  have hlog : n.log2 < 53 + k := by
    rw [Nat.log2_lt hn.ne', hmk, pow_add]
    exact Nat.mul_lt_mul_of_pos_right hm (Nat.two_pow_pos k)
  have hself : 2 ^ n.log2 ≤ n := Nat.log2_self_le hn.ne'
  have hlt : n < 2 ^ (n.log2 + 1) := Nat.lt_log2_self
  have hcanonical : ∀ q, 2 ^ 52 ≤ q → q < 2 ^ 53 → Canonical q (n.log2 - 52) := fun q hq hq' =>
    ⟨by omega, hq', by omega, by omega, .inl hq⟩
  obtain hle | hle := Nat.le_total n.log2 52
  · obtain ⟨j, hj⟩ := Nat.le.dest hle
    have he : (-((n.log2 : ℤ) - 52)).toNat = j := by omega
    have he' : ((n.log2 : ℤ) - 52).toNat = 0 := by omega
    have hq : 2 ^ 52 ≤ n * 2 ^ j := by
      rw [← hj, pow_add]
      exact Nat.mul_le_mul_right _ hself
    have hq' : n * 2 ^ j < 2 ^ 53 := by
      have hpow : 2 ^ 53 = 2 ^ (n.log2 + 1) * 2 ^ j := by
        rw [← pow_add]
        congr 1
        omega
      rw [hpow]
      exact Nat.mul_lt_mul_of_pos_right hlt (Nat.two_pow_pos j)
    exact ⟨n * 2 ^ j, hcanonical _ hq hq', hq, by rw [he, he', pow_zero, mul_one]⟩
  · obtain ⟨j, hj⟩ := Nat.le.dest hle
    have he : (-((n.log2 : ℤ) - 52)).toNat = 0 := by omega
    have he' : ((n.log2 : ℤ) - 52).toNat = j := by omega
    obtain ⟨q, hq⟩ : 2 ^ j ∣ n := by
      rw [hmk]
      exact (pow_dvd_pow 2 (by omega)).mul_left m
    have hpos : 0 < 2 ^ j := Nat.two_pow_pos j
    have hlower : 2 ^ 52 ≤ q := by
      refine Nat.le_of_mul_le_mul_left ?_ hpos
      calc 2 ^ j * 2 ^ 52 = 2 ^ n.log2 := by rw [← hj, pow_add, Nat.mul_comm]
        _ ≤ n := hself
        _ = 2 ^ j * q := hq
    have hupper : q < 2 ^ 53 := by
      refine Nat.lt_of_mul_lt_mul_left (a := 2 ^ j) ?_
      calc 2 ^ j * q = n := hq.symm
        _ < 2 ^ (n.log2 + 1) := hlt
        _ = 2 ^ j * 2 ^ 53 := by
          rw [← pow_add]
          congr 1
          omega
    exact ⟨q, hcanonical q hlower hupper, hlower, by
      rw [he, he', pow_zero, mul_one, hq, Nat.mul_comm]⟩

theorem nearestDouble_exact {n : ℕ} (h : Fits n) :
    Proper (nearestDouble n 1).toModel.unpack ∧ valueOf (nearestDouble n 1).toModel.unpack = n := by
  unfold nearestDouble
  split_ifs with hn
  · subst hn
    exact ⟨.zero .positive, rfl⟩
  obtain ⟨q, hcanonical, hq, hscaled⟩ := exists_significand (Nat.pos_of_ne_zero hn) h
  have hone : Nat.log2 1 = 0 := by decide
  have hguess : (n.log2 : ℤ) - Nat.log2 1 - 52 = n.log2 - 52 := by
    rw [hone]
    omega
  dsimp only
  rw [hguess]
  generalize (n.log2 : ℤ) - 52 = e at hcanonical hscaled ⊢
  have hpos : 0 < 2 ^ e.toNat := Nat.two_pow_pos _
  -- the first guess is right, and rounding finds nothing to do
  have hlow : ¬n * twoTo (-e).toNat < 1 * twoTo 52 * twoTo e.toNat := by
    rw [twoTo_eq, twoTo_eq, twoTo_eq, hscaled, Nat.one_mul, not_lt]
    exact Nat.mul_le_mul_right _ hq
  have hround : roundQuotient (n * twoTo (-e).toNat) (1 * twoTo e.toNat) = q := by
    rw [twoTo_eq, twoTo_eq, hscaled, Nat.one_mul, roundQuotient_mul hpos]
  have hne : q ≠ twoTo 53 := by
    rw [twoTo_eq]
    exact hcanonical.lt.ne
  rw [if_neg hlow, max_eq_left hcanonical.least, hround, if_neg hne,
    unpack_packDouble hcanonical hq]
  refine ⟨.finite _ hcanonical, ?_⟩
  have hvalue : (n : ℚ) * 2 ^ (-e).toNat = q * 2 ^ e.toNat := by exact_mod_cast hscaled
  have hne' : (2 : ℚ) ^ (-e).toNat ≠ 0 := pow_ne_zero _ two_ne_zero
  change ((q : ℤ) : ℚ) * 2 ^ e = n
  rw [two_zpow, Int.cast_natCast, ← mul_div_assoc, ← hvalue, mul_div_cancel_right₀ _ hne']

/-! ### Doubles are valued -/

theorem unpack_neg {x : Float} (hx : Proper x.toModel.unpack) :
    (-x).toModel.unpack = x.toModel.unpack.neg := hx.neg.unpack_pack

theorem valueOf_neg {f : UnpackedFloat} : valueOf f.neg = -valueOf f := by
  cases f with
  | finite s m e h => cases s <;> simp [UnpackedFloat.neg, valueOf, UnpackedFloat.Sign.apply]
  | _ => simp [UnpackedFloat.neg, valueOf]

theorem proper_iff {x : Float} : Scalar.isFinite x = true ↔ Proper x.toModel.unpack := by
  change (!x.toModel.unpack.isNaN && !x.toModel.unpack.isInf) = true ↔ _
  constructor
  · intro h
    refine proper_unpack ?_
    change x.toModel.unpack.isFinite = true
    generalize x.toModel.unpack = f at h
    cases f <;> first | rfl | cases h
  · intro h
    generalize x.toModel.unpack = f at h
    cases h <;> rfl

theorem ofInt_exact {i : ℤ} (h : Fits i) :
    Proper (Scalar.ofInt i : Float).toModel.unpack ∧
      valueOf (Scalar.ofInt i : Float).toModel.unpack = i := by
  have hfits : Fits (i.natAbs : ℤ) := by rwa [Fits, Int.natAbs_natCast]
  obtain ⟨hproper, hvalue⟩ := nearestDouble_exact hfits
  have hinf : (nearestDouble i.natAbs 1).isInf = false := by
    have hfinite := proper_iff.2 hproper
    rw [Scalar.isFinite_iff] at hfinite
    exact hfinite.2
  have hofInt : (Scalar.ofInt i : Float) =
      if i < 0 then -nearestDouble i.natAbs 1 else nearestDouble i.natAbs 1 := by
    change (doubleOfInt? i).getD _ = _
    unfold doubleOfInt?
    dsimp only
    rw [hinf]
    rfl
  rw [hofInt]
  split_ifs with hi
  · rw [unpack_neg hproper, valueOf_neg, hvalue]
    refine ⟨hproper.neg, ?_⟩
    have : ((i.natAbs : ℤ) : ℚ) = ((-i : ℤ) : ℚ) := by
      rw [Int.ofNat_natAbs_of_nonpos hi.le]
    rw [← Int.cast_natCast, this, Int.cast_neg, neg_neg]
  · refine ⟨hproper, ?_⟩
    have : ((i.natAbs : ℤ) : ℚ) = (i : ℚ) := by
      rw [Int.natAbs_of_nonneg (not_lt.1 hi)]
    rw [hvalue, ← Int.cast_natCast, this]

/-- The difference of equal values is zero. -/
theorem sub_beq_zero {x y : Float} (hx : Proper x.toModel.unpack) (hy : Proper y.toModel.unpack)
    (h : rankOf x = rankOf y) : (x - y == 0) = true := by
  have hsub : ∃ s, UnpackedFloat.sub Format.binary64 x.toModel.unpack y.toModel.unpack =
      .zero s := by
    rcases eq_of_rank hx hy h with heq | ⟨s, t, hs, ht⟩
    · rw [← heq]
      generalize x.toModel.unpack = f at hx
      cases hx with
      | zero s => cases s <;> exact ⟨_, rfl⟩
      | finite s h =>
        refine ⟨.positive, ?_⟩
        simp only [UnpackedFloat.sub, sub_self]
        rfl
    · rw [hs, ht]
      cases s <;> cases t <;> exact ⟨_, rfl⟩
  obtain ⟨s, hs⟩ := hsub
  have hunpack : (x - y).toModel.unpack = .zero s := by
    change UnpackedFloat.unpack Format.binary64 (UnpackedFloat.pack Format.binary64
      (UnpackedFloat.sub Format.binary64 x.toModel.unpack y.toModel.unpack)) = _
    rw [hs]
    exact Proper.unpack_pack (.zero s)
  change ((x - y).toModel.unpack.compare (.zero .positive) == some .eq) = true
  rw [hunpack]
  rfl

/-- What lies between finite doubles is finite. -/
theorem proper_between {x y z : Float} (hx : Proper x.toModel.unpack)
    (hz : Proper z.toModel.unpack) (hxy : x ≤ y) (hyz : y ≤ z) : Proper y.toModel.unpack := by
  obtain ⟨-, hnan, hlower⟩ := DoubleOrder.le_iff.1 hxy
  have hupper := (DoubleOrder.le_iff.1 hyz).2.2
  change y.toModel.unpack.isNaN = false at hnan
  refine proper_unpack ?_
  change y.toModel.unpack.isFinite = true
  unfold rankOf at hlower hupper
  generalize y.toModel.unpack = f at *
  cases f with
  | notANumber => cases hnan
  | zero s => rfl
  | finite s m e h => rfl
  | infinity s =>
    exfalso
    cases s with
    | positive =>
      refine hupper.not_gt ?_
      generalize z.toModel.unpack = g at hz
      cases hz with
      | zero t => simp [rank, toLex_lt]
      | finite t h => cases t <;> simp [rank, toLex_lt]
    | negative =>
      refine hlower.not_gt ?_
      generalize x.toModel.unpack = g at hx
      cases hx with
      | zero t => simp [rank, toLex_lt]
      | finite t h => cases t <;> simp [rank, toLex_lt]

theorem fits_of_proper {f : UnpackedFloat} (hf : Proper f) :
    Fits ⌊valueOf f⌋ ∧ Fits ⌈valueOf f⌉ := by
  cases hf with
  | zero s => exact ⟨⟨0, 0, rfl, by omega, by omega⟩, ⟨0, 0, rfl, by omega, by omega⟩⟩
  | @finite s m e h =>
    have hc : (s.apply m).natAbs < 2 ^ 53 := by
      have := h.lt
      cases s <;> simpa [UnpackedFloat.Sign.apply] using this
    have hneg : -(((s.apply m : ℤ) : ℚ) * 2 ^ e) = ((-s.apply m : ℤ) : ℚ) * 2 ^ e := by
      rw [Int.cast_neg, neg_mul]
    refine ⟨fits_floor hc h.greatest, ?_⟩
    change Fits ⌈((s.apply m : ℤ) : ℚ) * 2 ^ e⌉
    rw [← neg_neg ⌈_⌉, ← Int.floor_neg, hneg]
    exact (fits_floor (by rwa [Int.natAbs_neg]) h.greatest).neg

theorem le_iff_valueOf {x y : Float} (hx : Proper x.toModel.unpack)
    (hy : Proper y.toModel.unpack) :
    x ≤ y ↔ valueOf x.toModel.unpack ≤ valueOf y.toModel.unpack := by
  have hnan : ∀ {z : Float}, Proper z.toModel.unpack → z.isNaN = false :=
    fun hz => (Scalar.isFinite_iff.1 (proper_iff.2 hz)).1
  rw [DoubleOrder.le_iff, ← valueOf_le_iff hx hy]
  exact ⟨fun h => h.2.2, fun h => ⟨hnan hx, hnan hy, h⟩⟩

instance : ValuedScalar Float where
  value x := valueOf x.toModel.unpack
  isFinite_zero := by decide
  value_zero := rfl
  isFinite_between ha hc hab hbc :=
    proper_iff.2 (proper_between (proper_iff.1 ha) (proper_iff.1 hc) hab hbc)
  le_iff ha hb := le_iff_valueOf (proper_iff.1 ha) (proper_iff.1 hb)
  isFinite_neg {a} ha := by
    rw [proper_iff, unpack_neg (proper_iff.1 ha)]
    exact (proper_iff.1 ha).neg
  value_neg {a} ha := by
    rw [unpack_neg (proper_iff.1 ha), valueOf_neg]
  floorInt_eq ha := floorInt_eq (proper_iff.1 ha)
  isFinite_floor ha := proper_iff.2 (ofInt_exact (fits_of_proper (proper_iff.1 ha)).1).1
  value_floor ha := (ofInt_exact (fits_of_proper (proper_iff.1 ha)).1).2
  isFinite_ceil ha := proper_iff.2 (ofInt_exact (fits_of_proper (proper_iff.1 ha)).2).1
  value_ceil ha := (ofInt_exact (fits_of_proper (proper_iff.1 ha)).2).2
  sub_beq_zero {a b} ha hb h := by
    have ha := proper_iff.1 ha
    have hb := proper_iff.1 hb
    exact sub_beq_zero ha hb
      (le_antisymm ((valueOf_le_iff ha hb).2 h.le) ((valueOf_le_iff hb ha).2 h.ge))
  half_pos := by decide

/-! ### Zeros at the end of a significand -/

/-- Shifting drops zeros without noticing them. -/
theorem shift_zeros (m k : ℕ) :
    (⟨2 ^ k * m, false, false⟩ : ExtendedMantissa) >>> k = ⟨m, false, false⟩ := by
  change Nat.repeat ExtendedMantissa.shiftRightOne k _ = _
  induction k generalizing m with
  | zero => simp [Nat.repeat]
  | succ k ih =>
    rw [Nat.repeat, pow_succ, mul_assoc, ih]
    simp [ExtendedMantissa.shiftRightOne]

section
variable {m : ℕ} {e : ℤ} (h : Canonical m e) (k : ℕ)
include h

/-- A canonical exponent is the one that rounding aims at, however long the significand. -/
theorem target_eq : Format.binary64.targetExponent (totalExponent (2 ^ k * m) (e - k)) = e := by
  have hlog : (2 ^ k * m).log2 = k + m.log2 := by
    have hm := Nat.log2_self_le h.pos.ne'
    have hlt := Nat.lt_log2_self (n := m)
    rw [Nat.log2_eq_iff (by have := h.pos; positivity), pow_add, add_assoc, pow_add]
    exact ⟨Nat.mul_le_mul_left _ hm, (Nat.mul_lt_mul_left (by positivity)).2 hlt⟩
  have hle : m.log2 ≤ 52 := by
    have := (Nat.log2_lt h.pos.ne').2 h.lt
    omega
  have hleast := h.least
  change max ((((2 ^ k * m).log2 + 1 : ℕ) : ℤ) + (e - k) - 53) (-1074) = e
  rw [hlog]
  rcases h.normal with hm | he
  · have : m.log2 = 52 := (Nat.log2_eq_iff h.pos.ne').2 ⟨hm, h.lt⟩
    omega
  · omega

theorem shift_eq :
    shiftToTargetExponent Format.binary64 (2 ^ k * m) (e - k) .exact = (⟨m, false, false⟩, e) := by
  have hk : (e - (e - k)).toNat = k := by omega
  simp only [shiftToTargetExponent, shiftToExponent, target_eq h k, hk,
    ExtendedMantissa.ofMantissaAndAccuracy, shift_zeros, sub_add_cancel]

/-- Rounding finds the canonical significand again. -/
theorem round_eq (s : UnpackedFloat.Sign) :
    roundWithAccuracy Format.binary64 s (2 ^ k * m) (e - k) .exact = .finite s m e h.pos := by
  have hagain := shift_eq h 0
  rw [pow_zero, one_mul, Nat.cast_zero, sub_zero] at hagain
  simp only [roundWithAccuracy, shift_eq h k, ExtendedMantissa.roundedMantissa,
    ExtendedMantissa.accuracy, Accuracy.roundToNearestEven, hagain, h.pos.ne', dite_false]

end

/-! ### One and minus one -/

/-- The unpacked number one, with a sign. -/
def unit (s : UnpackedFloat.Sign) : UnpackedFloat := .finite s (2 ^ 52) (-52) (by positivity)

theorem proper_unit_mul {f : UnpackedFloat} (hf : Proper f) (s : UnpackedFloat.Sign) :
    Proper (UnpackedFloat.mul Format.binary64 (unit s) f) := by
  cases hf with
  | zero t => exact .zero _
  | @finite t m e h =>
    have hround := round_eq h 52 (s * t)
    rw [Nat.cast_ofNat, sub_eq_neg_add] at hround
    change Proper (roundWithAccuracy Format.binary64 (s * t) (2 ^ 52 * m) (-52 + e) .exact)
    rw [hround]
    exact .finite _ h

/-- The sign of an objective keeps its costs finite. -/
theorem isFinite_unit_mul {x y : Float} {s : UnpackedFloat.Sign} (hx : x.toModel.unpack = unit s)
    (hy : Scalar.isFinite y = true) : Scalar.isFinite (x * y) = true := by
  rw [proper_iff] at hy ⊢
  change Proper (UnpackedFloat.unpack Format.binary64 (UnpackedFloat.pack Format.binary64
    (UnpackedFloat.mul Format.binary64 x.toModel.unpack y.toModel.unpack)))
  rw [hx, (proper_unit_mul hy s).unpack_pack]
  exact proper_unit_mul hy s

theorem isFinite_one_mul {x : Float} (hx : Scalar.isFinite x = true) :
    Scalar.isFinite (1 * x) = true := isFinite_unit_mul (s := .positive) rfl hx

theorem isFinite_neg_one_mul {x : Float} (hx : Scalar.isFinite x = true) :
    Scalar.isFinite (-1 * x) = true := isFinite_unit_mul (s := .negative) rfl hx

end MixedInteger.DoubleValue
