import MixedInteger.Proofs.Number.Order
import MixedInteger.Proofs.Number.Extended
import Mathlib

/-! The parts of a double. Its sign, its exponent and its significand are fields of its bits. The
significand has fifty-three bits, unless the exponent is the least one; parts of this kind are
packed without loss. Doubles made from integers are numbers, and zero added to a double that is not
zero is that double: the first is about the bits that rounding chooses, the second about packing
what was unpacked. -/

namespace MixedInteger.DoubleRounding

open Float.Model UnpackedFloat

/-! ### Packing -/

abbrev Bits := BitVec Format.binary64.numBits

/-- Zero added to a double that is not zero is that double, to the last bit. -/
theorem zero_add {x : Float} (h : (x == 0) = false) : 0 + x = x := by
  have hpack : Float.Model.pack x.toModel.unpack = x.toModel := by
    have hbits := pack_unpack_of_valid x.toModel.valid
    unfold Float.Model.pack Float.Model.unpack
    simp only [hbits]
  have hzero : ∀ s, x.toModel.unpack ≠ .zero s := by
    intro s hs
    change (x.toModel.unpack.compare (.zero .positive) == some .eq) = false at h
    rw [hs] at h
    cases h
  have hadd : UnpackedFloat.add Format.binary64 (.zero .positive) x.toModel.unpack =
      x.toModel.unpack := by
    cases hx : x.toModel.unpack with
    | zero s => exact absurd hx (hzero s)
    | _ => rfl
  change Float.ofModel (Float.Model.pack
    (UnpackedFloat.add Format.binary64 (.zero .positive) x.toModel.unpack)) = x
  rw [hadd, hpack]

/-! ### Bits that are not not-a-number -/

theorem isNaN_unpack (b : Bits) : (UnpackedFloat.unpack Format.binary64 b).isNaN = true ↔
    unpackExponent b = -1#_ ∧ unpackMantissa b ≠ 0#_ := by
  unfold UnpackedFloat.unpack
  simp only
  split_ifs with hexp hman hexp' hman <;> simp_all [UnpackedFloat.isNaN]

theorem isNaN_pack {f : UnpackedFloat} (h : f.isNaN = false) :
    (UnpackedFloat.unpack Format.binary64 (UnpackedFloat.pack Format.binary64 f)).isNaN =
      false := by
  rw [Bool.eq_false_iff, ne_eq, isNaN_unpack]
  rintro ⟨hexp, hman⟩
  cases f with
  | notANumber => cases h
  | infinity s => simp [UnpackedFloat.pack, packedInfinity] at hman
  | zero s => simp [UnpackedFloat.pack, packedZero] at hman
  | finite s m e hm =>
    unfold UnpackedFloat.pack at hexp hman
    simp only at hexp hman
    split_ifs at hexp hman with hbig hnormal
    · simp [packedInfinity] at hman
    · rw [unpackExponent_packComponents] at hexp
      have hnat := congrArg BitVec.toNat hexp
      rw [BitVec.toNat_ofNat] at hnat
      change _ % 2048 = 2047 at hnat
      change ¬2048 ≤ _ at hbig
      omega
    · rw [unpackExponent_packComponents] at hexp
      exact absurd hexp (by decide)

theorem isNaN_neg {x : Float} (h : x.isNaN = false) : (-x).isNaN = false := by
  refine isNaN_pack (f := x.toModel.unpack.neg) ?_
  change x.toModel.unpack.isNaN = false at h
  cases hx : x.toModel.unpack <;> rw [hx] at h <;> first | rfl | cases h

/-- Bits that are not above those of infinity. -/
theorem isNaN_ofBits {n : ℕ} (h : n ≤ 2047 * 2 ^ 52) :
    (Float.ofBits (UInt64.ofNat n)).isNaN = false := by
  refine isNaN_pack ?_
  rw [Bool.eq_false_iff, ne_eq, isNaN_unpack]
  rintro ⟨hexp, hman⟩
  have hexp := congrArg BitVec.toNat hexp
  have hman := mt BitVec.eq_of_toNat_eq hman
  simp only [unpackExponent, unpackMantissa, BitVec.toNat_cast, BitVec.extractLsb_toNat]
    at hexp hman
  change (UInt64.ofNat n).toBitVec.toNat >>> 52 % 2048 = 2047 at hexp
  change ¬(UInt64.ofNat n).toBitVec.toNat >>> 0 % 2 ^ 52 = 0 at hman
  have hn : (UInt64.ofNat n).toBitVec.toNat = n := by
    simp
    omega
  rw [hn, Nat.shiftRight_eq_div_pow] at hexp hman
  omega

theorem twoTo_eq (n : ℕ) : twoTo n = 2 ^ n := rfl

theorem isNaN_packDouble {q : ℕ} {e : ℤ} (hq : q < 2 ^ 53) : (packDouble q e).isNaN = false := by
  have hfield : 2047 * twoTo 52 = 2047 * 2 ^ 52 := congrArg _ (twoTo_eq 52)
  unfold packDouble
  rw [hfield]
  split_ifs with h he
  · rw [twoTo_eq] at h
    exact isNaN_ofBits (by omega)
  · exact isNaN_ofBits (Nat.le_refl _)
  · refine isNaN_ofBits ?_
    rw [twoTo_eq] at h ⊢
    have hle : (e + 1075).toNat ≤ 2046 := by omega
    calc (e + 1075).toNat * 2 ^ 52 + (q - 2 ^ 52) ≤ 2046 * 2 ^ 52 + 2 ^ 52 :=
          Nat.add_le_add (Nat.mul_le_mul_right _ hle) (by omega)
      _ = 2047 * 2 ^ 52 := rfl

/-! ### Significands of integers -/

/-- `n` is less than `m * 2 ^ e`. -/
def Below (n m : ℕ) (e : ℤ) : Prop := n * twoTo (-e).toNat < m * twoTo e.toNat

namespace Below

variable {n m k : ℕ} {e e' : ℤ}

theorem nonneg_iff : Below n m k ↔ n < m * 2 ^ k := by
  have h : (-(k : ℤ)).toNat = 0 := by omega
  rw [Below, h, Int.toNat_natCast, twoTo_eq, twoTo_eq, pow_zero, mul_one]

theorem neg_iff : Below n m (-k) ↔ n * 2 ^ k < m := by
  have h : (-(k : ℤ)).toNat = 0 := by omega
  rw [Below, h, neg_neg, Int.toNat_natCast, twoTo_eq, twoTo_eq, pow_zero, mul_one]

theorem succ (h : Below n m e) : Below n m (e + 1) := by
  rcases lt_or_ge e 0 with he | he
  · obtain ⟨k, rfl⟩ : ∃ k : ℕ, e = -((k + 1 : ℕ) : ℤ) := ⟨(-e - 1).toNat, by omega⟩
    have hk : -((k + 1 : ℕ) : ℤ) + 1 = -(k : ℤ) := by omega
    rw [hk, neg_iff]
    rw [neg_iff, pow_succ] at h
    have := Nat.zero_le (n * 2 ^ k)
    linarith
  · obtain ⟨k, rfl⟩ := Int.eq_ofNat_of_zero_le he
    have hk : (k : ℤ) + 1 = ((k + 1 : ℕ) : ℤ) := rfl
    rw [hk, nonneg_iff, pow_succ]
    rw [nonneg_iff] at h
    have := Nat.zero_le (m * 2 ^ k)
    linarith

theorem mono (h : Below n m e) (he : e ≤ e') : Below n m e' := by
  obtain ⟨k, rfl⟩ := Int.le.dest he
  induction k with
  | zero => simpa using h
  | succ k ih => exact Int.add_assoc e k 1 ▸ (ih (by omega)).succ

/-- A significand that is one bit too short fits at the next lesser exponent. -/
theorem pred (h : Below n m e) : Below n (2 * m) (e - 1) := by
  rcases lt_or_ge 0 e with he | he
  · obtain ⟨k, rfl⟩ : ∃ k : ℕ, e = ((k + 1 : ℕ) : ℤ) := ⟨(e - 1).toNat, by omega⟩
    have hk : ((k + 1 : ℕ) : ℤ) - 1 = k := by omega
    rw [hk, nonneg_iff]
    rw [nonneg_iff, pow_succ] at h
    linarith
  · obtain ⟨k, rfl⟩ : ∃ k : ℕ, e = -(k : ℤ) := ⟨(-e).toNat, by omega⟩
    have hk : -(k : ℤ) - 1 = -((k + 1 : ℕ) : ℤ) := by omega
    rw [hk, neg_iff, pow_succ]
    rw [neg_iff] at h
    linarith

/-- The exponent that the length of a number suggests is great enough. -/
theorem log2 (n : ℕ) : Below n (2 ^ 53) (n.log2 - 52) := by
  have hlog : n < 2 ^ (n.log2 + 1) := Nat.lt_log2_self
  obtain h | h := Nat.le_total 52 n.log2
  · obtain ⟨k, hk⟩ := Nat.le.dest h
    have he : ((n.log2 : ℤ) - 52) = (k : ℕ) := by omega
    rw [he, nonneg_iff, ← pow_add]
    rwa [← hk, Nat.add_assoc, Nat.add_comm k 1, ← Nat.add_assoc] at hlog
  · obtain ⟨k, hk⟩ := Nat.le.dest h
    have he : ((n.log2 : ℤ) - 52) = -(k : ℕ) := by omega
    rw [he, neg_iff]
    calc n * 2 ^ k < 2 ^ (n.log2 + 1) * 2 ^ k := Nat.mul_lt_mul_of_pos_right hlog (Nat.two_pow_pos k)
      _ = 2 ^ 53 := by
          rw [← pow_add]
          congr 1
          omega

end Below

/-- What is less than `m` divisors rounds to a quotient of `m` at most. -/
theorem roundQuotient_le {n d m : ℕ} (hd : 0 < d) (h : n < m * d) : roundQuotient n d ≤ m := by
  have hq : n / d < m := (Nat.div_lt_iff_lt_mul hd).2 h
  unfold roundQuotient
  dsimp only
  split_ifs <;> omega

/-- The significand of an integer has at most fifty-three bits, perhaps after a carry. -/
theorem isNaN_nearestDouble (n : ℕ) : (nearestDouble n 1).isNaN = false := by
  have hone : Nat.log2 1 = 0 := by decide
  have hpacked : ∀ e : ℤ, Below n (2 ^ 53) e →
      (if roundQuotient (n * twoTo (-e).toNat) (1 * twoTo e.toNat) = twoTo 53 then
        packDouble (twoTo 52) (e + 1)
      else packDouble (roundQuotient (n * twoTo (-e).toNat) (1 * twoTo e.toNat)) e).isNaN =
        false := by
    intro e he
    have hpos : 0 < 1 * twoTo e.toNat := by
      rw [Nat.one_mul]
      exact Nat.two_pow_pos _
    have hle := roundQuotient_le hpos (m := 2 ^ 53) (by rwa [Nat.one_mul])
    split_ifs with hq
    · exact isNaN_packDouble (by rw [twoTo_eq]; omega)
    · exact isNaN_packDouble (lt_of_le_of_ne hle hq)
  unfold nearestDouble
  split_ifs with hn
  · decide
  · have hguess : (n.log2 : ℤ) - Nat.log2 1 - 52 = n.log2 - 52 := by
      rw [hone]
      omega
    refine hpacked _ (Below.mono ?_ (le_max_left _ _))
    rw [hguess]
    split_ifs with hlow
    · rw [Nat.one_mul, twoTo_eq 52] at hlow
      exact Below.pred (m := 2 ^ 52) hlow
    · exact Below.log2 n

theorem isNaN_ofInt (i : ℤ) : (Scalar.ofInt i : Float).isNaN = false := by
  have hinfinity : (Scalar.infinity : Float).isNaN = false :=
    OrderedScalar.isNaN_infinity (α := Float)
  have hneg : (-Scalar.infinity : Float).isNaN = false :=
    OrderedScalar.isNaN_neg_infinity (α := Float)
  have hnearest := isNaN_nearestDouble i.natAbs
  change ((doubleOfInt? i).getD _).isNaN = false
  unfold doubleOfInt?
  dsimp only
  split_ifs
  · exact hneg
  · exact hinfinity
  · exact isNaN_neg hnearest
  · exact hnearest

instance : LawfulScalar Float where
  isNaN_one := by decide
  isNaN_ofInt := isNaN_ofInt
  zero_add := zero_add

end MixedInteger.DoubleRounding

namespace MixedInteger.DoubleParts

open Float.Model UnpackedFloat DoubleOrder DoubleRounding

/-! ### Fields of bits -/

theorem toNat_unpackExponent (b : Bits) :
    (unpackExponent b).toNat = b.toNat / 2 ^ 52 % 2048 := by
  simp only [unpackExponent, BitVec.toNat_cast, BitVec.extractLsb_toNat]
  change b.toNat >>> 52 % 2048 = _
  rw [Nat.shiftRight_eq_div_pow]

theorem toNat_unpackMantissa (b : Bits) : (unpackMantissa b).toNat = b.toNat % 2 ^ 52 := by
  simp only [unpackMantissa, BitVec.toNat_cast, BitVec.extractLsb_toNat]
  change b.toNat >>> 0 % 2 ^ 52 = _
  rw [Nat.shiftRight_zero]

theorem toNat_unpackSign (b : Bits) : (unpackSign b).toNat = b.toNat / 2 ^ 63 := by
  simp only [unpackSign, BitVec.toNat_cast, BitVec.extractLsb_toNat]
  change b.toNat >>> 63 % 2 = _
  have hlt : b.toNat < 2 ^ 64 := b.isLt
  rw [Nat.shiftRight_eq_div_pow]
  omega

/-- The sign of bits. -/
def signOf (b : Bits) : UnpackedFloat.Sign := UnpackedFloat.Sign.ofBitVec (unpackSign b)

theorem signOf_packComponents (s : UnpackedFloat.Sign) (e m) :
    signOf (packComponents Format.binary64 s e m) = s := by
  rw [signOf, unpackSign_packComponents, Sign.ofBitVec_toBitVec]

theorem signOf_beq (b : Bits) : (signOf b == .negative) = (b.toNat / 2 ^ 63 == 1) := by
  rw [← toNat_unpackSign, signOf]
  generalize unpackSign b = s
  revert s
  decide

section
variable {b : Bits}

theorem unpack_normal (h : (unpackExponent b).toNat ≠ 0) (h' : (unpackExponent b).toNat ≠ 2047) :
    UnpackedFloat.unpack Format.binary64 b =
      .finite (signOf b) (2 ^ 52 + (unpackMantissa b).toNat) ((unpackExponent b).toNat - 1075)
        (by omega) := by
  have hmantissa : (1#1 ++ unpackMantissa b).toNat = 2 ^ 52 + (unpackMantissa b).toNat := by
    rw [BitVec.toNat_append]
    have := Nat.two_pow_add_eq_or_of_lt (unpackMantissa b).isLt 1
    simpa [Nat.shiftLeft_eq] using this.symm
  have hlast : unpackExponent b ≠ -1#_ := fun heq => h' (by rw [heq]; rfl)
  have hfirst : unpackExponent b ≠ 0#_ := fun heq => h (by rw [heq]; rfl)
  simp only [UnpackedFloat.unpack, if_neg hlast, if_neg hfirst, hmantissa]
  rfl

theorem unpack_subnormal (h : (unpackExponent b).toNat = 0) (hm : 0 < (unpackMantissa b).toNat) :
    UnpackedFloat.unpack Format.binary64 b =
      .finite (signOf b) (unpackMantissa b).toNat (-1074) hm := by
  have hfirst : unpackExponent b = 0#_ := BitVec.eq_of_toNat_eq h
  have hmantissa : unpackMantissa b ≠ 0#_ := fun heq => hm.ne' (by rw [heq]; rfl)
  simp only [UnpackedFloat.unpack, hfirst, dif_neg hmantissa]
  rfl

theorem unpack_zero (h : (unpackExponent b).toNat = 0) (hm : (unpackMantissa b).toNat = 0) :
    UnpackedFloat.unpack Format.binary64 b = .zero (signOf b) := by
  have hfirst : unpackExponent b = 0#_ := BitVec.eq_of_toNat_eq h
  have hmantissa : unpackMantissa b = 0#_ := BitVec.eq_of_toNat_eq hm
  simp only [UnpackedFloat.unpack, hfirst, hmantissa]
  rfl

theorem unpack_last (h : (unpackExponent b).toNat = 2047) :
    (UnpackedFloat.unpack Format.binary64 b).isFinite = false := by
  have hlast : unpackExponent b = -1#_ := BitVec.eq_of_toNat_eq h
  simp only [UnpackedFloat.unpack, hlast, if_true]
  split_ifs <;> rfl

end

/-! ### Canonical significands -/

/-- A significand and an exponent as a double has them. -/
structure Canonical (m : ℕ) (e : ℤ) : Prop where
  pos : 0 < m
  lt : m < 2 ^ 53
  least : -1074 ≤ e
  greatest : e ≤ 971
  normal : 2 ^ 52 ≤ m ∨ e = -1074

/-- What finite doubles are unpacked to. -/
inductive Proper : UnpackedFloat → Prop
  | zero (s : UnpackedFloat.Sign) : Proper (.zero s)
  | finite (s : UnpackedFloat.Sign) {m : ℕ} {e : ℤ} (h : Canonical m e) :
    Proper (.finite s m e h.pos)

theorem proper_unpack {b : Bits} (h : (UnpackedFloat.unpack Format.binary64 b).isFinite = true) :
    Proper (UnpackedFloat.unpack Format.binary64 b) := by
  have hexponent : (unpackExponent b).toNat < 2048 := (unpackExponent b).isLt
  have hmantissa : (unpackMantissa b).toNat < 2 ^ 52 := (unpackMantissa b).isLt
  by_cases hlast : (unpackExponent b).toNat = 2047
  · rw [unpack_last hlast] at h
    cases h
  by_cases hfirst : (unpackExponent b).toNat = 0
  · rcases Nat.eq_zero_or_pos (unpackMantissa b).toNat with hm | hm
    · rw [unpack_zero hfirst hm]
      exact .zero _
    · rw [unpack_subnormal hfirst hm]
      exact .finite _ ⟨hm, by omega, by omega, by omega, .inr rfl⟩
  · rw [unpack_normal hfirst hlast]
    exact .finite _ ⟨by omega, by omega, by omega, by omega, .inl (by omega)⟩

namespace Proper

variable {f : UnpackedFloat}

theorem neg (h : Proper f) : Proper f.neg := by
  cases h with
  | zero s => exact .zero _
  | finite s h => exact .finite _ h

/-- Canonical parts are packed without loss. -/
theorem unpack_pack (h : Proper f) :
    UnpackedFloat.unpack Format.binary64 (UnpackedFloat.pack Format.binary64 f) = f := by
  cases h with
  | zero s => cases s <;> rfl
  | @finite s m e h =>
    obtain ⟨hpos, hlt, hleast, hgreatest, hnormal⟩ := h
    have hbiased : (e + Format.binary64.exponentBias +
        Format.binary64.mantissaBitsWithoutImplicit).toNat = (e + 1075).toNat := by
      change (e + 1023 + 52).toNat = _
      omega
    by_cases hm : 2 ^ 52 ≤ m
    · have hlog : m.log2 + 1 = Format.binary64.mantissaBits := by
        rw [(Nat.log2_eq_iff hpos.ne').2 ⟨hm, hlt⟩]
        rfl
      have hpack : UnpackedFloat.pack Format.binary64 (.finite s m e hpos) =
          packComponents Format.binary64 s (BitVec.ofNat _ (e + 1075).toNat)
            (BitVec.ofNat _ m) := by
        simp only [UnpackedFloat.pack, hbiased]
        rw [if_neg (by change ¬2048 ≤ _; omega), if_pos hlog]
      have hexponent : (BitVec.ofNat 11 (e + 1075).toNat).toNat = (e + 1075).toNat := by
        rw [BitVec.toNat_ofNat]
        omega
      have hmantissa : (BitVec.ofNat 52 m).toNat = m - 2 ^ 52 := by
        rw [BitVec.toNat_ofNat]
        omega
      have hm' : 2 ^ 52 + (m - 2 ^ 52) = m := Nat.add_sub_cancel' hm
      have he : ((e + 1075).toNat : ℤ) - 1075 = e := by omega
      rw [hpack, unpack_normal (by rw [unpackExponent_packComponents, hexponent]; omega)
        (by rw [unpackExponent_packComponents, hexponent]; omega)]
      simp only [signOf_packComponents, unpackExponent_packComponents,
        unpackMantissa_packComponents, hexponent, hmantissa, hm', he]
    · obtain rfl : e = -1074 := hnormal.resolve_left hm
      have hlog : m.log2 + 1 ≠ Format.binary64.mantissaBits := by
        have : m.log2 < 52 := (Nat.log2_lt hpos.ne').2 (by omega)
        change m.log2 + 1 ≠ 53
        omega
      have hpack : UnpackedFloat.pack Format.binary64 (.finite s m (-1074) hpos) =
          packComponents Format.binary64 s 0#_ (BitVec.ofNat _ m) := by
        simp only [UnpackedFloat.pack, hbiased]
        rw [if_neg (by decide), if_neg hlog]
      have hmantissa : (BitVec.ofNat 52 m).toNat = m := by
        rw [BitVec.toNat_ofNat]
        omega
      rw [hpack, unpack_subnormal (by rw [unpackExponent_packComponents]; rfl)
        (by rw [unpackMantissa_packComponents, hmantissa]; exact hpos)]
      simp only [signOf_packComponents, unpackMantissa_packComponents, hmantissa]

end Proper

/-! ### The largest double -/

theorem rankOf_largest : rankOf Scalar.largest = toLex (1, toLex (971, 2 ^ 53 - 1)) := by
  decide

theorem rankOf_neg_largest :
    rankOf (-Scalar.largest) = toLex (-1, toLex (-971, -(2 ^ 53 - 1))) := by
  decide

theorem rankOf_infinity : rankOf Scalar.infinity = toLex (2, toLex (0, 0)) := by
  decide

theorem rankOf_neg_infinity : rankOf (-Scalar.infinity) = toLex (-2, toLex (0, 0)) := by
  decide

/-- Beyond the largest double there are the infinities only. -/
theorem rankOf_cases (x : Float) :
    rankOf x = rankOf Scalar.infinity ∨ rankOf x = rankOf (-Scalar.infinity) ∨
      rankOf (-Scalar.largest) ≤ rankOf x ∧ rankOf x ≤ rankOf Scalar.largest := by
  rw [rankOf_infinity, rankOf_neg_infinity, rankOf_largest, rankOf_neg_largest]
  by_cases hfinite : x.toModel.unpack.isFinite = true
  · have hproper : Proper x.toModel.unpack := proper_unpack hfinite
    refine .inr (.inr ?_)
    unfold rankOf
    generalize x.toModel.unpack = f at hproper
    cases hproper with
    | zero s => cases s <;> decide
    | @finite s m e h =>
      obtain ⟨hpos, hlt, hleast, hgreatest, hnormal⟩ := h
      cases s <;> dsimp only [rank] <;> rw [← not_lt, ← not_lt, toLex_lt, toLex_lt] <;> omega
  · unfold rankOf
    cases h : x.toModel.unpack with
    | infinity s => cases s <;> simp [rank]
    | notANumber => exact .inr (.inr (by decide))
    | zero s =>
      rw [h] at hfinite
      exact absurd rfl hfinite
    | finite s m e hm =>
      rw [h] at hfinite
      exact absurd rfl hfinite

theorem largest_lt_iff {x : Float} : Scalar.largest < x ↔ (x == Scalar.infinity) = true := by
  have hlt := lt_iff.1 (OrderedScalar.largest_lt (α := Float))
  rw [lt_iff, beq_iff]
  constructor
  · rintro ⟨-, hx, h⟩
    refine ⟨hx, hlt.2.1, ?_⟩
    obtain htop | hbottom | ⟨-, hle⟩ := rankOf_cases x
    · exact htop
    · rw [hbottom, rankOf_neg_infinity, rankOf_largest] at h
      exact absurd h (by decide)
    · exact absurd h hle.not_gt
  · rintro ⟨hx, -, h⟩
    exact ⟨hlt.1, hx, h ▸ hlt.2.2⟩

theorem lt_neg_largest_iff {x : Float} :
    x < -Scalar.largest ↔ (x == -Scalar.infinity) = true := by
  have hlt := lt_iff.1 (OrderedScalar.lt_neg_largest (α := Float))
  rw [lt_iff, beq_iff]
  constructor
  · rintro ⟨hx, -, h⟩
    refine ⟨hx, hlt.1, ?_⟩
    obtain htop | hbottom | ⟨hle, -⟩ := rankOf_cases x
    · rw [htop, rankOf_infinity, rankOf_neg_largest] at h
      exact absurd h (by decide)
    · exact hbottom
    · exact absurd h hle.not_gt
  · rintro ⟨hx, -, h⟩
    exact ⟨hx, hlt.2.1, h ▸ hlt.2.2⟩

/-! ### Binary forms -/

/-- The binary form of what was unpacked. -/
def form? : UnpackedFloat → Option BinaryForm
  | .zero s => some ⟨s == .negative, 0, -1074⟩
  | .finite s m e _ => some ⟨s == .negative, m, e⟩
  | _ => none

theorem ofFloat?_eq (x : Float) : BinaryForm.ofFloat? x = form? x.toModel.unpack := by
  let b : Bits := x.toModel.toBits.toBitVec
  have hnat : x.toBits.toNat = b.toNat := rfl
  have hexponent := toNat_unpackExponent b
  have hmantissa := toNat_unpackMantissa b
  change _ = form? (UnpackedFloat.unpack Format.binary64 b)
  simp only [BinaryForm.ofFloat?, hnat, twoTo_eq, ← signOf_beq, ← hexponent, ← hmantissa]
  split_ifs with hlast hfirst
  · have hinfinite := unpack_last hlast
    cases h : UnpackedFloat.unpack Format.binary64 b <;> rw [h] at hinfinite <;>
      first | rfl | cases hinfinite
  · rcases Nat.eq_zero_or_pos (unpackMantissa b).toNat with hm | hm
    · rw [unpack_zero hfirst hm, hm]
      rfl
    · rw [unpack_subnormal hfirst hm]
      rfl
  · rw [unpack_normal hfirst hlast, Nat.add_comm]
    rfl

end MixedInteger.DoubleParts
