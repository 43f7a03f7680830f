import DeskScript.Number.Binary
import Mathlib

/-!
# Natural numbers among the floating-point ones

A natural number becomes the floating-point number nearest to it, ties to even. Rounding
never passes a number of the format: what is at most a finite number `x` stays at most `x`.

    n ≤ wholePart x → Float.ofNat n ≤ x        (ofNat_le_of_le_wholePart)

This holds also where `n` itself is not a number of the format, and it is why an index
that was compared with a length as floating-point numbers is below that length.
-/

namespace DeskScript

open Float.Model Float.Model.UnpackedFloat

namespace Number

/-! ## Shifting and rounding a mantissa -/

theorem mantissa_shiftRight (em : ExtendedMantissa) (k : Nat) :
    (em >>> k).mantissa = em.mantissa / 2 ^ k := by
  induction k with
  | zero => exact (Nat.div_one _).symm
  | succ k ih =>
    show (em >>> k).mantissa / 2 = _
    rw [ih, Nat.div_div_eq_div_mul, Nat.pow_succ]

/-- No bit is lost where there are zeros only. -/
theorem shiftRight_mul_pow (m k : Nat) :
    (⟨m * 2 ^ k, false, false⟩ : ExtendedMantissa) >>> k = ⟨m, false, false⟩ := by
  induction k generalizing m with
  | zero =>
    show (⟨m * 1, false, false⟩ : ExtendedMantissa) = _
    rw [Nat.mul_one]
  | succ k ih =>
    show ((⟨m * 2 ^ (k + 1), false, false⟩ : ExtendedMantissa) >>> k).shiftRightOne = _
    rw [Nat.pow_succ', ← Nat.mul_assoc, ih]
    simp [ExtendedMantissa.shiftRightOne]

theorem roundedMantissa_cases (em : ExtendedMantissa) :
    em.roundedMantissa = em.mantissa ∨ em.roundedMantissa = em.mantissa + 1 := by
  obtain ⟨m, round, sticky⟩ := em
  cases round <;> cases sticky <;>
    simp only [ExtendedMantissa.roundedMantissa, ExtendedMantissa.accuracy,
      Accuracy.roundToNearestEven, true_or, or_true]
  omega

/-! ## Rounding to the format -/

/-- A mantissa of full length with the exponent of a number of the format. -/
structure Normal (m : Nat) (e : Int) : Prop where
  low : 2 ^ 52 ≤ m
  high : m < 2 ^ 53
  least : -1074 ≤ e

/-- The mantissa and the exponent of a finite number: a mantissa is short only if the exponent is
the least one. -/
structure Canonical (m : Nat) (e : Int) : Prop where
  high : m < 2 ^ 53
  least : -1074 ≤ e
  greatest : e ≤ 971
  low : 2 ^ 52 ≤ m ∨ e = -1074

/-- The order of the format: by exponents first. -/
def AtMost (r : Nat) (t : Int) (m : Nat) (e : Int) : Prop := t < e ∨ t = e ∧ r ≤ m

theorem log2_eq_of_normal {m : Nat} (low : 2 ^ 52 ≤ m) (high : m < 2 ^ 53) : m.log2 = 52 := by
  have hm : m ≠ 0 := by omega
  exact (Nat.log2_eq_iff hm).mpr ⟨low, high⟩

theorem log2_mul_pow {n : Nat} (hn : 0 < n) (i : Nat) : (n * 2 ^ i).log2 = n.log2 + i := by
  have hunit := Nat.two_pow_pos i
  refine (Nat.log2_eq_iff (by positivity)).mpr ⟨?_, ?_⟩
  · rw [Nat.pow_add]
    exact Nat.mul_le_mul_right _ (Nat.log2_self_le (by omega))
  · rw [Nat.add_right_comm, Nat.pow_add]
    exact Nat.mul_lt_mul_of_pos_right Nat.lt_log2_self hunit

/-- The bits that a long mantissa has too many. -/
def excess (m : Nat) : Nat := m.log2 - 52

theorem shiftToTargetExponent_of_long {m : Nat} {e : Int} (hm : 2 ^ 52 ≤ m) (he : -1074 ≤ e) :
    shiftToTargetExponent .binary64 m e .exact =
      ((⟨m, false, false⟩ : ExtendedMantissa) >>> excess m, e + excess m) := by
  have hlog : 52 ≤ m.log2 := (Nat.le_log2 (by omega)).mpr hm
  have htarget : (Format.binary64.targetExponent (totalExponent m e) - e).toNat = excess m := by
    simp only [Format.targetExponent, totalExponent, Format.mantissaBits, Format.minExponent,
      excess]
    omega
  simp only [shiftToTargetExponent, shiftToExponent, htarget,
    ExtendedMantissa.ofMantissaAndAccuracy]

/-- The mantissa of full length that a long one is cut to. -/
theorem normal_div {m : Nat} {e : Int} (hm : 2 ^ 52 ≤ m) (he : -1074 ≤ e) :
    Normal (m / 2 ^ excess m) (e + excess m) := by
  have hne : m ≠ 0 := by omega
  have hlog : 52 ≤ m.log2 := (Nat.le_log2 hne).mpr hm
  have hlow : 2 ^ 52 * 2 ^ excess m ≤ m := by
    rw [← Nat.pow_add, excess, Nat.add_sub_cancel' hlog]
    exact Nat.log2_self_le hne
  have hhigh : m < 2 ^ excess m * 2 ^ 53 := by
    rw [← Nat.pow_add, excess, show m.log2 - 52 + 53 = m.log2 + 1 by omega]
    exact Nat.lt_log2_self
  refine ⟨(Nat.le_div_iff_mul_le (Nat.two_pow_pos _)).mpr hlow, ?_, by omega⟩
  exact Nat.div_lt_of_lt_mul hhigh

/-- A long mantissa cut to full length and rounded. -/
def rounded (m : Nat) : Nat :=
  ((⟨m, false, false⟩ : ExtendedMantissa) >>> excess m).roundedMantissa

theorem rounded_cases (m : Nat) :
    rounded m = m / 2 ^ excess m ∨ rounded m = m / 2 ^ excess m + 1 := by
  have hcases := roundedMantissa_cases ((⟨m, false, false⟩ : ExtendedMantissa) >>> excess m)
  rwa [mantissa_shiftRight] at hcases

theorem rounded_le {M m : Nat} (h : M ≤ m * 2 ^ excess M) : rounded M ≤ m := by
  have hle : M / 2 ^ excess M ≤ m := Nat.div_le_of_le_mul (by rwa [Nat.mul_comm])
  rcases Nat.lt_or_eq_of_le hle with hless | hsame
  · have hcases := rounded_cases M
    omega
  · -- Nothing is cut off, so there is nothing to round.
    have hback : M / 2 ^ excess M * 2 ^ excess M ≤ M := Nat.div_mul_le_self _ _
    rw [hsame] at hback
    have hshift := shiftRight_mul_pow m (excess M)
    rw [← Nat.le_antisymm h hback] at hshift
    rw [rounded, hshift]
    exact Nat.le_refl m

/-- If rounding makes a mantissa too long once more, it is the least one with the next exponent. -/
theorem roundWithAccuracy_of_long {m : Nat} {e : Int} (s : Sign) (hm : 2 ^ 52 ≤ m)
    (he : -1074 ≤ e) :
    (Normal (rounded m) (e + excess m) ∧
      ∃ h, roundWithAccuracy .binary64 s m e .exact = .finite s (rounded m) (e + excess m) h) ∨
    (rounded m = 2 ^ 53 ∧
      ∃ h, roundWithAccuracy .binary64 s m e .exact = .finite s (2 ^ 52) (e + excess m + 1) h) := by
  obtain ⟨hlow, hhigh, hleast⟩ := normal_div hm he
  have hcases := rounded_cases m
  have hfull : 2 ^ 52 ≤ rounded m := by omega
  have hround : roundWithAccuracy .binary64 s m e .exact =
      if h : rounded m / 2 ^ excess (rounded m) = 0 then .zero s
      else .finite s (rounded m / 2 ^ excess (rounded m)) (e + excess m + excess (rounded m))
        (Nat.pos_of_ne_zero h) := by
    unfold rounded at hfull ⊢
    simp only [roundWithAccuracy, shiftToTargetExponent_of_long hm he,
      shiftToTargetExponent_of_long hfull hleast, mantissa_shiftRight]
  by_cases hshort : rounded m < 2 ^ 53
  · have hnone : excess (rounded m) = 0 := by
      rw [excess, log2_eq_of_normal hfull hshort]
    refine Or.inl ⟨⟨hfull, hshort, hleast⟩, by omega, ?_⟩
    rw [hround, dif_neg (by rw [hnone]; omega)]
    simp [hnone]
  · have hcarry : rounded m = 2 ^ 53 := by omega
    have hone : excess (2 ^ 53) = 1 := by rw [excess, Nat.log2_two_pow]
    refine Or.inr ⟨hcarry, by omega, ?_⟩
    rw [hround, dif_neg (by rw [hcarry, hone]; omega)]
    simp only [hcarry, hone]
    rfl

/-- Rounding does not pass a number of the format. -/
theorem round_atMost {M m : Nat} {E e : Int} (s : Sign) (hM : 2 ^ 52 ≤ M) (hE : -1074 ≤ E)
    (hm : Canonical m e) (hEe : E ≤ e) (h : M ≤ m * 2 ^ (e - E).toNat) :
    ∃ r t hr, roundWithAccuracy .binary64 s M E .exact = .finite s r t hr ∧ Normal r t ∧
      AtMost r t m e := by
  obtain ⟨hlow, hhigh, hleast⟩ := normal_div hM hE
  have hround := roundWithAccuracy_of_long s hM hE
  rcases Int.lt_trichotomy (E + excess M) e with hlt | heq | hgt
  · rcases hround with ⟨hr, hpos, hround⟩ | ⟨-, hpos, hround⟩
    · exact ⟨_, _, hpos, hround, hr, Or.inl hlt⟩
    · -- The least mantissa with the next exponent is at most `m` if that has this exponent.
      refine ⟨_, _, hpos, hround, ⟨by omega, by omega, by omega⟩, ?_⟩
      have hfull : 2 ^ 52 ≤ m := hm.low.resolve_right (by omega)
      unfold AtMost
      omega
  · have hk : (e - E).toNat = excess M := by omega
    rw [hk] at h
    have hle := rounded_le h
    rcases hround with ⟨hr, hpos, hround⟩ | ⟨hr, -⟩
    · exact ⟨_, _, hpos, hround, hr, Or.inr ⟨heq, hle⟩⟩
    · have := hm.high
      omega
  · -- `M` would have more bits than `m` can have.
    exfalso
    have hM' : 2 ^ 52 * 2 ^ excess M ≤ M := (Nat.le_div_iff_mul_le (Nat.two_pow_pos _)).mp hlow
    have hpow : 2 ^ 53 * 2 ^ (e - E).toNat ≤ 2 ^ 52 * 2 ^ excess M := by
      rw [← Nat.pow_add, ← Nat.pow_add]
      exact Nat.pow_le_pow_right (by omega) (by omega)
    have hlt : m * 2 ^ (e - E).toNat < 2 ^ 53 * 2 ^ (e - E).toNat :=
      Nat.mul_lt_mul_of_pos_right hm.high (Nat.two_pow_pos _)
    omega

/-! ## Numbers as words -/

theorem unpackSign_packComponents {spec : Format} (s : Sign) (e : BitVec spec.exponentBits)
    (m : BitVec spec.mantissaBitsWithoutImplicit) :
    unpackSign (packComponents spec s e m) = s.toBitVec := by
  ext i hi
  obtain rfl : i = 0 := by omega
  simp [unpackSign, packComponents, BitVec.getLsbD_append, BitVec.getLsbD_eq_getElem,
    BitVec.getElem_append]

theorem ofBitVec_toBitVec (s : Sign) : Sign.ofBitVec s.toBitVec = s := by
  cases s <;> rfl

theorem toNat_one_append (m : BitVec 52) : (1#1 ++ m).toNat = m.toNat + 2 ^ 52 := by
  rw [BitVec.toNat_append, Nat.shiftLeft_eq, Nat.mul_comm,
    ← Nat.two_pow_add_eq_or_of_lt m.isLt]
  exact Nat.add_comm _ _

/-- A number of the format is packed without loss. -/
theorem unpack_pack {r : Nat} {t : Int} (h : Normal r t) (ht : t ≤ 971) (s : Sign) (hr : 0 < r) :
    UnpackedFloat.unpack .binary64 (UnpackedFloat.pack .binary64 (.finite s r t hr)) =
      .finite s r t hr := by
  obtain ⟨hlow, hhigh, hleast⟩ := h
  have hpack : UnpackedFloat.pack .binary64 (.finite s r t hr) =
      packComponents .binary64 s (BitVec.ofNat 11 (t + 1075).toNat) (BitVec.ofNat 52 r) := by
    have hbiased : (t + Format.binary64.exponentBias + (52 : Nat)).toNat = (t + 1075).toNat := by
      simp only [Format.exponentBias]
      omega
    simp only [UnpackedFloat.pack, hbiased]
    rw [if_neg (by omega), if_pos (by rw [log2_eq_of_normal hlow hhigh]; rfl)]
  have hsmall : (BitVec.ofNat 11 (t + 1075).toNat).toNat = (t + 1075).toNat := by
    rw [BitVec.toNat_ofNat]
    exact Nat.mod_eq_of_lt (by omega)
  have hmant : (1#1 ++ BitVec.ofNat 52 r).toNat = r := by
    rw [toNat_one_append, BitVec.toNat_ofNat]
    omega
  have hfinite : BitVec.ofNat 11 (t + 1075).toNat ≠ -1#11 := by
    rw [ne_eq, ← BitVec.toNat_inj, hsmall]
    simp
    omega
  have hnormal : BitVec.ofNat 11 (t + 1075).toNat ≠ 0#11 := by
    rw [ne_eq, ← BitVec.toNat_inj, hsmall]
    simp
    omega
  rw [hpack, UnpackedFloat.unpack]
  simp only [unpackMantissa_packComponents, unpackExponent_packComponents,
    unpackSign_packComponents, ofBitVec_toBitVec]
  rw [if_neg hfinite, if_neg hnormal]
  congr 1
  rw [hsmall]
  simp only [Format.exponentBias]
  omega

/-- The word of a number. -/
def word (x : Float) : BitVec Format.binary64.numBits := x.toModel.toBits.toBitVec

theorem exponentField_eq (x : Float) : exponentField x = (unpackExponent (word x)).toNat := by
  have hright : (unpackExponent (word x)).toNat = (x.toBits.toNat >>> 52) % 2 ^ 11 := by
    simp [unpackExponent, word, Float.toBits]
  have hleft : exponentField x = (x.toBits.toNat >>> 52) &&& (2 ^ 11 - 1) := by
    simp [exponentField]
  rw [hleft, hright, Nat.and_two_pow_sub_one_eq_mod]

theorem fractionField_eq (x : Float) : fractionField x = (unpackMantissa (word x)).toNat := by
  have hright : (unpackMantissa (word x)).toNat = x.toBits.toNat % 2 ^ 52 := by
    simp [unpackMantissa, word, Float.toBits]
  have hleft : fractionField x = x.toBits.toNat &&& (2 ^ 52 - 1) := by
    simp [fractionField]
  rw [hleft, hright, Nat.and_two_pow_sub_one_eq_mod]

theorem fractionField_lt (x : Float) : fractionField x < 2 ^ 52 := by
  rw [fractionField_eq]
  exact BitVec.isLt _

/-- The parts of a finite number that is not zero are its mantissa and its exponent. -/
theorem unpack_of_isFinite {x : Float} (h : x.isFinite) : Canonical (mantissa x) (exponent x) ∧
    ((mantissa x = 0 ∧ ∃ s, x.toModel.unpack = .zero s) ∨
      ∃ s hm, x.toModel.unpack = .finite s (mantissa x) (exponent x) hm) := by
  have hfraction := fractionField_lt x
  have hbias : (Format.binary64.exponentBias : Int) = 1023 := by decide
  obtain ⟨u, hu⟩ : ∃ u, x.toModel.unpack = u := ⟨_, rfl⟩
  have hfinite : x.toModel.unpack.isFinite := h
  rw [hu] at hfinite ⊢
  change UnpackedFloat.unpack .binary64 (word x) = u at hu
  simp only [UnpackedFloat.unpack, hbias] at hu
  by_cases hlarge : unpackExponent (word x) = -1#11
  · rw [if_pos hlarge] at hu
    split at hu <;> subst hu <;> cases hfinite
  have hfield : exponentField x ≠ 2047 := by
    rw [exponentField_eq]
    exact fun hf => hlarge (BitVec.eq_of_toNat_eq hf)
  have hexponent : exponentField x < 2048 := by
    rw [exponentField_eq]
    exact BitVec.isLt _
  rw [if_neg hlarge] at hu
  by_cases hsmall : unpackExponent (word x) = 0#11
  · have hzero : exponentField x = 0 := by rw [exponentField_eq, hsmall]; rfl
    have hmant : mantissa x = fractionField x := if_pos hzero
    have hexp : exponent x = -1074 := by
      unfold exponent
      omega
    rw [hmant, hexp]
    refine ⟨⟨by omega, by omega, by omega, Or.inr rfl⟩, ?_⟩
    rw [if_pos hsmall, hsmall] at hu
    rw [fractionField_eq]
    split at hu
    · next hnone => exact Or.inl ⟨by rw [hnone]; rfl, _, hu.symm⟩
    · exact Or.inr ⟨_, _, hu.symm⟩
  · have hzero : exponentField x ≠ 0 := by
      rw [exponentField_eq]
      exact fun hf => hsmall (BitVec.eq_of_toNat_eq hf)
    have hmant : mantissa x = fractionField x + 2 ^ 52 := if_neg hzero
    have hexp : exponent x = exponentField x - 1075 := by
      unfold exponent
      omega
    rw [hmant, hexp]
    refine ⟨⟨by omega, by omega, by omega, Or.inl (by omega)⟩, Or.inr ?_⟩
    rw [if_neg hsmall] at hu
    refine ⟨Sign.ofBitVec (unpackSign (word x)), by omega, hu.symm.trans ?_⟩
    congr 1
    · rw [toNat_one_append, fractionField_eq]
    · rw [exponentField_eq]
      omega

/-! ## Natural numbers -/

theorem le_iff {x y : Float} : x ≤ y ↔ x.toModel.unpack.le y.toModel.unpack = true :=
  decide_eq_true_iff

theorem lt_iff {x y : Float} : x < y ↔ x.toModel.unpack.lt y.toModel.unpack = true :=
  decide_eq_true_iff

theorem unpack_ofNat_zero : (Float.ofNat 0).toModel.unpack = .zero .positive := rfl

theorem unpack_one : (Float.ofBits 0x3FF0000000000000).toModel.unpack =
    .finite .positive (2 ^ 52) (-52) (Nat.two_pow_pos _) := rfl

/-- A number of at most 53 bits is one of the format. -/
theorem round_of_short {n : Nat} (hn : 0 < n) (h : n < 2 ^ 53) :
    Normal (n * 2 ^ (52 - n.log2)) (-(52 - n.log2 : Nat)) ∧
    UnpackedFloat.round .binary64 .positive n 0 =
      .finite .positive (n * 2 ^ (52 - n.log2)) (-(52 - n.log2 : Nat))
        (Nat.mul_pos hn (Nat.two_pow_pos _)) := by
  have hlog : n.log2 ≤ 52 := Nat.le_of_lt_succ ((Nat.log2_lt (by omega)).mpr h)
  have hlow : 2 ^ 52 ≤ n * 2 ^ (52 - n.log2) := by
    calc 2 ^ 52 = 2 ^ n.log2 * 2 ^ (52 - n.log2) := by
          rw [← Nat.pow_add, Nat.add_sub_cancel' hlog]
      _ ≤ n * 2 ^ (52 - n.log2) := Nat.mul_le_mul_right _ (Nat.log2_self_le (by omega))
  have hhigh : n * 2 ^ (52 - n.log2) < 2 ^ 53 := by
    calc n * 2 ^ (52 - n.log2) < 2 ^ (n.log2 + 1) * 2 ^ (52 - n.log2) :=
          Nat.mul_lt_mul_of_pos_right Nat.lt_log2_self (Nat.two_pow_pos _)
      _ = 2 ^ 53 := by
          rw [← Nat.pow_add]
          congr 1
          omega
  have hleast : -1074 ≤ (-(52 - n.log2 : Nat) : Int) := by omega
  refine ⟨⟨hlow, hhigh, hleast⟩, ?_⟩
  have hnone : excess (n * 2 ^ (52 - n.log2)) = 0 := by rw [excess, log2_eq_of_normal hlow hhigh]
  have hsame : rounded (n * 2 ^ (52 - n.log2)) = n * 2 ^ (52 - n.log2) := by
    rw [rounded, hnone]
    rfl
  have htarget : (-Format.binary64.targetExponent (totalExponent n 0)).toNat = 52 - n.log2 := by
    simp only [Format.targetExponent, totalExponent, Format.mantissaBits, Format.minExponent]
    omega
  have hround : UnpackedFloat.round .binary64 .positive n 0 =
      roundWithAccuracy .binary64 .positive (n * 2 ^ (52 - n.log2)) (-(52 - n.log2 : Nat))
        .exact := by
    simp only [UnpackedFloat.round, decreaseExponent, htarget, Nat.shiftLeft_eq, Int.zero_sub]
  rw [hround]
  rcases roundWithAccuracy_of_long .positive hlow hleast with ⟨-, hpos, hexact⟩ | ⟨hcarry, -⟩
  · simpa only [hsame, hnone, Int.natCast_zero, Int.add_zero] using hexact
  · omega

theorem le_scaled {x : Float} {n i : Nat} (hn : 0 < n) (hx : x.isFinite) (h : n ≤ wholePart x)
    (hi : 52 ≤ i) :
    -(i : Int) ≤ exponent x ∧ n * 2 ^ i ≤ mantissa x * 2 ^ (exponent x - -(i : Int)).toNat := by
  obtain ⟨hcanonical, -⟩ := unpack_of_isFinite hx
  unfold wholePart at h
  split at h
  · next hexp =>
    refine ⟨by omega, ?_⟩
    rw [Nat.shiftLeft_eq] at h
    have hsum : (exponent x - -(i : Int)).toNat = (exponent x).toNat + i := by omega
    rw [hsum, Nat.pow_add, ← Nat.mul_assoc]
    exact Nat.mul_le_mul_right _ h
  · next hexp =>
    rw [Nat.shiftRight_eq_div_pow, Nat.le_div_iff_mul_le (Nat.two_pow_pos _)] at h
    have hlt : 2 ^ (-exponent x).toNat < 2 ^ 53 := by
      refine Nat.lt_of_le_of_lt ?_ hcanonical.high
      exact Nat.le_trans (Nat.le_mul_of_pos_left _ hn) h
    have hle := (Nat.pow_lt_pow_iff_right (by omega)).mp hlt
    refine ⟨by omega, ?_⟩
    have hsum : i = (-exponent x).toNat + (exponent x - -(i : Int)).toNat := by omega
    calc n * 2 ^ i = n * 2 ^ (-exponent x).toNat * 2 ^ (exponent x - -(i : Int)).toNat := by
          rw [Nat.mul_assoc, ← Nat.pow_add, ← hsum]
      _ ≤ mantissa x * 2 ^ (exponent x - -(i : Int)).toNat := Nat.mul_le_mul_right _ h

theorem unpack_toFloat_of_short {n : Nat} (hn : 0 < n) (h : n < 2 ^ 53) :
    n.toUInt64.toFloat.toModel.unpack =
      .finite .positive (n * 2 ^ (52 - n.log2)) (-(52 - n.log2 : Nat))
        (Nat.mul_pos hn (Nat.two_pow_pos _)) := by
  obtain ⟨hnormal, hround⟩ := round_of_short hn h
  have hword : n.toUInt64.toNat = n := UInt64.toNat_ofNat_of_lt' (by simp [UInt64.size]; omega)
  have hnat : UnpackedFloat.ofNat .binary64 n = UnpackedFloat.round .binary64 .positive n 0 := by
    have hcompare : compare (n : Int) 0 = .gt := Int.compare_eq_gt.mpr (by omega)
    simp only [UnpackedFloat.ofNat, UnpackedFloat.ofInt, UnpackedFloat.normalize, hcompare,
      Int.toNat_natCast]
  show UnpackedFloat.unpack .binary64
    (UnpackedFloat.pack .binary64 (UnpackedFloat.ofNat .binary64 n.toUInt64.toNat)) = _
  rw [hword, hnat, hround]
  exact unpack_pack hnormal (by omega) _ _

/-- A natural number is rounded once. -/
theorem ofNat_eq {n : Nat} (hn : 0 < n) : ∃ i : Nat, 52 ≤ i ∧ i ≤ 104 ∧
    Float.ofNat n =
      .ofModel (.pack (roundWithAccuracy .binary64 .positive (n * 2 ^ i) (-i) .exact)) := by
  by_cases hshort : n < 2 ^ 53
  · -- a word, times one
    have hfast : Float.ofNat n = n.toUInt64.toFloat * Float.ofBits 0x3FF0000000000000 :=
      dif_pos ⟨hshort, by decide⟩
    refine ⟨52 - n.log2 + 52, by omega, by omega, ?_⟩
    rw [hfast]
    show Float.ofModel (.pack (UnpackedFloat.mul _ n.toUInt64.toFloat.toModel.unpack
      (Float.ofBits 0x3FF0000000000000).toModel.unpack)) = _
    rw [unpack_toFloat_of_short hn hshort, unpack_one]
    simp only [UnpackedFloat.mul, Nat.mul_assoc, ← Nat.pow_add, Int.natCast_add, Int.neg_add]
    rfl
  · refine ⟨53, by omega, by omega, ?_⟩
    have hslow : Float.ofNat n = .ofModel (Float.Model.ofScientific n 0) :=
      dif_neg fun h => hshort h.1
    have hscale : n * 2 ^ Format.binary64.mantissaBits * 10 ^ Int.toNat 0 = n * 2 ^ 53 :=
      Nat.mul_one _
    have hbits : (2 : Int) ^ Format.binary64.exponentBits = 2048 := rfl
    rw [hslow, Float.Model.ofScientific, UnpackedFloat.ofScientific, dif_neg (by omega)]
    rw [if_neg (by decide), if_neg (by rw [hbits]; omega), if_pos (by decide)]
    simp only [UnpackedFloat.mul, Nat.shiftLeft_eq, hscale]
    rfl

/-- What is at most the whole part of a finite number becomes a number that is at most it. -/
theorem ofNat_le_of_le_wholePart {x : Float} {n : Nat} (hx : x.isFinite) (hpos : ¬ x < 0)
    (h : n ≤ wholePart x) : Float.ofNat n ≤ x := by
  rw [le_iff]
  rw [lt_iff, show (0 : Float).toModel.unpack = _ from unpack_ofNat_zero] at hpos
  obtain ⟨hcanonical, hunpack⟩ := unpack_of_isFinite hx
  rcases Nat.eq_zero_or_pos n with rfl | hn
  · rw [unpack_ofNat_zero]
    rcases hunpack with ⟨-, s, hs⟩ | ⟨s, hm, hs⟩ <;> rw [hs] at hpos ⊢
    · rfl
    · cases s with
      | negative => exact absurd rfl hpos
      | positive => rfl
  · obtain ⟨i, hi, hi', hof⟩ := ofNat_eq hn
    obtain ⟨hleast, hscaled⟩ := le_scaled hn hx h hi
    have hlong : 2 ^ 52 ≤ n * 2 ^ i :=
      Nat.le_trans (Nat.pow_le_pow_right (by omega) hi) (Nat.le_mul_of_pos_left _ hn)
    obtain ⟨r, t, hr, hround, hnormal, hle⟩ :=
      round_atMost .positive hlong (by omega) hcanonical hleast hscaled
    have ht : t ≤ 971 := by
      have := hcanonical.greatest
      unfold AtMost at hle
      omega
    have hunpackr : (Float.ofNat n).toModel.unpack = .finite .positive r t hr := by
      rw [hof, hround]
      exact unpack_pack hnormal ht _ hr
    rw [hunpackr]
    rcases hunpack with ⟨hm, -⟩ | ⟨s, hm, hs⟩
    · rw [hm, Nat.zero_mul] at hscaled
      omega
    · rw [hs] at hpos ⊢
      cases s with
      | negative => exact absurd rfl hpos
      | positive =>
        simp only [UnpackedFloat.le, UnpackedFloat.compare, Option.any_some]
        rcases hle with hlt | ⟨heq, hle⟩
        · rw [Int.compare_eq_lt.mpr hlt]
          rfl
        · rw [Int.compare_eq_eq.mpr heq]
          exact Nat.isLE_compare.mpr hle

end Number

end DeskScript
