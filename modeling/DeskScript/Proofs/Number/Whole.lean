import DeskScript.Proofs.Number.Rounding

/-!
# Equal numbers, and whole numbers as integers

Two numbers are equal if they have the same parts and are not NaN, or if both are zeros
(`beq_iff`). Equality is therefore symmetric and transitive, and a number is equal to
itself unless it is NaN.

A whole number of moderate size is the same number again when it comes back from its
integer, except that the integer 0 has no sign:

    isWhole x → x.abs < 9e15 → Float.ofInt (toInt x) = if x == 0 then 0 else x     (ofInt_toInt)

There the number is exact: below the limit it has at most 53 bits, and no bit of it is
lost in rounding.
-/

namespace DeskScript

open Float.Model Float.Model.UnpackedFloat

namespace Number

/-! ## Equality -/

theorem compare_eq_iff {a b : UnpackedFloat} : UnpackedFloat.compare a b = some .eq ↔
    a = b ∧ a ≠ .notANumber ∨ (∃ s, a = .zero s) ∧ ∃ s, b = .zero s := by
  cases a with
  | notANumber => simp [UnpackedFloat.compare]
  | infinity s =>
    cases b with
    | infinity t => cases s <;> cases t <;> simp [UnpackedFloat.compare] <;> decide
    | _ => cases s <;> simp [UnpackedFloat.compare]
  | zero s =>
    cases b with
    | infinity t => cases t <;> simp [UnpackedFloat.compare]
    | finite t => cases t <;> simp [UnpackedFloat.compare]
    | _ => simp [UnpackedFloat.compare]
  | finite s m e hm =>
    cases b with
    | infinity t => cases t <;> simp [UnpackedFloat.compare]
    | finite t m' e' hm' =>
      cases s <;> cases t <;> simp [UnpackedFloat.compare, Ordering.then_eq_eq, and_comm]
    | notANumber => simp [UnpackedFloat.compare]
    | zero t => cases s <;> simp [UnpackedFloat.compare]

/-- Zero, with either sign. -/
def IsZero (x : Float) : Prop := ∃ s, x.toModel.unpack = .zero s

theorem beq_iff {x y : Float} : (x == y) = true ↔
    x.toModel.unpack = y.toModel.unpack ∧ x.isNaN = false ∨ IsZero x ∧ IsZero y := by
  have hnan : x.toModel.unpack ≠ .notANumber ↔ x.isNaN = false := by
    show _ ↔ x.toModel.unpack.isNaN = false
    cases x.toModel.unpack <;> simp [UnpackedFloat.isNaN]
  show (UnpackedFloat.compare x.toModel.unpack y.toModel.unpack == some .eq) = true ↔ _
  rw [beq_iff_eq, compare_eq_iff, hnan]
  rfl

theorem beq_self_iff {x : Float} : (x == x) = true ↔ x.isNaN = false := by
  rw [beq_iff]
  refine ⟨?_, fun h => .inl ⟨rfl, h⟩⟩
  rintro (⟨-, h⟩ | ⟨⟨s, hs⟩, -⟩)
  · exact h
  · show x.toModel.unpack.isNaN = false
    rw [hs]
    rfl

theorem isNaN_congr {x y : Float} (h : x.toModel.unpack = y.toModel.unpack) :
    x.isNaN = y.isNaN :=
  congrArg UnpackedFloat.isNaN h

theorem beq_symm {x y : Float} (h : (x == y) = true) : (y == x) = true := by
  rw [beq_iff] at h ⊢
  rcases h with ⟨h, hx⟩ | ⟨hx, hy⟩
  · exact .inl ⟨h.symm, by rwa [← isNaN_congr h]⟩
  · exact .inr ⟨hy, hx⟩

theorem beq_trans {x y z : Float} (hxy : (x == y) = true) (hyz : (y == z) = true) :
    (x == z) = true := by
  rw [beq_iff] at hxy hyz ⊢
  rcases hxy with ⟨hxy, hx⟩ | ⟨hx, ⟨s, hs⟩⟩ <;> rcases hyz with ⟨hyz, -⟩ | ⟨⟨t, ht⟩, hz⟩
  · exact .inl ⟨hxy.trans hyz, hx⟩
  · exact .inr ⟨⟨t, hxy.trans ht⟩, hz⟩
  · exact .inr ⟨hx, ⟨s, hyz.symm.trans hs⟩⟩
  · exact .inr ⟨hx, hz⟩

theorem beq_zero_iff {x : Float} : (x == 0) = true ↔ IsZero x := by
  rw [beq_iff]
  constructor
  · rintro (⟨h, -⟩ | ⟨h, -⟩)
    · exact ⟨_, h⟩
    · exact h
  · exact fun h => .inr ⟨h, _, unpack_ofNat_zero⟩

/-! ## Fields -/

theorem signBit_eq (x : Float) : signBit x = (x.toBits.toNat / 2 ^ 63 == 1) := by
  simp [signBit, ← UInt64.toNat_inj, Nat.shiftRight_eq_div_pow]

/-- A number is made up of its fields. -/
theorem eq_of_fields {x y : Float} (hs : signBit x = signBit y)
    (he : exponentField x = exponentField y) (hf : fractionField x = fractionField y) : x = y := by
  have hexponent (z : Float) : exponentField z = z.toBits.toNat / 2 ^ 52 % 2 ^ 11 := by
    rw [exponentField_eq]
    simp [unpackExponent, word, Float.toBits, Nat.shiftRight_eq_div_pow]
  have hfraction (z : Float) : fractionField z = z.toBits.toNat % 2 ^ 52 := by
    rw [fractionField_eq]
    simp [unpackMantissa, word, Float.toBits]
  have hx := x.toBits.toNat_lt
  have hy := y.toBits.toNat_lt
  rw [hexponent, hexponent] at he
  rw [hfraction, hfraction] at hf
  rw [signBit_eq, signBit_eq, Bool.eq_iff_iff, beq_iff_eq, beq_iff_eq] at hs
  have hbits : x.toModel.toBits = y.toModel.toBits := UInt64.toNat_inj.mp (by
    change x.toBits.toNat = y.toBits.toNat
    omega)
  obtain ⟨⟨xbits, _⟩⟩ := x
  obtain ⟨⟨ybits, _⟩⟩ := y
  subst hbits
  rfl

/-- The sign of a number. -/
def sign (x : Float) : Sign := if signBit x then .negative else .positive

theorem ofBitVec_unpackSign (x : Float) : Sign.ofBitVec (unpackSign (word x)) = sign x := by
  have hword : (unpackSign (word x)).toNat = x.toBits.toNat / 2 ^ 63 % 2 := by
    simp [unpackSign, word, Float.toBits, Nat.shiftRight_eq_div_pow]
  have hlt := x.toBits.toNat_lt
  have hzero : unpackSign (word x) = 0#1 ↔ x.toBits.toNat / 2 ^ 63 % 2 = 0 := by
    rw [← BitVec.toNat_inj, hword]
    rfl
  rw [sign, signBit_eq, Sign.ofBitVec]
  by_cases h : x.toBits.toNat / 2 ^ 63 = 1
  · rw [if_neg (by rw [hzero]; omega), if_pos (by simpa using h)]
  · rw [if_pos (by rw [hzero]; omega), if_neg (by simpa using h)]

theorem sign_of_unpack {x : Float} {s : Sign} {m : Nat} {e : Int} {hm : 0 < m}
    (h : x.toModel.unpack = .finite s m e hm) : s = sign x := by
  change UnpackedFloat.unpack .binary64 (word x) = _ at h
  unfold UnpackedFloat.unpack at h
  simp only [ofBitVec_unpackSign] at h
  split at h
  · split at h <;> cases h
  · split at h
    · split at h
      · cases h
      · exact (UnpackedFloat.finite.inj h).1.symm
    · exact (UnpackedFloat.finite.inj h).1.symm

theorem isFinite_of_finite {x : Float} {s : Sign} {m : Nat} {e : Int} {hm : 0 < m}
    (h : x.toModel.unpack = .finite s m e hm) : x.isFinite := by
  show x.toModel.unpack.isFinite
  rw [h]
  rfl

theorem isFinite_of_zero {x : Float} {s : Sign} (h : x.toModel.unpack = .zero s) : x.isFinite := by
  show x.toModel.unpack.isFinite
  rw [h]
  rfl

theorem parts_of_unpack {x : Float} {s : Sign} {m : Nat} {e : Int} {hm : 0 < m}
    (h : x.toModel.unpack = .finite s m e hm) : mantissa x = m ∧ exponent x = e := by
  obtain ⟨-, ⟨-, t, ht⟩ | ⟨t, hm', ht⟩⟩ := unpack_of_isFinite (isFinite_of_finite h)
  · rw [h] at ht
    cases ht
  · rw [h] at ht
    obtain ⟨-, hm, he⟩ := UnpackedFloat.finite.inj ht
    exact ⟨hm.symm, he.symm⟩

/-- There is one finite number of a sign, a mantissa and an exponent. -/
theorem eq_of_unpack {x y : Float} {s : Sign} {m : Nat} {e : Int} {hm : 0 < m}
    (hx : x.toModel.unpack = .finite s m e hm) (hy : y.toModel.unpack = .finite s m e hm) :
    x = y := by
  obtain ⟨hmx, hex⟩ := parts_of_unpack hx
  obtain ⟨hmy, hey⟩ := parts_of_unpack hy
  have hfx := fractionField_lt x
  have hfy := fractionField_lt y
  have hsign : signBit x = signBit y := by
    have h := (sign_of_unpack hx).symm.trans (sign_of_unpack hy)
    unfold sign at h
    cases hx' : signBit x <;> cases hy' : signBit y <;> simp_all
  unfold mantissa hiddenBit at hmx hmy
  unfold exponent at hex hey
  refine eq_of_fields hsign ?_ ?_ <;> split at hmx <;> split at hmy <;> omega

theorem eq_zero_or_eq_neg_zero {x : Float} (h : (x == 0) = true) : x = 0 ∨ x = -0 := by
  obtain ⟨s, hs⟩ := beq_zero_iff.mp h
  obtain ⟨-, ⟨hm, -⟩ | ⟨t, hm, ht⟩⟩ := unpack_of_isFinite (isFinite_of_zero hs)
  · unfold mantissa hiddenBit at hm
    have hfields : exponentField x = 0 ∧ fractionField x = 0 := by
      split at hm <;> omega
    cases hsign : signBit x with
    | false => exact .inl (eq_of_fields hsign hfields.1 hfields.2)
    | true => exact .inr (eq_of_fields hsign hfields.1 hfields.2)
  · rw [hs] at ht
    cases ht

/-! ## Natural numbers of at most 53 bits -/

/-- The bits after a mantissa of full length are those too many. -/
theorem excess_mul_pow {m : Nat} (low : 2 ^ 52 ≤ m) (high : m < 2 ^ 53) (k : Nat) :
    excess (m * 2 ^ k) = k := by
  rw [excess, log2_mul_pow (by omega), log2_eq_of_normal low high, Nat.add_sub_cancel_left]

/-- They are not rounded. -/
theorem unpack_ofNat_of_short {n : Nat} (hn : 0 < n) (h : n < 2 ^ 53) :
    ∃ hpos, (Float.ofNat n).toModel.unpack =
      .finite .positive (n * 2 ^ (52 - n.log2)) (-(52 - n.log2 : Nat)) hpos := by
  obtain ⟨hnormal, -⟩ := round_of_short hn h
  obtain ⟨i, hi, hi', hof⟩ := ofNat_eq hn
  have hlog : n.log2 ≤ 52 := Nat.le_of_lt_succ ((Nat.log2_lt (by omega)).mpr h)
  -- all bits but the first 53 are zero
  obtain ⟨k, hk⟩ : ∃ k, k + 52 = i + n.log2 := ⟨i + n.log2 - 52, by omega⟩
  have hsplit : n * 2 ^ i = n * 2 ^ (52 - n.log2) * 2 ^ k := by
    rw [Nat.mul_assoc, ← Nat.pow_add]
    congr 2
    omega
  have hexcess : excess (n * 2 ^ i) = k := by
    rw [hsplit, excess_mul_pow hnormal.low hnormal.high]
  have hrounded : rounded (n * 2 ^ i) = n * 2 ^ (52 - n.log2) := by
    rw [rounded, hexcess, hsplit, shiftRight_mul_pow]
    rfl
  have hexponent : -(i : Int) + k = -(52 - n.log2 : Nat) := by omega
  have hlong : 2 ^ 52 ≤ n * 2 ^ i :=
    Nat.le_trans (Nat.pow_le_pow_right (by omega) hi) (Nat.le_mul_of_pos_left _ hn)
  rcases roundWithAccuracy_of_long .positive hlong (show -1074 ≤ -(i : Int) by omega) with
    ⟨-, hpos, hround⟩ | ⟨hcarry, -⟩
  · simp only [hrounded, hexcess, hexponent] at hpos hround
    refine ⟨hpos, ?_⟩
    rw [hof, hround]
    exact unpack_pack hnormal (by omega) _ _
  · have := hnormal.high
    omega

theorem unpack_signed_ofNat {n : Nat} (hn : 0 < n) (h : n < 2 ^ 53) (negative : Bool) :
    ∃ hpos, (signed negative (Float.ofNat n)).toModel.unpack =
      .finite (if negative then .negative else .positive) (n * 2 ^ (52 - n.log2))
        (-(52 - n.log2 : Nat)) hpos := by
  obtain ⟨hpos, hunpack⟩ := unpack_ofNat_of_short hn h
  refine ⟨hpos, ?_⟩
  cases negative with
  | false => exact hunpack
  | true =>
    obtain ⟨hnormal, -⟩ := round_of_short hn h
    show (Float.Model.pack (Float.ofNat n).toModel.unpack.neg).unpack = _
    rw [hunpack]
    exact unpack_pack hnormal (by omega) _ _

/-! ## Whole numbers -/

theorem wholePart_of_exponent_neg {x : Float} (hx : x.isFinite) (h : exponent x < 0) :
    wholePart x < 2 ^ 53 := by
  rw [wholePart, if_neg (by omega), Nat.shiftRight_eq_div_pow]
  exact Nat.lt_of_le_of_lt (Nat.div_le_self _ _) (unpack_of_isFinite hx).1.high

theorem unpack_limit : (9e15 : Float).toModel.unpack =
    .finite .positive 9000000000000000 0 (by decide) := rfl

/-- Below the limit, a number too large for a fraction is its mantissa. -/
theorem unpack_of_exponent_nonneg {x : Float} (hx : x.isFinite) (he : 0 ≤ exponent x)
    (hlimit : x.abs < 9e15) :
    2 ^ 52 ≤ mantissa x ∧ wholePart x = mantissa x ∧
      ∃ hm, x.toModel.unpack = .finite (sign x) (mantissa x) 0 hm := by
  obtain ⟨hcanonical, hunpack⟩ := unpack_of_isFinite hx
  have hlong : 2 ^ 52 ≤ mantissa x := hcanonical.low.resolve_right (by omega)
  obtain ⟨s, hm, hs⟩ := hunpack.resolve_left (fun h => by omega)
  have habs : x.abs.toModel.unpack = .finite .positive (mantissa x) (exponent x) hm := by
    show (Float.Model.pack x.toModel.unpack.abs).unpack = _
    rw [hs]
    exact unpack_pack ⟨hlong, hcanonical.high, hcanonical.least⟩ hcanonical.greatest _ hm
  have hzero : exponent x = 0 := by
    rw [lt_iff, habs, unpack_limit] at hlimit
    simp only [UnpackedFloat.lt, UnpackedFloat.compare, beq_iff_eq, Option.some.injEq,
      Ordering.then_eq_lt, Int.compare_eq_lt, Int.compare_eq_eq] at hlimit
    omega
  refine ⟨hlong, ?_, hm, ?_⟩
  · rw [wholePart, if_pos he, hzero]
    rfl
  · rw [hs, sign_of_unpack hs, hzero]

/-- A whole number below the limit, taken apart and put together again. -/
theorem signed_wholePart {x : Float} (hwhole : isWhole x) (hlimit : x.abs < 9e15) :
    wholePart x < 2 ^ 53 ∧ (signed (signBit x) (Float.ofNat (wholePart x)) == x) = true := by
  obtain ⟨hx, htrunc⟩ := Bool.and_eq_true_iff.mp hwhole
  by_cases he : exponent x < 0
  · rw [trunc, if_pos (by simp [hx, he])] at htrunc
    exact ⟨wholePart_of_exponent_neg hx he, htrunc⟩
  · obtain ⟨hlong, hwholePart, hm, hunpack⟩ := unpack_of_exponent_nonneg hx (by omega) hlimit
    have hhigh := (unpack_of_isFinite hx).1.high
    obtain ⟨hpos, hsigned⟩ := unpack_signed_ofNat hm hhigh (signBit x)
    have hsame : (signed (signBit x) (Float.ofNat (wholePart x))).toModel.unpack =
        x.toModel.unpack := by
      rw [hwholePart, hsigned, hunpack, UnpackedFloat.finite.injEq,
        log2_eq_of_normal hlong hhigh]
      exact ⟨rfl, Nat.mul_one _, rfl⟩
    refine ⟨by omega, beq_iff.mpr (.inl ⟨hsame, ?_⟩)⟩
    show UnpackedFloat.isNaN _ = false
    rw [hsame, hunpack]
    rfl

theorem ofInt_toInt_of_ne {x : Float} (h : wholePart x ≠ 0) :
    Float.ofInt (toInt x) = signed (signBit x) (Float.ofNat (wholePart x)) := by
  obtain ⟨n, hn⟩ := Nat.exists_eq_succ_of_ne_zero h
  unfold toInt signed
  rw [hn]
  cases signBit x <;> rfl

theorem isZero_signed (negative : Bool) : IsZero (signed negative (Float.ofNat 0)) := by
  cases negative with
  | false => exact ⟨_, unpack_ofNat_zero⟩
  | true => exact ⟨.negative, rfl⟩

/-- A whole number of moderate size comes back from its integer, with no sign if it is zero. -/
theorem ofInt_toInt {x : Float} (hwhole : isWhole x) (hlimit : x.abs < 9e15) :
    Float.ofInt (toInt x) = if x == 0 then 0 else x := by
  obtain ⟨hshort, hbeq⟩ := signed_wholePart hwhole hlimit
  by_cases hzero : wholePart x = 0
  · have hint : toInt x = 0 := by simp [toInt, hzero]
    have hx : (x == 0) = true := by
      rw [hzero] at hbeq
      exact beq_trans (beq_symm hbeq) (beq_zero_iff.mpr (isZero_signed _))
    rw [hint, if_pos hx]
    rfl
  · obtain ⟨hpos, hunpack⟩ := unpack_signed_ofNat (Nat.pos_of_ne_zero hzero) hshort (signBit x)
    have hnonzero : ¬ IsZero (signed (signBit x) (Float.ofNat (wholePart x))) := by
      rintro ⟨s, hs⟩
      rw [hunpack] at hs
      cases hs
    obtain ⟨hsame, -⟩ := (beq_iff.mp hbeq).resolve_right fun h => hnonzero h.1
    have hx : ¬ (x == 0) = true := by
      rw [beq_zero_iff]
      rintro ⟨s, hs⟩
      exact hnonzero ⟨s, hsame.trans hs⟩
    rw [ofInt_toInt_of_ne hzero, if_neg hx]
    exact eq_of_unpack hunpack (hsame.symm.trans hunpack)

end Number

end DeskScript
