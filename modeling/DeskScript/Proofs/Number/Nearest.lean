import DeskScript.Proofs.Number.Value

/-!
# Sums of whole numbers

A sum of two whole numbers is the exact sum rounded once: to the nearest number of the format, to an
even mantissa from halfway between two, and to an infinity beyond all of them (`RoundsTo`).

    Whole x j → Whole y k → RoundsTo (j + k) (x + y)        (Whole.add)
    Whole x j → Whole (x + 1) (next j)                      (Whole.add_one)

Up to `2 ^ 53` nothing is rounded. After that a number that one is added to stays where it is, or
moves on by two.
-/

namespace DeskScript

open Float.Model Float.Model.UnpackedFloat

namespace Number

/-! ## Rounding a magnitude -/

/-- What is left of a mantissa after a shift: the quotient, the last bit lost, and whether a bit was
lost before that one. -/
theorem shiftRight_succ (m k : Nat) :
    (⟨m, false, false⟩ : ExtendedMantissa) >>> (k + 1) =
      ⟨m / 2 ^ (k + 1), m / 2 ^ k % 2 != 0, m % 2 ^ k != 0⟩ := by
  induction k with
  | zero =>
    show (⟨m, false, false⟩ : ExtendedMantissa).shiftRightOne = _
    simp [ExtendedMantissa.shiftRightOne, Nat.mod_one]
  | succ k ih =>
    have hsticky : (m / 2 ^ k % 2 != 0 || m % 2 ^ k != 0) = (m % 2 ^ (k + 1) != 0) := by
      rcases Nat.mod_two_eq_zero_or_one (m / 2 ^ k) with hbit | hbit <;>
        simp [Nat.mod_pow_succ, hbit]
    show ((⟨m, false, false⟩ : ExtendedMantissa) >>> (k + 1)).shiftRightOne = _
    rw [ih, ExtendedMantissa.shiftRightOne, Nat.div_div_eq_div_mul, ← Nat.pow_succ, hsticky]

/-- A magnitude is rounded to the nearest one, and to an even mantissa from halfway between two. -/
theorem roundedMantissa_shiftRight (m k : Nat) :
    ((⟨m, false, false⟩ : ExtendedMantissa) >>> k).roundedMantissa =
      if 2 * (m % 2 ^ k) < 2 ^ k then m / 2 ^ k
      else if 2 ^ k < 2 * (m % 2 ^ k) then m / 2 ^ k + 1
      else m / 2 ^ k + m / 2 ^ k % 2 := by
  cases k with
  | zero =>
    rw [if_pos (by omega), pow_zero, Nat.div_one]
    rfl
  | succ k =>
    have hlt : m % 2 ^ k < 2 ^ k := Nat.mod_lt _ (Nat.two_pow_pos k)
    have hhalf : 2 ^ (k + 1) = 2 * 2 ^ k := Nat.pow_succ'
    rw [shiftRight_succ, Nat.mod_pow_succ]
    rcases Nat.mod_two_eq_zero_or_one (m / 2 ^ k) with hbit | hbit <;>
      rcases Nat.eq_zero_or_pos (m % 2 ^ k) with hrest | hrest
    · rw [hbit, hrest, if_pos (by omega)]
      rfl
    · rw [hbit, bne_iff_ne.mpr hrest.ne', if_pos (by omega)]
      rfl
    · rw [hbit, hrest, if_neg (by omega), if_neg (by omega)]
      rfl
    · rw [hbit, bne_iff_ne.mpr hrest.ne', if_neg (by omega), if_pos (by omega)]
      rfl

theorem shiftRight_add (em : ExtendedMantissa) (i k : Nat) : em >>> (i + k) = (em >>> i) >>> k := by
  induction k with
  | zero => rfl
  | succ k ih => exact congrArg ExtendedMantissa.shiftRightOne ih

/-- The magnitude that `n` is rounded to. -/
def nearest (n : Nat) : Nat := rounded n * 2 ^ excess n

theorem nearest_of_lt {n : Nat} (h : n < 2 ^ 53) : nearest n = n := by
  have hexcess : excess n = 0 := by
    rcases Nat.eq_zero_or_pos n with rfl | hn
    · rfl
    · have hlog := (Nat.log2_lt (by omega)).mpr h
      rw [excess]
      omega
  rw [nearest, rounded, hexcess, pow_zero, mul_one]
  rfl

/-- Rounding does not depend on the unit. -/
theorem nearest_mul_pow (n i : Nat) : nearest (n * 2 ^ i) = nearest n * 2 ^ i := by
  rcases Nat.eq_zero_or_pos n with rfl | hn
  · rw [zero_mul, nearest_of_lt (by omega), zero_mul]
  have hlog := log2_mul_pow hn i
  rcases Nat.lt_or_ge n.log2 52 with hshort | hlong
  · -- nothing is cut off that is not zero
    have hlt : n < 2 ^ 53 := (Nat.log2_lt (by omega)).mp (by omega)
    obtain ⟨k, hk⟩ : ∃ k, excess (n * 2 ^ i) = k := ⟨_, rfl⟩
    have hki : k ≤ i := by
      rw [← hk, excess]
      omega
    have hsplit : n * 2 ^ i = n * 2 ^ (i - k) * 2 ^ k := by
      rw [mul_assoc, ← pow_add, Nat.sub_add_cancel hki]
    have hrounded : rounded (n * 2 ^ i) = n * 2 ^ (i - k) := by
      rw [rounded, hk, hsplit, shiftRight_mul_pow]
      rfl
    rw [nearest, hrounded, hk, nearest_of_lt hlt, hsplit]
  · have hexcess : excess (n * 2 ^ i) = i + excess n := by
      rw [excess, excess, hlog]
      omega
    rw [nearest, rounded, hexcess, shiftRight_add, shiftRight_mul_pow, nearest, rounded, pow_add]
    ring

/-- The magnitude that a mantissa of full length with a rest behind it is rounded to. -/
theorem nearest_split {q k rest : Nat} (low : 2 ^ 52 ≤ q) (high : q < 2 ^ 53)
    (hrest : rest < 2 ^ k) :
    nearest (q * 2 ^ k + rest) =
      (if 2 * rest < 2 ^ k then q else if 2 ^ k < 2 * rest then q + 1 else q + q % 2) * 2 ^ k := by
  have hlog : (q * 2 ^ k + rest).log2 = 52 + k := by
    have hlow : 2 ^ 52 * 2 ^ k ≤ q * 2 ^ k := Nat.mul_le_mul_right _ low
    have hhigh : (q + 1) * 2 ^ k ≤ 2 ^ 53 * 2 ^ k := Nat.mul_le_mul_right _ high
    have hunit := Nat.two_pow_pos k
    rw [Nat.add_mul, Nat.one_mul] at hhigh
    refine (Nat.log2_eq_iff (by omega)).mpr ⟨?_, ?_⟩
    · rw [Nat.pow_add]
      omega
    · rw [Nat.add_right_comm, Nat.pow_add]
      omega
  have hdiv : (q * 2 ^ k + rest) / 2 ^ k = q := by
    rw [mul_comm, Nat.mul_add_div (Nat.two_pow_pos k), Nat.div_eq_of_lt hrest, add_zero]
  have hmod : (q * 2 ^ k + rest) % 2 ^ k = rest := by
    rw [mul_comm, Nat.mul_add_mod, Nat.mod_eq_of_lt hrest]
  rw [nearest, rounded, excess, hlog, Nat.add_sub_cancel_left, roundedMantissa_shiftRight, hdiv,
    hmod]

theorem nearest_add_one {m e : Nat} (low : 2 ^ 52 ≤ m) (high : m < 2 ^ 53) (he : 1 ≤ e) :
    nearest (m * 2 ^ e + 1) = if e = 1 then m * 2 ^ e + 2 * (m % 2) else m * 2 ^ e := by
  rw [nearest_split low high (Nat.one_lt_two_pow (by omega))]
  rcases Nat.eq_or_lt_of_le he with rfl | htwo
  · rw [if_neg (by omega), if_neg (by omega), if_pos rfl]
    omega
  · have hunit : 2 ^ 2 ≤ 2 ^ e := Nat.pow_le_pow_right (by omega) htwo
    rw [if_pos (by omega), if_neg (by omega)]

theorem nearest_sub_one {m e : Nat} (low : 2 ^ 52 ≤ m) (high : m < 2 ^ 53) (he : 1 ≤ e)
    (hne : m = 2 ^ 52 → e ≠ 1) :
    nearest (m * 2 ^ e - 1) = if e = 1 then m * 2 ^ e - 2 * (m % 2) else m * 2 ^ e := by
  rcases Nat.lt_or_eq_of_le low with hlt | rfl
  · obtain ⟨q, rfl⟩ : ∃ q, m = q + 1 := ⟨m - 1, by omega⟩
    have hunit := Nat.two_pow_pos e
    have hsplit : (q + 1) * 2 ^ e - 1 = q * 2 ^ e + (2 ^ e - 1) := by
      rw [Nat.add_mul, Nat.one_mul]
      omega
    rw [hsplit, nearest_split (by omega) (by omega) (by omega)]
    rcases Nat.eq_or_lt_of_le he with rfl | htwo
    · rw [if_neg (by omega), if_neg (by omega), if_pos rfl]
      omega
    · have hfour : 2 ^ 2 ≤ 2 ^ e := Nat.pow_le_pow_right (by omega) htwo
      rw [if_neg (by omega), if_pos (by omega), if_neg (by omega)]
  · -- the number before a power of two has one bit less
    have hone := hne rfl
    obtain ⟨k, rfl⟩ : ∃ k, e = k + 1 := ⟨e - 1, by omega⟩
    have hdouble : 2 ^ (k + 1) = 2 * 2 ^ k := Nat.pow_succ'
    have htwo : 2 ^ 1 ≤ 2 ^ k := Nat.pow_le_pow_right (by omega) (by omega)
    have hsplit : 2 ^ 52 * 2 ^ (k + 1) - 1 = (2 ^ 53 - 1) * 2 ^ k + (2 ^ k - 1) := by omega
    have hup : (if 2 ^ k < 2 * (2 ^ k - 1) then 2 ^ 53 - 1 + 1
        else 2 ^ 53 - 1 + (2 ^ 53 - 1) % 2) = 2 ^ 53 := by
      split <;> rfl
    rw [hsplit, nearest_split (by omega) (by omega) (by omega), if_neg (by omega), hup,
      if_neg hone]
    omega

theorem nearest_of_le {n : Nat} (h : n ≤ 2 ^ 53) : nearest n = n := by
  rcases Nat.lt_or_eq_of_le h with hlt | rfl
  · exact nearest_of_lt hlt
  · rw [show 2 ^ 53 = 2 ^ 52 * 2 ^ 1 by rfl, nearest_mul_pow, nearest_of_lt (by decide)]

theorem le_nearest {n : Nat} (h : 2 ^ 53 ≤ n) : 2 ^ 53 ≤ nearest n := by
  have hlong : 2 ^ 52 ≤ n := by omega
  have hlow := (normal_div hlong (show -1074 ≤ (0 : Int) by decide)).low
  have hcases := rounded_cases n
  have hexcess : 1 ≤ excess n := by
    have hlog := (Nat.le_log2 (by omega)).mpr h
    rw [excess]
    omega
  calc 2 ^ 53 = 2 ^ 52 * 2 ^ 1 := rfl
    _ ≤ rounded n * 2 ^ excess n :=
      Nat.mul_le_mul (by omega) (Nat.pow_le_pow_right (by decide) hexcess)

/-! ## Rounding to the format -/

/-- A number of moderate exponent is rounded as its mantissa is. -/
theorem round_nearest {M : Nat} {E : Int} (s : Sign) (hM : 0 < M) (hE : -1000 ≤ E) :
    ∃ r t hr, UnpackedFloat.round .binary64 s M E = .finite s r t hr ∧ Normal r t ∧
      (r : ℚ) * 2 ^ t = nearest M * 2 ^ E := by
  have htarget : (E - Format.binary64.targetExponent (totalExponent M E)).toNat = 52 - M.log2 := by
    simp only [Format.targetExponent, totalExponent, Format.mantissaBits, Format.minExponent]
    omega
  have hround : UnpackedFloat.round .binary64 s M E =
      roundWithAccuracy .binary64 s (M * 2 ^ (52 - M.log2)) (E - (52 - M.log2 : Nat)) .exact := by
    simp only [UnpackedFloat.round, decreaseExponent, htarget, Nat.shiftLeft_eq]
  have hlong : 2 ^ 52 ≤ M * 2 ^ (52 - M.log2) := by
    calc 2 ^ 52 ≤ 2 ^ M.log2 * 2 ^ (52 - M.log2) := by
          rw [← Nat.pow_add]
          exact Nat.pow_le_pow_right (by omega) (by omega)
      _ ≤ M * 2 ^ (52 - M.log2) := Nat.mul_le_mul_right _ (Nat.log2_self_le (by omega))
  have hleast : -1074 ≤ E - (52 - M.log2 : Nat) := by omega
  have hvalue : (nearest M : ℚ) * 2 ^ E =
      nearest (M * 2 ^ (52 - M.log2)) * 2 ^ (E - (52 - M.log2 : Nat)) := by
    rw [nearest_mul_pow, zpow_sub₀ two_ne_zero, zpow_natCast]
    push_cast
    field_simp
  rw [hround, hvalue]
  generalize M * 2 ^ (52 - M.log2) = M' at *
  generalize E - (52 - M.log2 : Nat) = E' at *
  have hunit : (nearest M' : ℚ) * 2 ^ E' = rounded M' * 2 ^ (E' + excess M') := by
    rw [nearest, zpow_add₀ two_ne_zero, zpow_natCast]
    push_cast
    ring
  rw [hunit]
  rcases roundWithAccuracy_of_long s hlong hleast with ⟨hnormal, hr, h⟩ | ⟨hcarry, hr, h⟩
  · exact ⟨_, _, hr, h, hnormal, rfl⟩
  · refine ⟨_, _, hr, h, ⟨le_refl _, by omega, by omega⟩, ?_⟩
    rw [hcarry, zpow_add₀ two_ne_zero (E' + excess M')]
    push_cast
    ring

/-- An integer is rounded alike with every exponent. -/
theorem nearest_of_scaled {M n : Nat} {E : Int} (h : (M : ℚ) * 2 ^ E = n) :
    (nearest M : ℚ) * 2 ^ E = nearest n := by
  obtain ⟨i, rfl | rfl⟩ := Int.eq_nat_or_neg E
  · rw [zpow_natCast] at h ⊢
    have hn : n = M * 2 ^ i := by exact_mod_cast h.symm
    rw [hn, nearest_mul_pow]
    push_cast
    rfl
  · have hM : M = n * 2 ^ i := by
      rw [zpow_neg, zpow_natCast, mul_inv_eq_iff_eq_mul₀ (by positivity)] at h
      exact_mod_cast h
    rw [hM, nearest_mul_pow, zpow_neg, zpow_natCast]
    push_cast
    field_simp

/-- A number too large for the format is packed as an infinity. -/
theorem unpack_pack_large {r : Nat} {t : Int} (ht : 971 < t) (s : Sign) (hr : 0 < r) :
    UnpackedFloat.unpack .binary64 (UnpackedFloat.pack .binary64 (.finite s r t hr)) =
      .infinity s := by
  have hbiased : 2 ^ 11 ≤ (t + Format.binary64.exponentBias + (52 : Nat)).toNat + 1 := by
    simp only [Format.exponentBias]
    omega
  have hpack : UnpackedFloat.pack .binary64 (.finite s r t hr) = packedInfinity .binary64 s := by
    simp only [UnpackedFloat.pack]
    exact if_pos hbiased
  rw [hpack]
  cases s <;> rfl

/-- A magnitude with too large an exponent is above those of all finite numbers. -/
theorem abs_value_lt {r : Nat} {t : Int} (hr : 2 ^ 52 ≤ r) (ht : 971 < t) {z : Float}
    (hz : z.isFinite) : |value z| < r * 2 ^ t := by
  rcases finite_cases hz with ⟨s, hs⟩ | ⟨s, m, e, hm, hs, hcanonical⟩
  · rw [value_of_zero hs, abs_zero]
    exact magnitude_pos (by omega) t
  · have hlt := magnitude_lt hcanonical.high hr (hcanonical.greatest.trans_lt ht)
    rwa [value_of_finite hs, abs_scaled]

/-! ## Rounding an integer -/

/-- The integer that `n` is rounded to. -/
def roundInt (n : Int) : Int := n.sign * nearest n.natAbs

/-- The sign that an integer has as a number. -/
def signOf (n : Int) : Sign := if n < 0 then .negative else .positive

/-- `x` is what the integer `n` is rounded to; infinite, if that is beyond all finite numbers. -/
inductive RoundsTo (n : Int) (x : Float) : Prop
  | whole (h : Whole x (roundInt n))
  | infinite (h : x.toModel.unpack = .infinity (signOf n))
      (large : ∀ {z k}, Whole z k → k.natAbs < nearest n.natAbs)

theorem WholeParts.whole {u : UnpackedFloat} {k : Int} (h : WholeParts u k) :
    Whole (.ofModel (.pack u)) k := by
  cases h with
  | zero s =>
    have hunpack : (Float.ofModel (.pack (.zero s))).toModel.unpack = .zero s := by cases s <;> rfl
    exact ⟨isFinite_of_zero hunpack, by rw [value_of_zero hunpack, Int.cast_zero]⟩
  | @finite s m e k hm normal least greatest h =>
    have hunpack : (Float.ofModel (.pack (.finite s m e hm))).toModel.unpack = .finite s m e hm :=
      unpack_pack normal greatest s hm
    exact ⟨isFinite_of_finite hunpack, by rw [value_of_finite hunpack, h]⟩

theorem nearest_self {u : UnpackedFloat} {k : Int} (h : WholeParts u k) :
    nearest k.natAbs = k.natAbs := by
  rcases h.natAbs_cases with hlt | ⟨m, e, -, high, -, hk⟩
  · exact nearest_of_lt hlt
  · rw [hk, nearest_mul_pow, nearest_of_lt high]

theorem roundInt_of_nearest {k : Int} (h : nearest k.natAbs = k.natAbs) : roundInt k = k := by
  rw [roundInt, h, Int.sign_mul_natAbs]

theorem roundInt_of_pos {n : Int} (h : 0 < n) : roundInt n = nearest n.natAbs := by
  rw [roundInt, Int.sign_eq_one_of_pos h, one_mul]

theorem roundInt_of_neg {n : Int} (h : n < 0) : roundInt n = -nearest n.natAbs := by
  rw [roundInt, Int.sign_eq_neg_one_of_neg h, neg_one_mul]

theorem natAbs_roundInt (n : Int) : (roundInt n).natAbs = nearest n.natAbs := by
  rcases eq_or_ne n 0 with rfl | hn
  · rfl
  · rw [roundInt, Int.natAbs_mul, Int.natAbs_sign_of_ne_zero hn, one_mul, Int.natAbs_natCast]

theorem signOf_apply_natAbs (n : Int) : (signOf n).apply n.natAbs = n := by
  unfold signOf
  split <;> rw [Sign.apply] <;> omega

theorem scaled_signOf {n : Int} (hn : n ≠ 0) (m : Nat) (e : Int) :
    scaled (signOf n) m e = n.sign * (m * 2 ^ e) := by
  rcases lt_or_gt_of_ne hn with hneg | hpos
  · rw [signOf, if_pos hneg, scaled_negative, Int.sign_eq_neg_one_of_neg hneg]
    push_cast
    ring
  · rw [signOf, if_neg (by omega), scaled_positive, Int.sign_eq_one_of_pos hpos]
    push_cast
    ring

theorem normalize_of_ne {S : Int} (hS : S ≠ 0) (E : Int) (zero : Sign) :
    normalize .binary64 S E zero = UnpackedFloat.round .binary64 (signOf S) S.natAbs E := by
  rcases lt_or_gt_of_ne hS with hneg | hpos
  · rw [UnpackedFloat.normalize, Int.compare_eq_lt.mpr hneg, signOf, if_pos hneg,
      show S.natAbs = (-S).toNat by omega]
  · rw [UnpackedFloat.normalize, Int.compare_eq_gt.mpr hpos, signOf, if_neg (by omega),
      show S.natAbs = S.toNat by omega]

theorem roundsTo_normalize {S n E : Int} (hE : -1000 ≤ E) (h : (S : ℚ) * 2 ^ E = n) :
    RoundsTo n (.ofModel (.pack (normalize .binary64 S E .positive))) := by
  have hunit : (0 : ℚ) < 2 ^ E := by positivity
  rcases eq_or_ne S 0 with rfl | hS
  · obtain rfl : n = 0 := by
      rw [Int.cast_zero, zero_mul] at h
      exact_mod_cast h.symm
    refine .whole ?_
    rw [roundInt, Int.sign_zero, zero_mul]
    exact (WholeParts.zero .positive).whole
  have hn : n ≠ 0 := by
    rintro rfl
    rw [Int.cast_zero, mul_eq_zero_iff_right hunit.ne'] at h
    exact hS (by exact_mod_cast h)
  have hsign : signOf S = signOf n := by
    have hneg : (n : ℚ) < 0 ↔ (S : ℚ) < 0 := by
      rw [← h]
      exact ⟨fun h => neg_of_mul_neg_left h hunit.le, fun h => mul_neg_of_neg_of_pos h hunit⟩
    rw [Int.cast_lt_zero, Int.cast_lt_zero] at hneg
    simp only [signOf, hneg]
  have habs : (S.natAbs : ℚ) * 2 ^ E = n.natAbs := by
    refine @natAbs_of_scaled (signOf S) S.natAbs E n ?_
    rw [scaled, signOf_apply_natAbs, h]
  obtain ⟨r, t, hr, hround, hnormal, hvalue⟩ :=
    round_nearest (signOf S) (Int.natAbs_pos.mpr hS) hE
  rw [nearest_of_scaled habs] at hvalue
  rw [normalize_of_ne hS, hround, hsign]
  obtain ⟨x, hx⟩ : ∃ x, x = Float.ofModel (.pack (.finite (signOf n) r t hr)) := ⟨_, rfl⟩
  rw [← hx]
  rcases le_or_gt t 971 with ht | ht
  · have hunpack : x.toModel.unpack = .finite (signOf n) r t hr := by
      rw [hx]
      exact unpack_pack hnormal ht _ hr
    refine .whole ⟨isFinite_of_finite hunpack, ?_⟩
    rw [value_of_finite hunpack, scaled_signOf hn, hvalue, roundInt]
    push_cast
    rfl
  · refine .infinite ?_ fun {z k} hz => ?_
    · rw [hx]
      exact unpack_pack_large ht _ hr
    · have hlt := abs_value_lt hnormal.low ht hz.finite
      rw [hz.value_eq, hvalue, ← Int.cast_abs, ← Nat.cast_natAbs] at hlt
      exact_mod_cast hlt

/-- No number up to this one is rounded to an infinity. -/
theorem whole_two_pow : Whole (Float.ofBits 0x4350000000000000) (2 ^ 54) :=
  whole_of_unpack (show _ = UnpackedFloat.finite .positive (2 ^ 52) 2 (Nat.two_pow_pos _) from rfl)
    (by rw [scaled_positive]; norm_num)

/-- Up to `2 ^ 53` no integer is rounded. -/
theorem RoundsTo.exact {n : Int} {x : Float} (h : RoundsTo n x) (hn : n.natAbs ≤ 2 ^ 53) :
    Whole x n := by
  cases h with
  | whole h => rwa [roundInt_of_nearest (nearest_of_le hn)] at h
  | infinite h large =>
    have hlarge := large whole_two_pow
    rw [nearest_of_le hn] at hlarge
    omega

/-- Rounding does not move an integer past one that is below `2 ^ 53`. -/
theorem RoundsTo.lt_iff {c n : Int} {x y : Float} (hx : Whole x c) (hc : c.natAbs < 2 ^ 53)
    (hy : RoundsTo n y) : x < y ↔ c < n := by
  by_cases hn : n.natAbs ≤ 2 ^ 53
  · exact lt_iff_int hx (hy.exact hn)
  have hle : 2 ^ 53 ≤ nearest n.natAbs := le_nearest (by omega)
  rcases Int.le_total 0 n with hpos | hneg
  · refine iff_of_true ?_ (by omega)
    cases hy with
    | whole h =>
      rw [roundInt_of_pos (by omega)] at h
      rw [lt_iff_int hx h]
      omega
    | infinite h _ =>
      rw [lt_iff_of_infinity hx.finite h, signOf, if_neg (by omega)]
  · refine iff_of_false ?_ (by omega)
    cases hy with
    | whole h =>
      rw [roundInt_of_neg (by omega)] at h
      rw [lt_iff_int hx h]
      omega
    | infinite h _ =>
      rw [lt_iff_of_infinity hx.finite h, signOf, if_pos (by omega)]
      exact nofun

/-! ## Sums -/

theorem WholeParts.neg {u : UnpackedFloat} {k : Int} (h : WholeParts u k) :
    WholeParts u.neg (-k) := by
  cases h with
  | zero s => exact .zero (-s)
  | @finite s m e k hm normal least greatest h =>
    refine .finite hm normal least greatest ?_
    rw [Int.cast_neg, ← h]
    cases s with
    | positive => exact (scaled_negative m e).trans (congrArg _ (scaled_positive m e).symm)
    | negative => exact (scaled_positive m e).trans (by rw [scaled_negative, neg_neg])

/-- A mantissa is lengthened by as much as its exponent is made smaller. -/
theorem decreaseExponent_scaled (s : Sign) (m : Nat) {e e' : Int} (he : e' ≤ e) :
    scaled s (decreaseExponent m e e').1 e' = scaled s m e := by
  have hmagnitude : (((decreaseExponent m e e').1 : Nat) : ℚ) * 2 ^ e' = m * 2 ^ e := by
    obtain ⟨d, rfl⟩ : ∃ d : Nat, e = e' + d := ⟨(e - e').toNat, by omega⟩
    rw [decreaseExponent, add_sub_cancel_left, Int.toNat_natCast, Nat.shiftLeft_eq,
      zpow_add₀ two_ne_zero, zpow_natCast]
    push_cast
    ring
  cases s with
  | positive => rw [scaled_positive, scaled_positive, hmagnitude]
  | negative => rw [scaled_negative, scaled_negative, hmagnitude]

theorem WholeParts.add {u v : UnpackedFloat} {j k : Int} (hu : WholeParts u j)
    (hv : WholeParts v k) : RoundsTo (j + k) (.ofModel (.pack (u.add .binary64 v))) := by
  have hself {w : UnpackedFloat} {i : Int} (h : WholeParts w i) :
      RoundsTo i (.ofModel (.pack w)) := by
    refine .whole ?_
    rw [roundInt_of_nearest (nearest_self h)]
    exact h.whole
  cases hu with
  | zero s =>
    rw [zero_add]
    cases hv with
    | zero s' => cases s <;> cases s' <;> exact hself (.zero _)
    | finite hm normal least greatest h => exact hself (.finite hm normal least greatest h)
  | @finite s m e _ hm normal least greatest h =>
    cases hv with
    | zero s' =>
      rw [add_zero]
      exact hself (.finite hm normal least greatest h)
    | @finite s' m' e' _ hm' normal' least' greatest' h' =>
      refine roundsTo_normalize (by omega) ?_
      rw [Int.cast_add, Int.cast_add, add_mul, ← h, ← h']
      exact congrArg₂ (· + ·) (decreaseExponent_scaled s m (min_le_left e e'))
        (decreaseExponent_scaled s' m' (min_le_right e e'))

theorem Sign.apply_neg (s : Sign) (n : Int) : (-s).apply n = -s.apply n := by
  cases s with
  | positive => rfl
  | negative => exact (neg_neg n).symm

theorem sub_eq_add_neg (u v : UnpackedFloat) : u.sub .binary64 v = u.add .binary64 v.neg := by
  cases v with
  | finite s m e hm =>
    cases u with
    | finite =>
      simp only [UnpackedFloat.sub, UnpackedFloat.add, UnpackedFloat.neg, Sign.apply_neg,
        Int.sub_eq_add_neg]
    | _ => rfl
  | _ => cases u <;> rfl

/-- A sum of whole numbers is rounded once. -/
theorem Whole.add {x y : Float} {j k : Int} (hx : Whole x j) (hy : Whole y k) :
    RoundsTo (j + k) (x + y) :=
  hx.parts.add hy.parts

theorem Whole.sub {x y : Float} {j k : Int} (hx : Whole x j) (hy : Whole y k) :
    RoundsTo (j - k) (x - y) := by
  show RoundsTo _ (.ofModel (.pack (x.toModel.unpack.sub .binary64 y.toModel.unpack)))
  rw [Int.sub_eq_add_neg, Number.sub_eq_add_neg]
  exact hx.parts.add hy.parts.neg

/-! ## Adding one -/

/-- What adding one to the integer `j` of the format gives. From `2 ^ 53` on the sum lies between
two numbers of the format: halfway up to `2 ^ 54`, where an even mantissa is preferred, and nearer
to `j` after that. -/
def next (j : Int) : Int :=
  if -2 ^ 53 ≤ j ∧ j < 2 ^ 53 then j + 1
  else if j.natAbs < 2 ^ 54 ∧ j % 4 = 2 then j + 2
  else j

theorem roundInt_add_one {n : Float} {j : Int} (h : Whole n j) : roundInt (j + 1) = next j := by
  rcases h.parts.natAbs_cases with hlt | ⟨m, e, low, high, he, hj⟩
  · rw [roundInt_of_nearest (nearest_of_le (by omega)), next, if_pos (by omega)]
  rcases Nat.eq_or_lt_of_le he with rfl | htwo
  · -- halfway between two numbers, but below a power of two
    rcases Int.le_total 0 j with hpos | hneg
    · rw [roundInt_of_pos (by omega), show (j + 1).natAbs = m * 2 ^ 1 + 1 by omega,
        nearest_add_one low high he, if_pos rfl, next]
      split_ifs <;> omega
    · by_cases hpower : m = 2 ^ 52
      · rw [roundInt_of_nearest (nearest_of_le (by omega)), next, if_pos (by omega)]
      · rw [roundInt_of_neg (by omega), show (j + 1).natAbs = m * 2 ^ 1 - 1 by omega,
          nearest_sub_one low high he (by omega), if_pos rfl, next]
        split_ifs <;> omega
  · have hunit : 2 ^ 2 ≤ 2 ^ e := Nat.pow_le_pow_right (by omega) htwo
    have hlarge : 2 ^ 52 * 2 ^ 2 ≤ m * 2 ^ e := Nat.mul_le_mul low hunit
    have hnext : next j = j := by rw [next, if_neg (by omega), if_neg (by omega)]
    rw [hnext]
    rcases Int.le_total 0 j with hpos | hneg
    · rw [roundInt_of_pos (by omega), show (j + 1).natAbs = m * 2 ^ e + 1 by omega,
        nearest_add_one low high he, if_neg (by omega)]
      omega
    · rw [roundInt_of_neg (by omega), show (j + 1).natAbs = m * 2 ^ e - 1 by omega,
        nearest_sub_one low high he (by omega), if_neg (by omega)]
      omega

theorem Whole.add_one {n : Float} {j : Int} (h : Whole n j) : Whole (n + 1) (next j) := by
  have hone : Whole 1 1 := whole_signed (n := 1) (by decide) false
  have hround := h.add hone
  cases hround with
  | whole hsum => rwa [roundInt_add_one h] at hsum
  | infinite _ large =>
    -- the sum is no greater than a number of the format
    have hself := large h
    have hlarge := large whole_two_pow
    rw [← natAbs_roundInt, roundInt_add_one h, next] at hself hlarge
    split_ifs at hself hlarge <;> omega

end Number

end DeskScript
