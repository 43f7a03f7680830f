import DeskScript.Proofs.Number.Whole

/-!
# Finite numbers as rationals

A finite number is `± mantissa · 2 ^ exponent`, its `value`. The order of the format is that of the
values.

    x < y ↔ value x < value y        (lt_iff_value)

A finite number whose value is an integer is a whole number (`Whole`). The integers that there are
among them have at most 53 bits, with any zeros behind (`WholeParts.natAbs_cases`).
-/

namespace DeskScript

open Float.Model Float.Model.UnpackedFloat

namespace Number

/-! ## Values -/

/-- The rational number of a sign, a mantissa and an exponent. -/
def scaled (s : Sign) (m : Nat) (e : Int) : ℚ := (s.apply m : Int) * 2 ^ e

/-- The rational number that a finite number is. -/
def value (x : Float) : ℚ :=
  match x.toModel.unpack with
  | .finite s m e _ => scaled s m e
  | _ => 0

theorem scaled_positive (m : Nat) (e : Int) : scaled .positive m e = m * 2 ^ e := by
  simp [scaled, Sign.apply]

theorem scaled_negative (m : Nat) (e : Int) : scaled .negative m e = -(m * 2 ^ e) := by
  simp [scaled, Sign.apply]

theorem abs_scaled (s : Sign) (m : Nat) (e : Int) : |scaled s m e| = m * 2 ^ e := by
  have hpos : (0 : ℚ) ≤ m * 2 ^ e := by positivity
  cases s with
  | positive => rw [scaled_positive, abs_of_nonneg hpos]
  | negative => rw [scaled_negative, abs_neg, abs_of_nonneg hpos]

theorem value_of_finite {x : Float} {s : Sign} {m : Nat} {e : Int} {hm : 0 < m}
    (h : x.toModel.unpack = .finite s m e hm) : value x = scaled s m e := by
  rw [value, h]

theorem value_of_zero {x : Float} {s : Sign} (h : x.toModel.unpack = .zero s) : value x = 0 := by
  rw [value, h]

theorem finite_cases {x : Float} (hx : x.isFinite) :
    (∃ s, x.toModel.unpack = .zero s) ∨
      ∃ s m e hm, x.toModel.unpack = .finite s m e hm ∧ Canonical m e := by
  obtain ⟨hcanonical, ⟨-, s, hs⟩ | ⟨s, hm, hs⟩⟩ := unpack_of_isFinite hx
  · exact .inl ⟨s, hs⟩
  · exact .inr ⟨s, _, _, hm, hs, hcanonical⟩

/-! ## Order -/

theorem magnitude_pos {m : Nat} (hm : 0 < m) (e : Int) : (0 : ℚ) < m * 2 ^ e := by positivity

/-- A greater exponent makes a greater number, if there is no bit to spare. -/
theorem magnitude_lt {m m' : Nat} {e e' : Int} (high : m < 2 ^ 53) (low : 2 ^ 52 ≤ m')
    (he : e < e') : (m : ℚ) * 2 ^ e < m' * 2 ^ e' := by
  calc (m : ℚ) * 2 ^ e < 2 ^ 53 * 2 ^ e := by
        gcongr
        exact_mod_cast high
    _ = 2 ^ 52 * 2 ^ (e + 1) := by
        rw [zpow_add₀ two_ne_zero]
        ring
    _ ≤ 2 ^ 52 * 2 ^ e' := by
        gcongr
        · norm_num
        · omega
    _ ≤ m' * 2 ^ e' := by
        gcongr
        exact_mod_cast low

theorem Canonical.magnitude_lt {m m' : Nat} {e e' : Int} (h : Canonical m e) (h' : Canonical m' e')
    (he : e < e') : (m : ℚ) * 2 ^ e < m' * 2 ^ e' := by
  have := h.least
  exact Number.magnitude_lt h.high (h'.low.resolve_right (by omega)) he

theorem cmp_magnitude {m m' : Nat} {e e' : Int} (h : Canonical m e) (h' : Canonical m' e') :
    cmp ((m : ℚ) * 2 ^ e) (m' * 2 ^ e') = (compare e e').then (compare m m') := by
  rcases lt_trichotomy e e' with he | rfl | he
  · rw [Int.compare_eq_lt.mpr he, Ordering.lt_then, cmp_eq_lt_iff]
    exact h.magnitude_lt h' he
  · have hmono : StrictMono fun n : Nat => (n : ℚ) * 2 ^ e := fun a b hab => by
      dsimp only
      gcongr
    rw [Int.compare_eq_eq.mpr rfl, Ordering.eq_then, hmono.cmp_map_eq, cmp_eq_compare]
  · rw [Int.compare_eq_gt.mpr he, Ordering.gt_then, cmp_eq_gt_iff]
    exact h'.magnitude_lt h he

theorem compare_value {x y : Float} (hx : x.isFinite) (hy : y.isFinite) :
    UnpackedFloat.compare x.toModel.unpack y.toModel.unpack = some (cmp (value x) (value y)) := by
  rcases finite_cases hx with ⟨s, hs⟩ | ⟨s, m, e, hm, hs, hc⟩ <;>
    rcases finite_cases hy with ⟨t, ht⟩ | ⟨t, m', e', hm', ht, hc'⟩
  · rw [hs, ht, value_of_zero hs, value_of_zero ht, cmp_self_eq_eq]
    rfl
  · have hpos := magnitude_pos hm' e'
    rw [hs, ht, value_of_zero hs, value_of_finite ht]
    cases t with
    | positive =>
      rw [scaled_positive, (cmp_eq_lt_iff _ _).mpr hpos]
      rfl
    | negative =>
      rw [scaled_negative, (cmp_eq_gt_iff _ _).mpr (neg_lt_zero.mpr hpos)]
      rfl
  · have hpos := magnitude_pos hm e
    rw [hs, ht, value_of_finite hs, value_of_zero ht]
    cases s with
    | positive =>
      rw [scaled_positive, (cmp_eq_gt_iff _ _).mpr hpos]
      rfl
    | negative =>
      rw [scaled_negative, (cmp_eq_lt_iff _ _).mpr (neg_lt_zero.mpr hpos)]
      rfl
  · have hpos := magnitude_pos hm e
    have hpos' := magnitude_pos hm' e'
    rw [hs, ht, value_of_finite hs, value_of_finite ht]
    cases s <;> cases t <;> simp only [scaled_positive, scaled_negative, UnpackedFloat.compare]
    · have hanti : StrictAnti fun q : ℚ => -q := fun a b hab => neg_lt_neg hab
      rw [← cmp_magnitude hc hc', cmp_swap]
      exact congrArg some (hanti.cmp_map_eq _ _).symm
    · rw [(cmp_eq_lt_iff _ _).mpr (by linarith)]
    · rw [(cmp_eq_gt_iff _ _).mpr (by linarith)]
    · rw [cmp_magnitude hc hc']

theorem lt_iff_value {x y : Float} (hx : x.isFinite) (hy : y.isFinite) :
    x < y ↔ value x < value y := by
  rw [lt_iff, UnpackedFloat.lt, compare_value hx hy, beq_iff_eq, Option.some_inj, cmp_eq_lt_iff]

/-! ## Infinities -/

theorem lt_iff_of_infinity {x y : Float} {s : Sign} (hx : x.isFinite)
    (hy : y.toModel.unpack = .infinity s) : x < y ↔ s = .positive := by
  rw [lt_iff, hy]
  rcases finite_cases hx with ⟨t, ht⟩ | ⟨t, m, e, hm, ht, -⟩ <;> rw [ht] <;> cases s <;>
    simp [UnpackedFloat.lt, UnpackedFloat.compare]

/-- If not both numbers are finite then neither is their difference, and an infinite one has the
sign that their order says. -/
theorem sub_cases_of_not_finite {u v : UnpackedFloat} (h : (u.isFinite && v.isFinite) = false) :
    (v.sub .binary64 u = .notANumber ∧ u.lt v = false) ∨
      ∃ s, v.sub .binary64 u = .infinity s ∧ (u.lt v = true ↔ s = .positive) := by
  cases u with
  | notANumber => exact .inl ⟨by cases v <;> rfl, by cases v <;> rfl⟩
  | infinity s =>
    cases v with
    | notANumber => exact .inl ⟨rfl, by cases s <;> rfl⟩
    | infinity t =>
      cases s <;> cases t
      · exact .inl ⟨rfl, rfl⟩
      · exact .inr ⟨_, rfl, iff_of_true rfl rfl⟩
      · exact .inr ⟨_, rfl, iff_of_false Bool.false_ne_true nofun⟩
      · exact .inl ⟨rfl, rfl⟩
    | _ =>
      cases s with
      | negative => exact .inr ⟨_, rfl, iff_of_true rfl rfl⟩
      | positive => exact .inr ⟨_, rfl, iff_of_false Bool.false_ne_true nofun⟩
  | _ =>
    cases v with
    | notANumber => exact .inl ⟨rfl, rfl⟩
    | infinity t =>
      cases t with
      | negative => exact .inr ⟨_, rfl, iff_of_false Bool.false_ne_true nofun⟩
      | positive => exact .inr ⟨_, rfl, iff_of_true rfl rfl⟩
    | _ => cases h

theorem lt_sub_iff_of_not_finite {x y z : Float} (hz : z.isFinite)
    (h : (x.isFinite && y.isFinite) = false) : z < y - x ↔ x < y := by
  have hsub : (y - x).toModel.unpack = UnpackedFloat.unpack .binary64
      (UnpackedFloat.pack .binary64 (y.toModel.unpack.sub .binary64 x.toModel.unpack)) := rfl
  rcases sub_cases_of_not_finite h with ⟨hnan, hlt⟩ | ⟨s, hinfinite, hlt⟩
  · rw [hnan] at hsub
    refine iff_of_false ?_ (by rw [lt_iff, hlt]; exact Bool.false_ne_true)
    rw [lt_iff, hsub]
    rcases finite_cases hz with ⟨t, ht⟩ | ⟨t, m, e, hm, ht, -⟩ <;> rw [ht] <;>
      exact Bool.false_ne_true
  · have hunpack : (y - x).toModel.unpack = .infinity s := by
      rw [hsub, hinfinite]
      cases s <;> rfl
    rw [lt_iff_of_infinity hz hunpack, lt_iff, hlt]

/-! ## Integers -/

/-- The finite number `x` is the integer `k`. -/
structure Whole (x : Float) (k : Int) : Prop where
  finite : x.isFinite
  value_eq : value x = k

/-- The parts of a number that is the integer `k`. -/
inductive WholeParts : UnpackedFloat → Int → Prop
  | zero (s : Sign) : WholeParts (.zero s) 0
  | finite {s : Sign} {m : Nat} {e k : Int} (hm : 0 < m) (normal : Normal m e) (least : -52 ≤ e)
      (greatest : e ≤ 971) (h : scaled s m e = k) : WholeParts (.finite s m e hm) k

theorem natAbs_of_scaled {s : Sign} {m : Nat} {e k : Int} (h : scaled s m e = k) :
    (m : ℚ) * 2 ^ e = k.natAbs := by
  rw [Nat.cast_natAbs, Int.cast_abs, ← h, abs_scaled]

theorem Whole.parts {x : Float} {k : Int} (h : Whole x k) : WholeParts x.toModel.unpack k := by
  obtain ⟨hx, hk⟩ := h
  rcases finite_cases hx with ⟨s, hs⟩ | ⟨s, m, e, hm, hs, hcanonical⟩
  · rw [value_of_zero hs] at hk
    obtain rfl : k = 0 := by exact_mod_cast hk.symm
    rw [hs]
    exact .zero s
  · rw [value_of_finite hs] at hk
    have hleast : -52 ≤ e := by
      -- a smaller magnitude is below one, and no integer but zero is
      by_contra hsmall
      have hpos := magnitude_pos hm e
      have hlt := @magnitude_lt m (2 ^ 52) e (-52) hcanonical.high (le_refl _) (by omega)
      have hone : ((2 ^ 52 : Nat) : ℚ) * 2 ^ (-52 : Int) = 1 := by norm_num
      rw [hone] at hlt
      rw [natAbs_of_scaled hk] at hpos hlt
      norm_cast at hpos hlt
      omega
    rw [hs]
    exact .finite hm ⟨hcanonical.low.resolve_right (by omega), hcanonical.high, hcanonical.least⟩
      hleast hcanonical.greatest hk

/-- The integers of the format: those of at most 53 bits, with zeros behind. -/
theorem WholeParts.natAbs_cases {u : UnpackedFloat} {k : Int} (h : WholeParts u k) :
    k.natAbs < 2 ^ 53 ∨
      ∃ m e, 2 ^ 52 ≤ m ∧ m < 2 ^ 53 ∧ 1 ≤ e ∧ k.natAbs = m * 2 ^ e := by
  cases h with
  | zero s => exact .inl (by decide)
  | @finite s m e k hm normal least greatest h =>
    have habs := natAbs_of_scaled h
    rcases le_or_gt e 0 with he | he
    · left
      have hle : (m : ℚ) * 2 ^ e ≤ m := by
        refine mul_le_of_le_one_right (by positivity) ?_
        exact zpow_le_one_of_nonpos₀ (by norm_num) he
      have hcast : k.natAbs ≤ m := by
        rw [habs] at hle
        exact_mod_cast hle
      exact hcast.trans_lt normal.high
    · right
      obtain ⟨i, rfl⟩ : ∃ i : Nat, e = i := ⟨e.toNat, by omega⟩
      refine ⟨m, i, normal.low, normal.high, by omega, ?_⟩
      rw [zpow_natCast] at habs
      exact_mod_cast habs.symm

/-- From `2 ^ 53` on every integer of the format is even. -/
theorem Whole.even {x : Float} {j : Int} (h : Whole x j) (hj : 2 ^ 53 ≤ j.natAbs) :
    j % 2 = 0 := by
  rcases h.parts.natAbs_cases with hlt | ⟨m, e, -, -, he, heq⟩
  · omega
  · obtain ⟨i, rfl⟩ : ∃ i, e = i + 1 := ⟨e - 1, by omega⟩
    rw [Nat.pow_succ, ← Nat.mul_assoc] at heq
    omega

theorem lt_iff_int {x y : Float} {j k : Int} (hx : Whole x j) (hy : Whole y k) : x < y ↔ j < k := by
  rw [lt_iff_value hx.finite hy.finite, hx.value_eq, hy.value_eq, Int.cast_lt]

theorem whole_of_unpack {x : Float} {s : Sign} {m : Nat} {e k : Int} {hm : 0 < m}
    (h : x.toModel.unpack = .finite s m e hm) (hk : scaled s m e = k) : Whole x k :=
  ⟨isFinite_of_finite h, (value_of_finite h).trans hk⟩

theorem whole_signed {n : Nat} (h : n < 2 ^ 53) (negative : Bool) :
    Whole (signed negative (Float.ofNat n)) (if negative then -n else n) := by
  rcases Nat.eq_zero_or_pos n with rfl | hn
  · obtain ⟨s, hs⟩ := isZero_signed negative
    refine ⟨isFinite_of_zero hs, ?_⟩
    rw [value_of_zero hs]
    cases negative <;> simp
  · obtain ⟨hpos, hunpack⟩ := unpack_signed_ofNat hn h negative
    refine whole_of_unpack hunpack ?_
    have hmagnitude :
        ((n * 2 ^ (52 - n.log2) : Nat) : ℚ) * 2 ^ (-(52 - n.log2 : Nat) : Int) = n := by
      rw [zpow_neg, zpow_natCast]
      push_cast
      field_simp
    cases negative with
    | false => exact (scaled_positive _ _).trans hmagnitude
    | true =>
      refine (scaled_negative _ _).trans ?_
      rw [hmagnitude]
      simp

/-- A number without its fraction is its integer. -/
theorem whole_trunc {x : Float} (hx : x.isFinite) : Whole (trunc x) (toInt x) := by
  rcases Int.lt_or_le (exponent x) 0 with he | he
  · rw [trunc, if_pos (by simp [hx, he]), toInt]
    exact whole_signed (wholePart_of_exponent_neg hx he) (signBit x)
  · obtain ⟨hcanonical, hunpack⟩ := unpack_of_isFinite hx
    have hlow : 2 ^ 52 ≤ mantissa x := hcanonical.low.resolve_right (by omega)
    obtain ⟨s, hm, hs⟩ := hunpack.resolve_left fun h => by omega
    have hmagnitude : (mantissa x : ℚ) * 2 ^ exponent x = wholePart x := by
      obtain ⟨e, he⟩ : ∃ e : Nat, exponent x = e := ⟨_, (Int.toNat_of_nonneg he).symm⟩
      rw [wholePart, if_pos (by omega), he, Int.toNat_natCast, Nat.shiftLeft_eq, zpow_natCast]
      push_cast
      rfl
    rw [trunc, if_neg (by simp [he])]
    refine whole_of_unpack hs ?_
    rw [sign_of_unpack hs, sign, toInt]
    cases signBit x with
    | false => exact (scaled_positive _ _).trans hmagnitude
    | true =>
      refine (scaled_negative _ _).trans ?_
      rw [hmagnitude]
      simp

theorem isFinite_trunc (x : Float) : (trunc x).isFinite = x.isFinite := by
  cases hx : x.isFinite with
  | true => exact (whole_trunc hx).finite
  | false => rwa [trunc, if_neg (by simp [hx])]

end Number

end DeskScript
