import DeskScript.Native
import DeskScript.Proofs.Number.Nearest

/-!
# Ranges

A range is counted up in floating-point numbers. Between `-2 ^ 53` and `2 ^ 53` every step is exact,
and the range has the whole numbers that it should have. Outside of these bounds a step is rounded:
the count may pass over numbers, and it may come to one that adding one does not change, and stay
there for ever. `counted` says which integers are met, if the count arrives, and `range_exact` that
the function gives these numbers or does not end.

The check of the size comes before the count and is not affected: the difference of the bounds is at
most the limit as a floating-point number if and only if it is so as an integer.
-/

namespace DeskScript

open Number

namespace Native

/-! ## Counting in integers -/

/-- The integers from `j` up to `k`, which is not among them. -/
def upTo (j k : Int) : List Int := (List.range (k - j).toNat).map fun i : Nat => j + (i : Int)

/-- The integers that a count from `j` up to `k` meets, if it arrives. Beyond the exact ones it gets
to `k` only in a single step of two, or in such a step to `-2 ^ 53` and on from there. -/
def counted (j k : Int) : Option (List Int) :=
  if k ≤ j ∨ -2 ^ 53 ≤ j ∧ k ≤ 2 ^ 53 then some (upTo j k)
  else if j = -2 ^ 53 - 2 ∧ k ≤ 2 ^ 53 then some (j :: upTo (-2 ^ 53) k)
  else if j.natAbs < 2 ^ 54 ∧ j % 4 = 2 ∧ k = j + 2 then some [j]
  else none

theorem upTo_of_le {j k : Int} (h : k ≤ j) : upTo j k = [] := by
  rw [upTo, show (k - j).toNat = 0 by omega]
  rfl

theorem upTo_of_lt {j k : Int} (h : j < k) : upTo j k = j :: upTo (j + 1) k := by
  rw [upTo, upTo, show (k - j).toNat = (k - (j + 1)).toNat + 1 by omega, List.range_succ_eq_map,
    List.map_cons, List.map_map]
  congr 1
  · exact Int.add_zero j
  · refine List.map_congr_left fun i _ => ?_
    rw [Function.comp_apply]
    omega

theorem counted_of_le {j k : Int} (h : k ≤ j) : counted j k = some [] := by
  rw [counted, if_pos (.inl h), upTo_of_le h]

theorem lt_of_counted_none {j k : Int} (h : counted j k = none) : j < k := by
  by_contra hge
  rw [counted_of_le (by omega)] at h
  cases h

theorem counted_eq_none {j k : Int} (h : ¬ (k ≤ j ∨ -2 ^ 53 ≤ j ∧ k ≤ 2 ^ 53))
    (h' : ¬ (j = -2 ^ 53 - 2 ∧ k ≤ 2 ^ 53))
    (h'' : ¬ (j.natAbs < 2 ^ 54 ∧ j % 4 = 2 ∧ k = j + 2)) : counted j k = none := by
  rw [counted, if_neg h, if_neg h', if_neg h'']

/-- A count goes on from where adding one takes it. -/
theorem counted_of_lt {stop : Float} {j k : Int} (hstop : Whole stop k) (h : j < k) :
    counted j k = (counted (next j) k).map (j :: ·) := by
  have hk := hstop.even
  by_cases hexact : -2 ^ 53 ≤ j ∧ j < 2 ^ 53
  · rw [next, if_pos hexact]
    by_cases hle : k ≤ 2 ^ 53
    · rw [counted, if_pos (by omega), counted, if_pos (by omega), upTo_of_lt h, Option.map_some]
    · rw [counted_eq_none (by omega) (by omega) (by omega),
        counted_eq_none (by omega) (by omega) (by omega), Option.map_none]
  by_cases hhalf : j.natAbs < 2 ^ 54 ∧ j % 4 = 2
  · rw [next, if_neg hexact, if_pos hhalf]
    by_cases hfirst : j = -2 ^ 53 - 2 ∧ k ≤ 2 ^ 53
    · -- the count gets to where it is exact
      rw [counted, if_neg (by omega), if_pos hfirst, counted, if_pos (by omega), hfirst.1,
        Option.map_some]
      rfl
    by_cases hnext : k = j + 2
    · rw [counted, if_neg (by omega), if_neg hfirst, if_pos ⟨hhalf.1, hhalf.2, hnext⟩,
        counted_of_le (by omega), Option.map_some]
    · rw [counted_eq_none (by omega) hfirst (by omega),
        counted_eq_none (by omega) (by omega) (by omega), Option.map_none]
  · rw [next, if_neg hexact, if_neg hhalf, counted_eq_none (by omega) (by omega) (by omega),
      Option.map_none]

theorem length_of_counted {j k : Int} {is : List Int} (h : counted j k = some is) :
    is.length ≤ (k - j).toNat := by
  have hlength (i : Int) : (upTo i k).length = (k - i).toNat := by simp [upTo]
  unfold counted at h
  split_ifs at h with h₁ h₂ h₃ <;> obtain rfl := Option.some.inj h
  · rw [hlength]
  · rw [List.length_cons, hlength]
    omega
  · rw [List.length_singleton]
    omega

theorem increasing_of_counted {j k : Int} {is : List Int} (h : counted j k = some is) :
    is.Pairwise (· < ·) := by
  have hupTo (i : Int) : (upTo i k).Pairwise (· < ·) :=
    List.pairwise_lt_range.map _ fun a b hab => by omega
  unfold counted at h
  split_ifs at h with h₁ h₂ h₃ <;> obtain rfl := Option.some.inj h
  · exact hupTo j
  · refine List.pairwise_cons.mpr ⟨fun i hi => ?_, hupTo _⟩
    obtain ⟨d, -, rfl⟩ := List.mem_map.mp hi
    omega
  · exact List.pairwise_singleton _ _

/-! ## The loop -/

theorem countUp_of_not_lt {stop n : Float} (h : ¬ n < stop) (steps : Nat) (read : List Value) :
    countUp stop steps n read = some read.reverse := by
  cases steps <;> rw [countUp, if_neg h]

/-- A count that arrives takes one step for each number. -/
theorem countUp_of_counted {stop n : Float} {j k : Int} {is : List Int} (hn : Whole n j)
    (hstop : Whole stop k) (h : counted j k = some is) {steps : Nat} (hsteps : is.length ≤ steps)
    (read : List Value) :
    ∃ xs, countUp stop steps n read = some (read.reverse ++ xs.map .number) ∧
      List.Forall₂ Whole xs is ∧ ∀ x ∈ xs.head?, x = n := by
  induction steps generalizing n j is read with
  | zero =>
    obtain rfl : is = [] := List.eq_nil_of_length_eq_zero (Nat.le_zero.mp hsteps)
    have hdone : ¬ n < stop := by
      rw [lt_iff_int hn hstop]
      intro hlt
      rw [counted_of_lt hstop hlt] at h
      obtain ⟨_, -, hcons⟩ := Option.map_eq_some_iff.mp h
      cases hcons
    exact ⟨[], by rw [countUp_of_not_lt hdone, List.map_nil, List.append_nil], .nil, by simp⟩
  | succ steps ih =>
    by_cases hlt : j < k
    · rw [counted_of_lt hstop hlt] at h
      obtain ⟨rest, hrest, rfl⟩ := Option.map_eq_some_iff.mp h
      obtain ⟨xs, hrun, hwhole, -⟩ :=
        ih hn.add_one hrest (Nat.le_of_succ_le_succ hsteps) (.number n :: read)
      refine ⟨n :: xs, ?_, .cons hn hwhole, by simp⟩
      rw [countUp, if_pos ((lt_iff_int hn hstop).mpr hlt), hrun]
      simp
    · rw [counted_of_le (by omega)] at h
      obtain rfl := Option.some.inj h
      have hdone : ¬ n < stop := by rwa [lt_iff_int hn hstop]
      exact ⟨[], by rw [countUp_of_not_lt hdone, List.map_nil, List.append_nil], .nil, by simp⟩

/-- A count that does not arrive goes on for ever. -/
theorem countUp_of_counted_none {stop n : Float} {j k : Int} (hn : Whole n j)
    (hstop : Whole stop k) (h : counted j k = none) (steps : Nat) (read : List Value) :
    countUp stop steps n read = none := by
  induction steps generalizing n j read with
  | zero => rw [countUp, if_pos ((lt_iff_int hn hstop).mpr (lt_of_counted_none h))]
  | succ steps ih =>
    have hlt := lt_of_counted_none h
    rw [counted_of_lt hstop hlt, Option.map_eq_none_iff] at h
    rw [countUp, if_pos ((lt_iff_int hn hstop).mpr hlt)]
    exact ih hn.add_one h _

/-! ## Ranges -/

/-- The bounds that the arguments of `range` give. -/
def rangeBounds? : List Value → Option (Float × Float)
  | [.number stop] => some (0, stop)
  | .number start :: .number stop :: _ => some (start, stop)
  | _ => none

theorem range_of_no_bounds {args : List Value} (h : rangeBounds? args = none) :
    ∃ e, range args = some (.error e) := by
  match args with
  | [] => exact ⟨_, rfl⟩
  | [v] =>
    cases v with
    | number n => cases h
    | _ => exact ⟨_, rfl⟩
  | v :: w :: rest =>
    cases v with
    | number n =>
      cases w with
      | number m => cases h
      | _ => exact ⟨_, rfl⟩
    | _ => exact ⟨_, rfl⟩

theorem range_of_bounds {args : List Value} {a b : Float} (h : rangeBounds? args = some (a, b)) :
    range args =
      if Float.ofNat maxRange < trunc b - trunc a then
        some (.error (.rangeTooLarge (trunc b - trunc a)))
      else (countUp (trunc b) maxRange (trunc a) []).map fun items => .ok (.array items) := by
  match args with
  | [] => cases h
  | [v] =>
    cases v with
    | number n =>
      cases h
      rfl
    | _ => cases h
  | v :: w :: rest =>
    cases v with
    | number n =>
      cases w with
      | number m =>
        cases h
        rfl
      | _ => cases h
    | _ => cases h

theorem whole_maxRange : Whole (Float.ofNat maxRange) maxRange :=
  whole_signed (by decide) false

/-- The numbers of a range that starts with `start`: the integers `is` in order, not too many. -/
structure Listed (start : Float) (is : List Int) (xs : List Float) : Prop where
  whole : List.Forall₂ Whole xs is
  head : ∀ x ∈ xs.head?, x = start
  increasing : xs.Pairwise (· < ·)
  length_le : xs.length ≤ maxRange

theorem increasing_of_whole {xs : List Float} {is : List Int} (h : List.Forall₂ Whole xs is)
    (his : is.Pairwise (· < ·)) : xs.Pairwise (· < ·) := by
  have hlength := h.length_eq
  rw [List.pairwise_iff_get] at his ⊢
  intro i j hij
  refine (lt_iff_int (h.get i.isLt (hlength ▸ i.isLt)) (h.get j.isLt (hlength ▸ j.isLt))).mpr ?_
  exact his _ _ hij

/-- Between finite bounds that are not too far apart, a range is the count if that arrives. -/
theorem range_of_finite {args : List Value} {a b : Float}
    (hbounds : rangeBounds? args = some (a, b)) (ha : a.isFinite) (hb : b.isFinite) :
    if maxRange < toInt b - toInt a then
      range args = some (.error (.rangeTooLarge (trunc b - trunc a)))
    else
      match counted (toInt a) (toInt b) with
      | some is => ∃ xs, range args = some (.ok (.array (xs.map .number))) ∧ Listed (trunc a) is xs
      | none => range args = none ∧ ∀ steps, countUp (trunc b) steps (trunc a) [] = none := by
  have hstart := whole_trunc ha
  have hstop := whole_trunc hb
  have hsize := RoundsTo.lt_iff whole_maxRange (by decide) (hstop.sub hstart)
  rw [range_of_bounds hbounds]
  split
  · next hlarge => rw [if_pos (hsize.mpr hlarge)]
  · next hsmall =>
    rw [if_neg (mt hsize.mp hsmall)]
    split
    · next is his =>
      have hlength : is.length ≤ maxRange := by
        have hle := length_of_counted his
        omega
      obtain ⟨xs, hrun, hwhole, hhead⟩ := countUp_of_counted hstart hstop his hlength []
      refine ⟨xs, by rw [hrun]; rfl, hwhole, hhead, ?_, ?_⟩
      · exact increasing_of_whole hwhole (increasing_of_counted his)
      · rwa [hwhole.length_eq]
    · next hnone =>
      have hnever (steps : Nat) := countUp_of_counted_none hstart hstop hnone steps []
      exact ⟨by rw [hnever]; rfl, hnever⟩

/-- **A range has the numbers that are counted, or does not end.** Arguments that are no bounds are
an error. So are finite bounds with more numbers between them than the limit; otherwise the range is
the list of the integers that the count meets, from the lower bound on, or there is no result for any
number of steps. An infinite bound makes the range empty or too large. -/
theorem range_exact (args : List Value) :
    match rangeBounds? args with
    | none => ∃ e, range args = some (.error e)
    | some (a, b) =>
      if a.isFinite && b.isFinite then
        if maxRange < toInt b - toInt a then
          range args = some (.error (.rangeTooLarge (trunc b - trunc a)))
        else
          match counted (toInt a) (toInt b) with
          | some is => ∃ xs, range args = some (.ok (.array (xs.map .number))) ∧
              Listed (trunc a) is xs
          | none => range args = none ∧ ∀ steps, countUp (trunc b) steps (trunc a) [] = none
      else
        range args = some (if trunc a < trunc b then .error (.rangeTooLarge (trunc b - trunc a))
          else .ok (.array [])) := by
  cases hbounds : rangeBounds? args with
  | none => exact range_of_no_bounds hbounds
  | some bounds =>
    obtain ⟨a, b⟩ := bounds
    dsimp only
    split
    · next hfinite =>
      obtain ⟨ha, hb⟩ := Bool.and_eq_true_iff.mp hfinite
      exact range_of_finite hbounds ha hb
    · next hinfinite =>
      have hsize := lt_sub_iff_of_not_finite whole_maxRange.finite
        (show ((trunc a).isFinite && (trunc b).isFinite) = false by
          rw [isFinite_trunc, isFinite_trunc]
          exact Bool.eq_false_of_not_eq_true hinfinite)
      rw [range_of_bounds hbounds]
      by_cases hlt : trunc a < trunc b
      · rw [if_pos (hsize.mpr hlt), if_pos hlt]
      · rw [if_neg (mt hsize.mp hlt), if_neg hlt, countUp_of_not_lt hlt]
        rfl

/-- A range that never ends, and one that ends without a number that it should have. -/
theorem range_inexact :
    (range [.number 9007199254740992, .number 9007199254740994] = none ∧
      ∀ steps, countUp 9007199254740994 steps 9007199254740992 [] = none) ∧
    range [.number (-9007199254740994), .number (-9007199254740992)] =
      some (.ok (.array [.number (-9007199254740994)])) := by
  have hfinite := @range_of_finite [.number 9007199254740992, .number 9007199254740994] _ _
    rfl rfl rfl
  have hnone : counted (toInt 9007199254740992) (toInt 9007199254740994) = none := by decide
  rw [if_neg (by decide), hnone] at hfinite
  exact ⟨hfinite, rfl⟩

end Native

end DeskScript
