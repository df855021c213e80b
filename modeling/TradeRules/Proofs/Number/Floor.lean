import TradeRules.Proofs.Number.Whole

/-!
# The floor of a double

A finite double stands for a rational number. A whole number up to `2 ^ 53` is a double, and so is
the whole part of any finite double, since one that is not whole is below `2 ^ 53`. The floor of a
double is therefore never rounded: it is the floor of the rational number (`toRat_floor`). The
comparison with zero and the count of a double are read off the rational number as well; what is not
finite has no such number, and counts for nothing or for the greatest count.
-/

namespace TradeRules.Number.Binary64

open Float.Model
open Float.Model.UnpackedFloat (unpackExponent unpackMantissa)

theorem one_pos : 0 < one := Nat.two_pow_pos _

/-- The magnitude of a normal number, by its significand and its scale. -/
theorem units_normal {m : Nat} (hlow : 2 ^ 52 ≤ m) (hhigh : m < 2 ^ 53) (s : Nat) :
    units (s * 2 ^ 52 + m) = m * 2 ^ s := by
  have hscale : scale (s * 2 ^ 52 + m) = s := by
    unfold scale
    omega
  have hsignificand : significand (s * 2 ^ 52 + m) = m := by
    unfold significand
    split <;> omega
  rw [units, hscale, hsignificand]

/-- Only zero has no units. -/
theorem units_eq_zero_iff {w : Nat} : units w = 0 ↔ w = 0 := by
  have hpow : 2 ^ scale w ≠ 0 := Nat.ne_of_gt (Nat.two_pow_pos _)
  rw [units, Nat.mul_eq_zero, or_iff_left hpow, significand]
  split <;> omega

/-! ### Whole numbers that are doubles -/

/-- Below the normal numbers, a word is its units. -/
theorem units_subnormal {w : Nat} (h : w < 2 ^ 52) : units w = w := by
  have hscale : scale w = 0 := by
    unfold scale
    omega
  rw [units, hscale, significand, if_pos h, Nat.pow_zero, Nat.mul_one]

/-- Up to `2 ^ 53` times a power of two is a magnitude, unless the power is too great. -/
theorem exists_units_of_le {n s : Nat} (h : n ≤ 2 ^ 53) (hs : s ≤ 2044) :
    ∃ w < infinityWord, units w = n * 2 ^ s := by
  rcases Nat.eq_zero_or_pos n with rfl | hpos
  · exact ⟨0, by decide, by rw [units_eq_zero_iff.2 rfl, Nat.zero_mul]⟩
  rcases Nat.eq_or_lt_of_le h with rfl | hlt
  · refine ⟨(s + 1) * 2 ^ 52 + 2 ^ 52, ?_, ?_⟩
    · rw [infinityWord]
      omega
    · rw [units_normal (Nat.le_refl _) (by decide), Nat.pow_succ' (n := s), ← Nat.mul_assoc,
        ← Nat.pow_succ]
  have hlog : n.log2 ≤ 52 := Nat.le_of_lt_succ ((Nat.log2_lt (Nat.ne_of_gt hpos)).2 hlt)
  by_cases hroom : 52 - n.log2 ≤ s
  · -- Shifted to the left until its leading bit is the 53rd, the number is a significand.
    have hlow : 2 ^ 52 ≤ n * 2 ^ (52 - n.log2) := by
      calc 2 ^ 52 = 2 ^ n.log2 * 2 ^ (52 - n.log2) := by
            rw [← Nat.pow_add, Nat.add_sub_cancel' hlog]
        _ ≤ n * 2 ^ (52 - n.log2) := Nat.mul_le_mul_right _ (Nat.log2_self_le (Nat.ne_of_gt hpos))
    have hhigh : n * 2 ^ (52 - n.log2) < 2 ^ 53 := by
      calc n * 2 ^ (52 - n.log2) < 2 ^ (n.log2 + 1) * 2 ^ (52 - n.log2) :=
            Nat.mul_lt_mul_of_pos_right Nat.lt_log2_self (Nat.two_pow_pos _)
        _ = 2 ^ 53 := by rw [← Nat.pow_add]; congr 1; omega
    refine ⟨(s - (52 - n.log2)) * 2 ^ 52 + n * 2 ^ (52 - n.log2), ?_, ?_⟩
    · rw [infinityWord]
      omega
    · rw [units_normal hlow hhigh, Nat.mul_assoc, ← Nat.pow_add, Nat.add_sub_cancel' hroom]
  · -- There is no room for that many shifts: the number is below the normal ones.
    have hsmall : n * 2 ^ s < 2 ^ 52 := by
      calc n * 2 ^ s < 2 ^ (n.log2 + 1) * 2 ^ s :=
            Nat.mul_lt_mul_of_pos_right Nat.lt_log2_self (Nat.two_pow_pos _)
        _ = 2 ^ (n.log2 + 1 + s) := (Nat.pow_add ..).symm
        _ ≤ 2 ^ 52 := Nat.pow_le_pow_right (by decide) (by omega)
    exact ⟨n * 2 ^ s, Nat.lt_trans hsmall (by decide), units_subnormal hsmall⟩

/-- Whole numbers up to `2 ^ 53` are doubles. -/
theorem exists_units_one_of_le {n : Nat} (h : n ≤ 2 ^ 53) :
    ∃ w < infinityWord, units w = n * one := exists_units_of_le h (by decide)

/-- A double that is not whole is below `2 ^ 53`: from there on, no significand has a bit to the right
of the point. -/
theorem whole_lt_of_mod_ne_zero {w : Nat} (h : units w % one ≠ 0) : units w / one < 2 ^ 53 := by
  have hscale : scale w < halvings := by
    by_contra hle
    have hdvd : one ∣ units w :=
      Nat.dvd_mul_left_of_dvd (Nat.pow_dvd_pow 2 (Nat.le_of_not_lt hle)) _
    exact h (Nat.mod_eq_zero_of_dvd hdvd)
  rw [Nat.div_lt_iff_lt_mul one_pos]
  calc units w < 2 ^ 53 * 2 ^ scale w :=
        Nat.mul_lt_mul_of_pos_right (significand_lt w) (Nat.two_pow_pos _)
    _ ≤ 2 ^ 53 * one :=
        Nat.mul_le_mul_left _ (Nat.pow_le_pow_right (by decide) (Nat.le_of_lt hscale))

/-- The whole part of a finite double is a double. -/
theorem exists_units_whole {w : Nat} (h : w < infinityWord) :
    ∃ v < infinityWord, units v = units w / one * one := by
  by_cases hwhole : units w % one = 0
  · exact ⟨w, h, (Nat.div_mul_cancel (Nat.dvd_of_mod_eq_zero hwhole)).symm⟩
  · exact exists_units_one_of_le (Nat.le_of_lt (whole_lt_of_mod_ne_zero hwhole))

/-- A whole number that is a double is rounded to that double. -/
theorem units_nearestWord {n : Nat} (h : ∃ w < infinityWord, units w = n * one) :
    nearestWord n 1 < infinityWord ∧ units (nearestWord n 1) = n * one := by
  obtain ⟨w, hw, hunits⟩ := h
  rw [nearestWord_of_units hw Nat.one_pos (by rw [hunits, Nat.mul_one])]
  exact ⟨hw, hunits⟩

/-! ### Rational numbers -/

/-- The magnitude of a word, as a rational number. -/
def magnitude (w : Nat) : ℚ := (units w : ℚ) / one

/-- The rational number that a finite double stands for. -/
def toRat (x : Float) : ℚ := if isNegative x then -magnitude (wordOf x) else magnitude (wordOf x)

theorem magnitude_nonneg (w : Nat) : 0 ≤ magnitude w :=
  div_nonneg (Nat.cast_nonneg _) (Nat.cast_nonneg _)

/-- Only zero has no magnitude. -/
theorem magnitude_eq_zero_iff {w : Nat} : magnitude w = 0 ↔ w = 0 := by
  have hone : (one : ℚ) ≠ 0 := Nat.cast_ne_zero.2 (Nat.ne_of_gt one_pos)
  rw [magnitude, div_eq_zero_iff, or_iff_left hone, Nat.cast_eq_zero, units_eq_zero_iff]

/-- So many times one is a whole magnitude. -/
theorem magnitude_of_units {w n : Nat} (h : units w = n * one) : magnitude w = n := by
  have hone : (one : ℚ) ≠ 0 := Nat.cast_ne_zero.2 (Nat.ne_of_gt one_pos)
  rw [magnitude, h, Nat.cast_mul, mul_div_cancel_right₀ _ hone]

/-- The whole part of a magnitude is a quotient of naturals. -/
theorem floor_magnitude (w : Nat) : ⌊magnitude w⌋₊ = units w / one := Nat.floor_div_eq_div _ _

/-- Below zero, a magnitude that is not whole goes down to the next whole number. -/
theorem floor_neg_magnitude {w : Nat} (h : units w % one ≠ 0) :
    ⌊-magnitude w⌋ = -((units w / one + 1 : Nat) : ℤ) := by
  have hone : (0 : ℚ) < one := Nat.cast_pos.2 one_pos
  have hdiv : units w / one * one + units w % one = units w := Nat.div_add_mod' _ _
  have hrest : units w % one < one := Nat.mod_lt _ one_pos
  have hbelow : ((units w / one : Nat) : ℚ) < magnitude w := by
    have hunits : units w / one * one < units w := by omega
    rw [magnitude, lt_div_iff₀ hone]
    exact_mod_cast hunits
  have habove : magnitude w ≤ ((units w / one + 1 : Nat) : ℚ) := by
    have hunits : units w ≤ (units w / one + 1) * one := by
      rw [Nat.add_one_mul]
      omega
    rw [magnitude, div_le_iff₀ hone]
    exact_mod_cast hunits
  rw [Int.floor_eq_iff, Int.cast_neg, Int.cast_natCast]
  rw [Nat.cast_add_one] at habove ⊢
  exact ⟨by linarith, by linarith⟩

/-- The rational number of a double that is made of a sign and a word. -/
theorem toRat_ofWord (negative : Bool) {w : Nat} (h : w ≤ infinityWord) :
    toRat (ofWord negative w) = if negative then -magnitude w else magnitude w := by
  rw [toRat, isNegative_ofWord negative h, wordOf_ofWord negative h]

/-- The floor of a finite double is finite, and is the floor of the rational number. -/
theorem toRat_floor {x : Float} (h : wordOf x < infinityWord) :
    wordOf (floor x) < infinityWord ∧ toRat (floor x) = ⌊toRat x⌋ := by
  simp only [floor]
  rw [if_neg (Nat.not_le_of_lt h)]
  cases hsign : isNegative x with
  | false =>
    have hx : toRat x = magnitude (wordOf x) := by
      rw [toRat, hsign, if_neg Bool.false_ne_true]
    have hfloor : ⌊magnitude (wordOf x)⌋ = (units (wordOf x) / one : Nat) := by
      rw [← Int.natCast_floor_eq_floor (magnitude_nonneg _), floor_magnitude]
    obtain ⟨hfinite, hunits⟩ := units_nearestWord (exists_units_whole h)
    rw [if_neg Bool.false_ne_true, wordOf_ofWord _ hfinite.le, toRat_ofWord _ hfinite.le,
      if_neg Bool.false_ne_true, magnitude_of_units hunits, hx, hfloor, Int.cast_natCast]
    exact ⟨hfinite, rfl⟩
  | true =>
    have hx : toRat x = -magnitude (wordOf x) := by rw [toRat, hsign, if_pos rfl]
    rw [if_pos rfl]
    by_cases hwhole : units (wordOf x) % one = 0
    · have hunits : units (wordOf x) = units (wordOf x) / one * one :=
        (Nat.div_mul_cancel (Nat.dvd_of_mod_eq_zero hwhole)).symm
      rw [if_pos hwhole, hx, magnitude_of_units hunits, ← Int.cast_natCast, ← Int.cast_neg,
        Int.floor_intCast]
      exact ⟨h, rfl⟩
    · have hnext := exists_units_one_of_le (whole_lt_of_mod_ne_zero hwhole)
      obtain ⟨hfinite, hunits⟩ := units_nearestWord hnext
      rw [if_neg hwhole, wordOf_ofWord _ hfinite.le, toRat_ofWord _ hfinite.le, if_pos rfl,
        magnitude_of_units hunits, hx, floor_neg_magnitude hwhole, Int.cast_neg, Int.cast_natCast]
      exact ⟨hfinite, rfl⟩

/-- The word is zero where both the exponent and the mantissa are. -/
theorem wordOf_eq_zero_iff (x : Float) :
    wordOf x = 0 ↔ unpackExponent (bitsOf x) = 0 ∧ unpackMantissa (bitsOf x) = 0 := by
  rw [← BitVec.toNat_inj, ← BitVec.toNat_inj, toNat_unpackExponent_bitsOf,
    toNat_unpackMantissa_bitsOf]
  change _ ↔ wordOf x / 2 ^ 52 = 0 ∧ wordOf x % 2 ^ 52 = 0
  omega

/-- A finite double without a minus sign is not above zero only where its word is zero. -/
theorem atMost_zero_iff_wordOf {x : Float} (hx : wordOf x < infinityWord)
    (h : isNegative x = false) : Scalar.atMost x Scalar.zero = true ↔ wordOf x = 0 := by
  have hexp := (wordOf_lt_infinityWord_iff x).1 hx
  have hunpack : x.toModel.unpack = UnpackedFloat.unpack Format.binary64 (bitsOf x) := rfl
  rw [atMost_eq, unpack_zero, hunpack, wordOf_eq_zero_iff]
  unfold UnpackedFloat.unpack
  simp only [ofBitVec_unpackSign, h, Bool.false_eq_true, if_false]
  rw [if_neg hexp]
  split
  · rename_i hexponent
    split
    · rename_i hmantissa
      exact iff_of_true rfl ⟨hexponent, hmantissa⟩
    · rename_i hmantissa
      exact iff_of_false Bool.false_ne_true fun hzero => hmantissa hzero.2
  · rename_i hexponent
    exact iff_of_false Bool.false_ne_true fun hzero => hexponent hzero.1

/-- A finite double is at most zero where its rational number is. -/
theorem atMost_zero_iff {x : Float} (hx : wordOf x < infinityWord) :
    Scalar.atMost x Scalar.zero = true ↔ toRat x ≤ 0 := by
  cases hsign : isNegative x with
  | true =>
    have hrat : toRat x ≤ 0 := by
      rw [toRat, if_pos hsign]
      exact neg_nonpos.2 (magnitude_nonneg _)
    exact iff_of_true (atMost_zero_of_isNegative hx.le hsign) hrat
  | false =>
    rw [atMost_zero_iff_wordOf hx hsign, toRat, hsign, if_neg Bool.false_ne_true,
      ← magnitude_eq_zero_iff]
    exact (magnitude_nonneg _).ge_iff_eq'.symm

/-- A finite double counts for the whole part of its rational number, up to the greatest count. -/
theorem toCount_eq {x : Float} (hx : wordOf x < infinityWord) :
    toCount x = min ⌊toRat x⌋₊ maxCount := by
  cases hsign : isNegative x with
  | true =>
    have hfloor : ⌊toRat x⌋₊ = 0 := by
      rw [toRat, if_pos hsign]
      exact Nat.floor_of_nonpos (neg_nonpos.2 (magnitude_nonneg _))
    rw [hfloor, Nat.zero_min]
    simp only [toCount, hsign, Bool.true_or, if_true]
  | false =>
    rw [toCount_of_not_isNegative hx hsign, toRat, hsign, if_neg Bool.false_ne_true, floor_magnitude]

/-- Where the floor of a finite double is above zero, it counts for at least one, and for all of the
floor of the rational number up to the greatest count. -/
theorem toCount_floor {x : Float} (hx : wordOf x < infinityWord)
    (hpos : Scalar.atMost (floor x) Scalar.zero = false) :
    1 ≤ toCount (floor x) ∧ (toCount (floor x) : ℤ) = min ⌊toRat x⌋ maxCount := by
  obtain ⟨hfinite, hfloor⟩ := toRat_floor hx
  have habove : 0 < ⌊toRat x⌋ := by
    have hnot : ¬toRat (floor x) ≤ 0 := by
      rw [← atMost_zero_iff hfinite, hpos]
      exact Bool.false_ne_true
    rw [hfloor] at hnot
    exact_mod_cast not_le.1 hnot
  have hcount : (toCount (floor x) : ℤ) = min ⌊toRat x⌋ maxCount := by
    rw [toCount_eq hfinite, hfloor, ← Int.floor_toNat, Int.floor_intCast, Nat.cast_min,
      Int.toNat_of_nonneg habove.le]
  refine ⟨?_, hcount⟩
  have hgreatest : (1 : ℤ) ≤ maxCount := by decide
  omega

/-- What is not finite is its own floor. -/
theorem floor_of_not_finite {x : Float} (hx : ¬wordOf x < infinityWord) : floor x = x :=
  if_pos (Nat.le_of_not_lt hx)

/-- What is not finite passes for above zero unless it is minus infinity. It counts for the greatest
count where it is infinity, and for nothing where it is no number. -/
theorem toCount_floor_of_not_finite {x : Float} (hx : ¬wordOf x < infinityWord)
    (hpos : Scalar.atMost (floor x) Scalar.zero = false) :
    toCount (floor x) = if infinityWord < wordOf x then 0 else maxCount := by
  rw [floor_of_not_finite hx] at hpos ⊢
  by_cases hnumber : infinityWord < wordOf x
  · simp only [toCount, hnumber, decide_true, Bool.or_true, if_true]
  · have hword : wordOf x = infinityWord := by omega
    have hsign : isNegative x = false := isNegative_eq_false hword.le hpos
    have hgreat : maxCount ≤ units infinityWord / one := by decide +kernel
    simp only [toCount, hsign, hnumber, decide_false, Bool.or_self, Bool.false_eq_true, if_false]
    rw [hword, Nat.min_eq_right hgreat]

end TradeRules.Number.Binary64
