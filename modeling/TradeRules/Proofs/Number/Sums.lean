import TradeRules.Proofs.Number.Period

/-!
# Sums of doubles

A sum or a difference of two doubles is rounded once, and what it is rounded to depends on the
exact sum alone: rounding does not see with which exponent a number is written (`normalize_scaled`).
With finite doubles counted in the least unit, to add them is to add their counts and to round once
(`add_eq_ofUnits`, `sub_eq_ofUnits`). A sum that is a double itself is therefore exact
(`Exactly.add`). So are the sums of whole multiples of one power of two, up to `2 ^ 53` times that
power (`AddsExactly`).

What is not finite stays: no addition or subtraction leads back to a finite double.
-/

namespace TradeRules.Number.Binary64

open Float.Model
open Float.Model.UnpackedFloat (Sign ExtendedMantissa roundWithAccuracy decreaseExponent
  shiftToExponent shiftToTargetExponent unpackExponent unpackMantissa)

/-! ### Rounding depends on the value alone -/

/-- Shifting a mantissa back over zeros leaves no residue. -/
theorem shiftRight_scaled (m j : Nat) :
    ExtendedMantissa.ofMantissaAndAccuracy (m * 2 ^ j) .exact >>> j =
      ExtendedMantissa.ofMantissaAndAccuracy m .exact := by
  induction j generalizing m with
  | zero => rw [Nat.pow_zero, Nat.mul_one]; rfl
  | succ j ih =>
    change ExtendedMantissa.shiftRightOne
      (ExtendedMantissa.ofMantissaAndAccuracy (m * 2 ^ (j + 1)) .exact >>> j) = _
    rw [Nat.pow_succ', ← Nat.mul_assoc, ih]
    simp [ExtendedMantissa.shiftRightOne, ExtendedMantissa.ofMantissaAndAccuracy]

/-- Two shifts to the right are one. -/
theorem shiftRight_add (em : ExtendedMantissa) (i j : Nat) : em >>> (i + j) = em >>> i >>> j := by
  induction j with
  | zero => rfl
  | succ j ih => exact congrArg ExtendedMantissa.shiftRightOne ih

/-- A mantissa that is shifted to the left has its leading bit so much higher. -/
theorem log2_scaled {m : Nat} (hm : 0 < m) (j : Nat) : (m * 2 ^ j).log2 = m.log2 + j := by
  induction j with
  | zero => rw [Nat.pow_zero, Nat.mul_one, Nat.add_zero]
  | succ j ih =>
    have hne : m * 2 ^ j ≠ 0 := Nat.ne_of_gt (Nat.mul_pos hm (Nat.two_pow_pos j))
    rw [Nat.pow_succ', Nat.mul_left_comm, Nat.log2_two_mul hne, ih, Nat.add_assoc]

/-- The exponent of the leading bit does not depend on how a number is written. -/
theorem totalExponent_scaled {m : Nat} (hm : 0 < m) (e : Int) (j : Nat) :
    totalExponent (m * 2 ^ j) (e - j) = totalExponent m e := by
  rw [totalExponent, totalExponent, log2_scaled hm]
  omega

/-- Shifting to an exponent that is not below that of a number forgets how the number is written. -/
theorem shiftToExponent_scaled (m j : Nat) {e t : Int} (h : e ≤ t) :
    shiftToExponent (m * 2 ^ j) (e - j) .exact t = shiftToExponent m e .exact t := by
  have hshift : (t - (e - j)).toNat = j + (t - e).toNat := by omega
  have hexp : e - j + ((j + (t - e).toNat : Nat) : Int) = e + ((t - e).toNat : Nat) := by omega
  simp only [shiftToExponent, hshift, hexp, shiftRight_add, shiftRight_scaled]

/-- So does rounding from below the target exponent. -/
theorem roundWithAccuracy_scaled (s : Sign) {m : Nat} (hm : 0 < m) (j : Nat) {e : Int}
    (h : e ≤ Format.binary64.targetExponent (totalExponent m e)) :
    roundWithAccuracy Format.binary64 s (m * 2 ^ j) (e - j) .exact =
      roundWithAccuracy Format.binary64 s m e .exact := by
  have hfirst : shiftToTargetExponent Format.binary64 (m * 2 ^ j) (e - j) .exact =
      shiftToTargetExponent Format.binary64 m e .exact := by
    rw [shiftToTargetExponent, totalExponent_scaled hm]
    exact shiftToExponent_scaled m j h
  rw [roundWithAccuracy, hfirst, roundWithAccuracy]

/-- Rounding first lowers the exponent to its target, if it is above. -/
theorem round_eq (s : Sign) (m : Nat) (e : Int) {t : Int}
    (ht : Format.binary64.targetExponent (totalExponent m e) = t) :
    UnpackedFloat.round Format.binary64 s m e =
      roundWithAccuracy Format.binary64 s (m * 2 ^ (e - t).toNat) (e - (e - t).toNat) .exact := by
  rw [UnpackedFloat.round, ht, decreaseExponent, Nat.shiftLeft_eq]

/-- Rounding does not depend on how a number is written. -/
theorem round_scaled (s : Sign) {m : Nat} (hm : 0 < m) (e : Int) (j : Nat) :
    UnpackedFloat.round Format.binary64 s (m * 2 ^ j) (e - j) =
      UnpackedFloat.round Format.binary64 s m e := by
  generalize ht : Format.binary64.targetExponent (totalExponent m e) = t
  have ht' : Format.binary64.targetExponent (totalExponent (m * 2 ^ j) (e - j)) = t := by
    rw [totalExponent_scaled hm, ht]
  -- Lowered from the smaller exponent, the number is shifted at least as far to the left.
  obtain ⟨i, hi⟩ : ∃ i, j + (e - j - t).toNat = (e - t).toNat + i :=
    ⟨j + (e - j - t).toNat - (e - t).toNat, by omega⟩
  have hmantissa : m * 2 ^ j * 2 ^ (e - j - t).toNat = m * 2 ^ (e - t).toNat * 2 ^ i := by
    rw [Nat.mul_assoc, ← Nat.pow_add, hi, Nat.pow_add, Nat.mul_assoc]
  have hexponent : e - j - ((e - j - t).toNat : Int) = e - ((e - t).toNat : Int) - i := by omega
  have hle : e - ((e - t).toNat : Int) ≤ Format.binary64.targetExponent
      (totalExponent (m * 2 ^ (e - t).toNat) (e - (e - t).toNat)) := by
    rw [totalExponent_scaled hm, ht]
    omega
  rw [round_eq s _ _ ht', round_eq s m e ht, hmantissa, hexponent,
    roundWithAccuracy_scaled s (Nat.mul_pos hm (Nat.two_pow_pos _)) i hle]

/-- The sign of a number tells on which side it is rounded. -/
theorem normalize_apply (s : Sign) {m : Nat} (hm : 0 < m) (e : Int) (z : Sign) :
    UnpackedFloat.normalize Format.binary64 (s.apply m) e z =
      UnpackedFloat.round Format.binary64 s m e := by
  cases s with
  | positive =>
    have hcompare : compare (m : Int) 0 = .gt := Int.compare_eq_gt.2 (by omega)
    simp only [UnpackedFloat.normalize, Sign.apply, hcompare, Int.toNat_natCast]
  | negative =>
    have hcompare : compare (-(m : Int)) 0 = .lt := Int.compare_eq_lt.2 (by omega)
    simp only [UnpackedFloat.normalize, Sign.apply, hcompare, Int.neg_neg, Int.toNat_natCast]

/-- Every integer but zero has a sign and a magnitude. -/
theorem exists_apply {k : Int} (hk : k ≠ 0) : ∃ (s : Sign) (m : Nat), 0 < m ∧ k = s.apply m := by
  rcases Int.lt_or_gt_of_ne hk with h | h
  · exact ⟨.negative, k.natAbs, by omega, by simp only [Sign.apply]; omega⟩
  · exact ⟨.positive, k.natAbs, by omega, by simp only [Sign.apply]; omega⟩

theorem apply_mul (s : Sign) (m n : Nat) : s.apply ((m * n : Nat) : Int) = s.apply m * n := by
  cases s with
  | positive => exact Nat.cast_mul m n
  | negative => rw [Sign.apply, Sign.apply, Nat.cast_mul, Int.neg_mul]

/-- With a sign, too, rounding does not depend on how a number is written. -/
theorem normalize_scaled (k e : Int) (j : Nat) (z : Sign) :
    UnpackedFloat.normalize Format.binary64 (k * 2 ^ j) (e - j) z =
      UnpackedFloat.normalize Format.binary64 k e z := by
  by_cases hk : k = 0
  · rw [hk, Int.zero_mul]
    rfl
  · obtain ⟨s, m, hm, rfl⟩ := exists_apply hk
    have hpow : s.apply (m : Int) * 2 ^ j = s.apply ((m * 2 ^ j : Nat) : Int) := by
      rw [apply_mul, Nat.cast_pow, Nat.cast_ofNat]
    rw [hpow, normalize_apply s (Nat.mul_pos hm (Nat.two_pow_pos j)), normalize_apply s hm,
      round_scaled s hm]

/-- A number that has its target exponent already is kept. -/
theorem round_canonical (s : Sign) {m : Nat} (hm : 0 < m) {e : Int}
    (h : Format.binary64.targetExponent (totalExponent m e) = e) :
    UnpackedFloat.round Format.binary64 s m e = .finite s m e hm := by
  have hkept : shiftToTargetExponent Format.binary64 m e .exact =
      (ExtendedMantissa.ofMantissaAndAccuracy m .exact, e) := by
    rw [shiftToTargetExponent, h, shiftToExponent, Int.sub_self]
    exact congrArg (Prod.mk _) (Int.add_zero e)
  rw [round_eq s m e h, Int.sub_self, Int.toNat_zero, Nat.pow_zero, Nat.mul_one, Nat.cast_zero,
    Int.sub_zero, roundWithAccuracy, hkept]
  simp only [ExtendedMantissa.roundedMantissa, ExtendedMantissa.ofMantissaAndAccuracy,
    ExtendedMantissa.accuracy, UnpackedFloat.Accuracy.roundToNearestEven, hkept,
    Nat.ne_of_gt hm, dite_false]

/-! ### Doubles counted in the least unit -/

/-- A finite double other than minus zero. -/
structure IsProper (x : Float) : Prop where
  /-- It is finite. -/
  finite : wordOf x < infinityWord
  /-- Zero has no sign. -/
  sign : wordOf x = 0 → isNegative x = false

/-- How often the least unit goes into a finite double. -/
def signedUnits (x : Float) : ℤ :=
  if isNegative x then -(units (wordOf x)) else units (wordOf x)

/-- What so many units are rounded to. -/
def ofUnits (n : ℤ) : Float :=
  Float.ofModel (pack (UnpackedFloat.normalize Format.binary64 n (-1074) .positive))

/-- The sign of a double. -/
def signOf (x : Float) : Sign := if isNegative x then .negative else .positive

/-- The rational number of a double, by its units. -/
theorem toRat_eq_signedUnits (x : Float) : toRat x = signedUnits x / one := by
  rw [toRat, signedUnits, magnitude]
  split
  · rw [Int.cast_neg, Int.cast_natCast, neg_div]
  · rw [Int.cast_natCast]

/-- The sign, the significand and the scale of a double make its units. -/
theorem apply_significand (x : Float) :
    (signOf x).apply (significand (wordOf x)) * 2 ^ scale (wordOf x) = signedUnits x := by
  have hunits : signedUnits x = (signOf x).apply (units (wordOf x)) := by
    rw [signedUnits, signOf]
    split <;> rfl
  rw [hunits, units, apply_mul, Nat.cast_pow, Nat.cast_ofNat]

/-- A significand is above zero unless the word is zero. -/
theorem significand_pos {w : Nat} (hw : w ≠ 0) : 0 < significand w := by
  unfold significand
  split <;> omega

/-- Finite numbers of one sign are told apart by mantissa and exponent. -/
theorem finite_congr {s : Sign} {m n : Nat} {e f : Int} {hm : 0 < m} {hn : 0 < n} (h : m = n)
    (he : e = f) : UnpackedFloat.finite s m e hm = .finite s n f hn := by
  subst h he
  rfl

/-- Zero and minus zero, unpacked. -/
theorem unpack_of_wordOf_eq_zero {x : Float} (hw : wordOf x = 0) :
    x.toModel.unpack = .zero (signOf x) := by
  have hexp := (wordOf_lt_infinityWord_iff x).1 (by rw [hw]; decide)
  have hexponent : unpackExponent (bitsOf x) = 0#11 := ((wordOf_eq_zero_iff x).1 hw).1
  have hmantissa : unpackMantissa (bitsOf x) = 0#52 := ((wordOf_eq_zero_iff x).1 hw).2
  change UnpackedFloat.unpack Format.binary64 (bitsOf x) = _
  unfold UnpackedFloat.unpack
  simp only [ofBitVec_unpackSign]
  rw [if_neg hexp, if_pos hexponent, dif_pos hmantissa, signOf]

/-- A finite double other than zero is unpacked to its significand, with the exponent of its
scale. -/
theorem unpack_of_wordOf_ne_zero {x : Float} (hx : wordOf x < infinityWord) (hw : wordOf x ≠ 0) :
    x.toModel.unpack =
      .finite (signOf x) (significand (wordOf x)) (scale (wordOf x) - 1074)
        (significand_pos hw) := by
  have hexp := (wordOf_lt_infinityWord_iff x).1 hx
  have hexponent : (unpackExponent (bitsOf x)).toNat = wordOf x / 2 ^ 52 :=
    toNat_unpackExponent_bitsOf x
  have hmantissa : (unpackMantissa (bitsOf x)).toNat = wordOf x % 2 ^ 52 :=
    toNat_unpackMantissa_bitsOf x
  have hbias : (Format.binary64.exponentBias : Int) = 1023 := rfl
  change UnpackedFloat.unpack Format.binary64 (bitsOf x) = _
  unfold UnpackedFloat.unpack
  simp only [ofBitVec_unpackSign]
  rw [if_neg hexp]
  split
  · rename_i hsubnormal
    have hsmall : wordOf x / 2 ^ 52 = 0 := by rw [← hexponent, hsubnormal]; rfl
    have hne : unpackMantissa (bitsOf x) ≠ 0#52 := by
      intro hzero
      rw [hzero] at hmantissa
      change 0 = wordOf x % 2 ^ 52 at hmantissa
      omega
    rw [dif_neg hne]
    refine finite_congr ?_ ?_
    · rw [hmantissa, significand, if_pos (by omega), Nat.mod_eq_of_lt (by omega)]
    · rw [hexponent, hbias, scale]
      omega
  · rename_i hnormal
    have hlarge : wordOf x / 2 ^ 52 ≠ 0 := by
      intro hzero
      exact hnormal (BitVec.eq_of_toNat_eq (hexponent.trans hzero))
    refine finite_congr ?_ ?_
    · rw [toNat_leading, hmantissa, significand, if_neg (by omega)]
    · rw [hexponent, hbias, scale]
      omega

/-- A significand and its scale are those that rounding would choose. -/
theorem targetExponent_significand {w : Nat} (hw : w ≠ 0) :
    Format.binary64.targetExponent (totalExponent (significand w) (scale w - 1074)) =
      scale w - 1074 := by
  have hpos : significand w ≠ 0 := Nat.ne_of_gt (significand_pos hw)
  have hhigh : (significand w).log2 < 53 := (Nat.log2_lt hpos).2 (significand_lt w)
  have hlow : 0 < scale w → 52 ≤ (significand w).log2 := fun hscale =>
    (Nat.le_log2 hpos).2 (le_significand hscale)
  have hbits : Format.binary64.mantissaBits = 53 := rfl
  have hleast : Format.binary64.minExponent = -1074 := rfl
  rw [Format.targetExponent, totalExponent, hbits, hleast]
  omega

/-- A number written with any scale, rounded as a number of units. -/
theorem normalize_units (k : Int) (i : Nat) (z : Sign) :
    UnpackedFloat.normalize Format.binary64 k (i - 1074) z =
      UnpackedFloat.normalize Format.binary64 (k * 2 ^ i) (-1074) z := by
  have hexp : (i : Int) - 1074 - i = -1074 := by omega
  rw [← normalize_scaled k _ i, hexp]

/-- A significand with its scale is what its units are rounded to. -/
theorem normalize_significand (s : Sign) {w : Nat} (hw : w ≠ 0) (z : Sign) :
    UnpackedFloat.normalize Format.binary64 (s.apply (significand w) * 2 ^ scale w) (-1074) z =
      .finite s (significand w) (scale w - 1074) (significand_pos hw) := by
  rw [← normalize_units, normalize_apply s (significand_pos hw),
    round_canonical s (significand_pos hw) (targetExponent_significand hw)]

/-- A finite double other than zero is unpacked to its units, rounded. -/
theorem unpack_eq_normalize {x : Float} (hx : wordOf x < infinityWord) (hw : wordOf x ≠ 0) :
    x.toModel.unpack =
      UnpackedFloat.normalize Format.binary64 (signedUnits x) (-1074) .positive := by
  rw [unpack_of_wordOf_ne_zero hx hw, ← apply_significand, normalize_significand _ hw]

/-- Lowered to the smaller of two scales, a mantissa counts the same units. -/
theorem decreaseExponent_units (s : Sign) (m i k : Nat) (h : k ≤ i) :
    s.apply ((decreaseExponent m (i - 1074) (k - 1074)).1 : Int) * 2 ^ k = s.apply m * 2 ^ i := by
  have hshift : ((i : Int) - 1074 - (k - 1074)).toNat = i - k := by omega
  rw [decreaseExponent, hshift, Nat.shiftLeft_eq, apply_mul, Int.mul_assoc, Nat.cast_pow,
    Nat.cast_ofNat, ← Int.pow_add, Nat.sub_add_cancel h]

/-- The exact sum of two finite numbers, in units, is rounded once. -/
theorem add_finite (s t : Sign) {m n : Nat} (hm : 0 < m) (hn : 0 < n) (i j : Nat) :
    UnpackedFloat.add Format.binary64 (.finite s m (i - 1074) hm) (.finite t n (j - 1074) hn) =
      UnpackedFloat.normalize Format.binary64 (s.apply m * 2 ^ i + t.apply n * 2 ^ j) (-1074)
        .positive := by
  have hmin : min ((i : Int) - 1074) (j - 1074) = (min i j : Nat) - 1074 := by omega
  rw [UnpackedFloat.add, hmin]
  dsimp only
  rw [normalize_units, Int.add_mul, decreaseExponent_units s m i _ (Nat.min_le_left i j),
    decreaseExponent_units t n j _ (Nat.min_le_right i j)]

theorem apply_neg (s : Sign) (m : Int) : (-s).apply m = -s.apply m := by
  cases s with
  | positive => rfl
  | negative => exact (Int.neg_neg m).symm

/-- To take away is to add the negation. -/
theorem sub_eq_add_neg (u v : UnpackedFloat) :
    UnpackedFloat.sub Format.binary64 u v = UnpackedFloat.add Format.binary64 u v.neg := by
  cases u <;> cases v <;>
    simp only [UnpackedFloat.sub, UnpackedFloat.add, UnpackedFloat.neg, apply_neg,
      Int.sub_eq_add_neg]

/-- The exact difference of two finite numbers is rounded once, too. -/
theorem sub_finite (s t : Sign) {m n : Nat} (hm : 0 < m) (hn : 0 < n) (i j : Nat) :
    UnpackedFloat.sub Format.binary64 (.finite s m (i - 1074) hm) (.finite t n (j - 1074) hn) =
      UnpackedFloat.normalize Format.binary64 (s.apply m * 2 ^ i - t.apply n * 2 ^ j) (-1074)
        .positive := by
  rw [sub_eq_add_neg, UnpackedFloat.neg, add_finite, apply_neg, Int.neg_mul, Int.sub_eq_add_neg]

/-- Zero with its proper sign, unpacked. -/
theorem IsProper.unpack_of_zero {x : Float} (hx : IsProper x) (hw : wordOf x = 0) :
    x.toModel.unpack = .zero .positive := by
  rw [unpack_of_wordOf_eq_zero hw, signOf, hx.sign hw, if_neg Bool.false_ne_true]

theorem signedUnits_of_zero {x : Float} (hw : wordOf x = 0) : signedUnits x = 0 := by
  rw [signedUnits, hw, units_eq_zero_iff.2 rfl, Nat.cast_zero, Int.neg_zero, ite_self]

/-- What is unpacked and packed again is the double. -/
theorem ofModel_pack_unpack (x : Float) : Float.ofModel (pack x.toModel.unpack) = x :=
  ofBits_toBits x

/-- The units of a double are rounded to the double. -/
theorem ofUnits_signedUnits {x : Float} (hx : IsProper x) : ofUnits (signedUnits x) = x := by
  rw [ofUnits]
  by_cases hw : wordOf x = 0
  · rw [signedUnits_of_zero hw]
    have hzero := congrArg (Float.ofModel ∘ pack) (hx.unpack_of_zero hw)
    exact hzero.symm.trans (ofModel_pack_unpack x)
  · rw [← unpack_eq_normalize hx.finite hw, ofModel_pack_unpack]

/-- A sum of doubles is what the sum of their units is rounded to. -/
theorem add_eq_ofUnits {x y : Float} (hx : IsProper x) (hy : IsProper y) :
    x + y = ofUnits (signedUnits x + signedUnits y) := by
  refine congrArg (Float.ofModel ∘ pack) ?_
  -- Zero is a pattern of its own: the other operand is passed on as it is, without rounding.
  by_cases hw : wordOf x = 0
  · rw [hx.unpack_of_zero hw, signedUnits_of_zero hw, Int.zero_add]
    by_cases hv : wordOf y = 0
    · rw [hy.unpack_of_zero hv, signedUnits_of_zero hv]
      rfl
    · rw [← unpack_eq_normalize hy.finite hv, unpack_of_wordOf_ne_zero hy.finite hv]
      rfl
  · by_cases hv : wordOf y = 0
    · rw [hy.unpack_of_zero hv, signedUnits_of_zero hv, Int.add_zero,
        ← unpack_eq_normalize hx.finite hw, unpack_of_wordOf_ne_zero hx.finite hw]
      rfl
    · rw [unpack_of_wordOf_ne_zero hx.finite hw, unpack_of_wordOf_ne_zero hy.finite hv, add_finite,
        apply_significand, apply_significand]

/-- A difference of doubles is what the difference of their units is rounded to. -/
theorem sub_eq_ofUnits {x y : Float} (hx : IsProper x) (hy : IsProper y) :
    x - y = ofUnits (signedUnits x - signedUnits y) := by
  refine congrArg (Float.ofModel ∘ pack) ?_
  by_cases hv : wordOf y = 0
  · rw [hy.unpack_of_zero hv, signedUnits_of_zero hv, Int.sub_zero]
    by_cases hw : wordOf x = 0
    · rw [hx.unpack_of_zero hw, signedUnits_of_zero hw]
      rfl
    · rw [← unpack_eq_normalize hx.finite hw, unpack_of_wordOf_ne_zero hx.finite hw]
      rfl
  · rw [unpack_of_wordOf_ne_zero hy.finite hv]
    by_cases hw : wordOf x = 0
    · rw [hx.unpack_of_zero hw, signedUnits_of_zero hw, Int.zero_sub, ← apply_significand,
        ← Int.neg_mul, ← apply_neg, normalize_significand _ hv]
      rfl
    · rw [unpack_of_wordOf_ne_zero hx.finite hw, sub_finite, apply_significand, apply_significand]

/-! ### Exact sums -/

/-- A double that stands for a number and is not minus zero. -/
structure Exactly (x : Float) (r : ℚ) : Prop extends IsProper x where
  /-- It stands for the number. -/
  value : toRat x = r

/-- Doubles that stand for one number have the same units. -/
theorem signedUnits_eq_iff {x : Float} {n : ℤ} : signedUnits x = n ↔ toRat x = n / one := by
  have hone : (one : ℚ) ≠ 0 := Nat.cast_ne_zero.2 (Nat.ne_of_gt one_pos)
  rw [toRat_eq_signedUnits, div_left_inj' hone, Int.cast_inj]

/-- Only one double stands for a number. -/
theorem Exactly.unique {x y : Float} {r : ℚ} (hx : Exactly x r) (hy : Exactly y r) : x = y := by
  have hunits : signedUnits x = signedUnits y := by
    rw [signedUnits_eq_iff, hx.value, ← hy.value, toRat_eq_signedUnits]
  rw [← ofUnits_signedUnits hx.toIsProper, hunits, ofUnits_signedUnits hy.toIsProper]

/-- A sum that is a double is not rounded. -/
theorem Exactly.add {x y : Float} {r q : ℚ} (hx : Exactly x r) (hy : Exactly y q)
    (hsum : ∃ z, Exactly z (r + q)) : Exactly (x + y) (r + q) := by
  obtain ⟨z, hz⟩ := hsum
  have hunits : signedUnits z = signedUnits x + signedUnits y := by
    rw [signedUnits_eq_iff, hz.value, ← hx.value, ← hy.value, toRat_eq_signedUnits,
      toRat_eq_signedUnits, Int.cast_add, add_div]
  rw [add_eq_ofUnits hx.toIsProper hy.toIsProper, ← hunits, ofUnits_signedUnits hz.toIsProper]
  exact hz

/-- A difference that is a double is not rounded. -/
theorem Exactly.sub {x y : Float} {r q : ℚ} (hx : Exactly x r) (hy : Exactly y q)
    (hdifference : ∃ z, Exactly z (r - q)) : Exactly (x - y) (r - q) := by
  obtain ⟨z, hz⟩ := hdifference
  have hunits : signedUnits z = signedUnits x - signedUnits y := by
    rw [signedUnits_eq_iff, hz.value, ← hx.value, ← hy.value, toRat_eq_signedUnits,
      toRat_eq_signedUnits, Int.cast_sub, sub_div]
  rw [sub_eq_ofUnits hx.toIsProper hy.toIsProper, ← hunits, ofUnits_signedUnits hz.toIsProper]
  exact hz

/-- A double that is made of a sign and a word stands for the magnitude of the word. -/
theorem exactly_ofWord (negative : Bool) {w : Nat} (hw : w < infinityWord)
    (hzero : w = 0 → negative = false) :
    Exactly (ofWord negative w) (if negative then -magnitude w else magnitude w) where
  finite := by rwa [wordOf_ofWord _ hw.le]
  sign h := by
    rw [wordOf_ofWord _ hw.le] at h
    rw [isNegative_ofWord _ hw.le, hzero h]
  value := toRat_ofWord negative hw.le

/-- Zero stands for zero. -/
theorem exactly_zero : Exactly Scalar.zero 0 := by
  have hzero := exactly_ofWord false (show 0 < infinityWord by decide) fun _ => rfl
  rwa [if_neg Bool.false_ne_true, magnitude_eq_zero_iff.2 rfl, ← zero_eq] at hzero

/-- So many times a power of two, as a magnitude. -/
theorem magnitude_of_units_scaled {w n s : Nat} (h : units w = n * 2 ^ s) :
    magnitude w = n * 2 ^ ((s : ℤ) - 1074) := by
  have hone : (one : ℚ) = 2 ^ (1074 : ℤ) := by
    rw [one, halvings, Nat.cast_pow, Nat.cast_ofNat]
    rfl
  rw [magnitude, h, hone, Nat.cast_mul, Nat.cast_pow, Nat.cast_ofNat, mul_div_assoc,
    zpow_sub₀ two_ne_zero, zpow_natCast]

/-- Whole multiples of a power of two are doubles up to `2 ^ 53` times the power. -/
theorem exists_exactly {q : ℤ} (hlow : -1074 ≤ q) (hhigh : q ≤ 970) {r : ℚ}
    (hr : r ∈ AddSubgroup.zmultiples ((2 : ℚ) ^ q)) (hle : |r| ≤ 2 ^ 53 * 2 ^ q) :
    ∃ x, Exactly x r := by
  obtain ⟨k, rfl⟩ := AddSubgroup.mem_zmultiples_iff.1 hr
  have hpow : (0 : ℚ) < 2 ^ q := zpow_pos two_pos q
  have hk : k.natAbs ≤ 2 ^ 53 := by
    rw [zsmul_eq_mul, abs_mul, abs_of_pos hpow, mul_le_mul_iff_left₀ hpow, ← Int.cast_abs] at hle
    have hcount : |k| ≤ 2 ^ 53 := by exact_mod_cast hle
    rw [Int.abs_eq_natAbs] at hcount
    exact_mod_cast hcount
  obtain ⟨s, rfl⟩ : ∃ s : Nat, q = s - 1074 := ⟨(q + 1074).toNat, by omega⟩
  obtain ⟨w, hw, hunits⟩ := exists_units_of_le hk (show s ≤ 2044 by omega)
  have hmagnitude := magnitude_of_units_scaled hunits
  rw [Nat.cast_natAbs] at hmagnitude
  rcases le_or_gt 0 k with hsign | hsign
  · have hx := exactly_ofWord false hw fun _ => rfl
    rw [if_neg Bool.false_ne_true, hmagnitude, abs_of_nonneg hsign, ← zsmul_eq_mul] at hx
    exact ⟨_, hx⟩
  · have hne : w ≠ 0 := by
      rintro rfl
      rw [units_eq_zero_iff.2 rfl, eq_comm, Nat.mul_eq_zero, or_iff_left (by positivity)] at hunits
      omega
    have hx := exactly_ofWord true hw fun hzero => absurd hzero hne
    rw [if_pos rfl, hmagnitude, abs_of_neg hsign, Int.cast_neg, neg_mul, neg_neg,
      ← zsmul_eq_mul] at hx
    exact ⟨_, hx⟩

/-- The rational numbers of some doubles. -/
def rationals (values : List Float) : List ℚ := values.map toRat

@[simp] theorem length_rationals (values : List Float) :
    (rationals values).length = values.length := List.length_map ..

@[simp] theorem rationals_concat (values : List Float) (v : Float) :
    rationals (values ++ [v]) = rationals values ++ [toRat v] := List.map_append ..

/-- Doubles that are added without rounding: whole multiples of `2 ^ q`, with no more than `2 ^ 53`
times that in all, and none of them minus zero. -/
structure AddsExactly (q : ℤ) (values : List Float) : Prop where
  /-- Up to `2 ^ 53` times the power, its multiples are doubles. -/
  range : -1074 ≤ q ∧ q ≤ 970
  /-- Each double is a multiple. -/
  each : ∀ v ∈ values, IsProper v ∧ toRat v ∈ AddSubgroup.zmultiples ((2 : ℚ) ^ q)
  /-- Their magnitudes add up to so much. -/
  bound : ((rationals values).map fun r => |r|).sum ≤ (2 : ℚ) ^ 53 * 2 ^ q

namespace AddsExactly

variable {q : ℤ} {values : List Float}

/-- So are fewer of them. -/
theorem sublist (h : AddsExactly q values) {fewer : List Float} (hfewer : fewer.Sublist values) :
    AddsExactly q fewer where
  range := h.range
  each v hv := h.each v (hfewer.subset hv)
  bound := by
    refine le_trans (((hfewer.map toRat).map fun r => |r|).sum_le_sum fun r hr => ?_) h.bound
    obtain ⟨r', -, rfl⟩ := List.mem_map.1 hr
    exact abs_nonneg r'

/-- Each of them stands for its rational number. -/
theorem exactly (h : AddsExactly q values) {v : Float} (hv : v ∈ values) : Exactly v (toRat v) :=
  ⟨(h.each v hv).1, rfl⟩

/-- Their sum is a double. -/
theorem exists_exactly_sum (h : AddsExactly q values) : ∃ z, Exactly z (rationals values).sum := by
  refine exists_exactly h.range.1 h.range.2 (AddSubgroup.list_sum_mem _ fun r hr => ?_) ?_
  · obtain ⟨v, hv, rfl⟩ := List.mem_map.1 hr
    exact (h.each v hv).2
  · have habs : |(rationals values).sum| ≤ ((rationals values).map fun r => |r|).sum := by
      simpa using @Multiset.abs_sum_le_sum_abs ℚ _ _ _ (rationals values : Multiset ℚ)
    exact le_trans habs h.bound

end AddsExactly

/-! ### What is not finite stays -/

/-- What is unpacked is finite where the double is. -/
theorem isFinite_unpack (x : Float) : x.toModel.unpack.isFinite = Scalar.isFinite x := by
  rw [Bool.eq_iff_iff, isFinite_unpack_iff]
  exact decide_eq_true_iff.symm

/-- There is one pattern for what is no number. -/
theorem isNaN_iff {x : Float} : x.isNaN = true ↔ x.toModel.unpack = .notANumber := by
  change x.toModel.unpack.isNaN = true ↔ _
  cases x.toModel.unpack <;> simp [UnpackedFloat.isNaN]

/-- Infinity and what is no number take over a sum that they are in. -/
theorem add_of_not_isFinite {u : UnpackedFloat} (h : u.isFinite = false) (v : UnpackedFloat) :
    (UnpackedFloat.add Format.binary64 u v = .notANumber ∨
      UnpackedFloat.add Format.binary64 u v = u) ∧
    (UnpackedFloat.add Format.binary64 v u = .notANumber ∨
      UnpackedFloat.add Format.binary64 v u = u) := by
  cases u with
  | zero s | finite s m e hm => cases h
  | notANumber => exact ⟨.inl rfl, by cases v <;> exact .inl rfl⟩
  | infinity s =>
    cases v with
    | notANumber => exact ⟨.inl rfl, .inl rfl⟩
    | zero t | finite t m e hm => exact ⟨.inr rfl, .inr rfl⟩
    | infinity t =>
      cases s <;> cases t <;> first | exact ⟨.inl rfl, .inl rfl⟩ | exact ⟨.inr rfl, .inr rfl⟩

/-- Taken away from themselves they leave no number. -/
theorem sub_self_of_not_isFinite {u : UnpackedFloat} (h : u.isFinite = false) :
    UnpackedFloat.sub Format.binary64 u u = .notANumber := by
  cases u with
  | zero s | finite s m e hm => cases h
  | notANumber => rfl
  | infinity s => cases s <;> rfl

/-- Divided by anything they give no number, or infinity. -/
theorem div_of_not_isFinite {u : UnpackedFloat} (h : u.isFinite = false) (v : UnpackedFloat) :
    UnpackedFloat.div Format.binary64 u v = .notANumber ∨
      u ≠ .notANumber ∧ ∃ s, UnpackedFloat.div Format.binary64 u v = .infinity s := by
  cases u with
  | zero s | finite s m e hm => cases h
  | notANumber => exact .inl rfl
  | infinity s =>
    cases v with
    | notANumber | infinity t => exact .inl rfl
    | zero t | finite t m e hm => exact .inr ⟨nofun, s / t, rfl⟩

/-- What becomes of a sum into which something has come that is not finite: it is that, or no
number. -/
def IsTaintedBy (x total : Float) : Prop := total.isNaN = true ∨ total = x

namespace IsTaintedBy

/-- To be packed from what is no number, or from what a double is unpacked to. -/
theorem of_pack {x : Float} {u : UnpackedFloat} (h : u = .notANumber ∨ u = x.toModel.unpack) :
    IsTaintedBy x (Float.ofModel (pack u)) := by
  rcases h with rfl | rfl
  · exact .inl rfl
  · exact .inr (ofModel_pack_unpack x)

variable {x y total : Float}

theorem trans (h : IsTaintedBy x y) (htotal : IsTaintedBy y total) : IsTaintedBy x total := by
  rcases htotal with hnan | rfl
  · exact .inl hnan
  · exact h

/-- What is no number only leads to what is none. -/
theorem isNaN (h : IsTaintedBy x total) (hx : x.isNaN = true) : total.isNaN = true := by
  rcases h with hnan | rfl
  · exact hnan
  · exact hx

/-- A tainted sum is not finite. -/
theorem not_isFinite (h : IsTaintedBy x total) (hx : Scalar.isFinite x = false) :
    Scalar.isFinite total = false := by
  rcases h with hnan | rfl
  · rw [← isFinite_unpack, isNaN_iff.1 hnan]
    rfl
  · exact hx

/-- A sum is tainted by what is added to it. -/
theorem of_add (hx : Scalar.isFinite x = false) (total : Float) : IsTaintedBy x (total + x) :=
  of_pack (add_of_not_isFinite (by rw [isFinite_unpack, hx]) _).2

/-- A tainted sum stays tainted, whatever is added. -/
theorem add (hx : Scalar.isFinite x = false) (h : IsTaintedBy x total) (y : Float) :
    IsTaintedBy x (total + y) :=
  h.trans (of_pack (add_of_not_isFinite (by rw [isFinite_unpack, h.not_isFinite hx]) _).1)

/-- It also does whatever is taken away. -/
theorem sub (hx : Scalar.isFinite x = false) (h : IsTaintedBy x total) (y : Float) :
    IsTaintedBy x (total - y) := by
  refine h.trans (of_pack ?_)
  rw [sub_eq_add_neg]
  exact (add_of_not_isFinite (by rw [isFinite_unpack, h.not_isFinite hx]) _).1

/-- If what tainted the sum is taken away itself, no number is left. -/
theorem isNaN_sub (hx : Scalar.isFinite x = false) (h : IsTaintedBy x total) :
    (total - x).isNaN = true := by
  rcases h with hnan | rfl
  · exact (sub (not_isFinite (.inl hnan) hx) (.inr rfl) x).isNaN hnan
  · have hpack := sub_self_of_not_isFinite ((isFinite_unpack total).trans hx)
    change (Float.ofModel (pack (UnpackedFloat.sub _ _ _))).isNaN = true
    rw [hpack]
    rfl

end IsTaintedBy

/-- What is not finite has no finite quotients, and what is no number has none that are numbers. -/
theorem div_not_isFinite {x : Float} (hx : Scalar.isFinite x = false) (y : Float) :
    Scalar.isFinite (x / y) = false ∧ (x.isNaN = true → (x / y).isNaN = true) := by
  have hdiv : x / y = Float.ofModel (pack (UnpackedFloat.div Format.binary64 x.toModel.unpack
    y.toModel.unpack)) := rfl
  rcases div_of_not_isFinite ((isFinite_unpack x).trans hx) y.toModel.unpack with
    h | ⟨hnumber, s, h⟩
  · rw [hdiv, h]
    exact ⟨by decide +kernel, fun _ => rfl⟩
  · refine ⟨?_, fun hnan => absurd (isNaN_iff.1 hnan) hnumber⟩
    rw [hdiv, h]
    cases s <;> decide +kernel

end TradeRules.Number.Binary64
