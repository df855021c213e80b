import TradeRules.Proofs.Number.Bits

/-!
# Whole numbers above zero

The period of an indicator is a literal that is whole and above zero, cut down to a count. For such a
count to be a period at all it has to be above zero again, which is what `CountsWhole` asks of a type
of numbers. `Float` is an instance: a double between zero and one is no whole number.
-/

namespace TradeRules

open Number

/-- A type of numbers in which a whole number above zero counts for at least one. -/
class CountsWhole (α : Type) [Scalar α] : Prop where
  /-- A whole number above zero counts for something. -/
  toCount_pos (x : α) : Scalar.atMost x Scalar.zero = false → Scalar.isWhole x = true →
    0 < Scalar.toCount x

namespace Number.Binary64

open Float.Model
open Float.Model.UnpackedFloat (Sign unpackSign unpackMantissa)

/-- The sign among the bits of a double. -/
theorem ofBitVec_unpackSign (x : Float) :
    Sign.ofBitVec (unpackSign (bitsOf x)) = if isNegative x then .negative else .positive := by
  have hlt : x.toBits.toNat < 2 ^ 64 := x.toBits.toNat_lt
  have hbit : (unpackSign (bitsOf x)).toNat = x.toBits.toNat / 2 ^ 63 := by
    simp only [unpackSign, BitVec.toNat_cast, bitsOf]
    simp [BitVec.extractLsb, BitVec.extractLsb'_toNat, Nat.shiftRight_eq_div_pow]
    omega
  cases hsign : isNegative x with
  | true =>
    have hset : x.toBits.toNat / 2 ^ 63 = 1 := by
      simp only [isNegative, decide_eq_true_eq] at hsign
      omega
    have hone : unpackSign (bitsOf x) = 1#1 := BitVec.eq_of_toNat_eq (hbit.trans hset)
    rw [hone]
    rfl
  | false =>
    have hclear : x.toBits.toNat / 2 ^ 63 = 0 := by
      simp only [isNegative, decide_eq_false_iff_not] at hsign
      omega
    have hzero : unpackSign (bitsOf x) = 0#1 := BitVec.eq_of_toNat_eq (hbit.trans hclear)
    rw [hzero]
    rfl

/-- Zero is the double whose word is zero. -/
theorem zero_eq : (Scalar.zero : Float) = ofWord false 0 := by
  have hunits : 0 * one = units 0 * 1 := by
    rw [Nat.zero_mul, Nat.mul_one, units, significand, if_pos (by decide), Nat.zero_mul]
  have hword : nearestWord 0 1 = 0 := nearestWord_of_units (by decide) (by decide) hunits
  exact congrArg (ofWord false) hword

/-- Zero, unpacked. -/
theorem unpack_zero : (Scalar.zero : Float).toModel.unpack = .zero .positive := by
  rw [zero_eq]
  rfl

/-- The test for `x ≤ y` compares what the doubles are unpacked to. -/
theorem atMost_eq (x y : Float) : Scalar.atMost x y = x.toModel.unpack.le y.toModel.unpack := by
  change decide (decide (x.toModel.unpack.le y.toModel.unpack = true) = true) = _
  rw [Bool.decide_eq_true, Bool.decide_eq_true]

/-- The test for equality compares what the doubles are unpacked to. -/
theorem same_eq (x y : Float) :
    Scalar.same x y = (x.toModel.unpack.compare y.toModel.unpack == some .eq) := rfl

/-- A number with a minus sign is not above zero, also where it is infinite. -/
theorem atMost_zero_of_isNegative {x : Float} (hx : wordOf x ≤ infinityWord)
    (h : isNegative x = true) : Scalar.atMost x Scalar.zero = true := by
  have hunpack : x.toModel.unpack = UnpackedFloat.unpack Format.binary64 (bitsOf x) := rfl
  rw [atMost_eq, unpack_zero, hunpack]
  unfold UnpackedFloat.unpack
  simp only [ofBitVec_unpackSign, h, if_true]
  split
  · rename_i hgreatest
    have hzero : unpackMantissa (bitsOf x) = 0#52 := by
      have hexponent : wordOf x / 2 ^ 52 = 2047 := by
        rw [← toNat_unpackExponent_bitsOf, hgreatest]
        rfl
      apply BitVec.eq_of_toNat_eq
      rw [toNat_unpackMantissa_bitsOf]
      change wordOf x % 2 ^ 52 = 0
      rw [infinityWord] at hx
      omega
    rw [if_pos hzero]
    rfl
  · split
    · split <;> rfl
    · rfl

/-- What is above zero has no minus sign. -/
theorem isNegative_eq_false {x : Float} (hx : wordOf x ≤ infinityWord)
    (h : Scalar.atMost x Scalar.zero = false) : isNegative x = false := by
  by_contra hsign
  rw [atMost_zero_of_isNegative hx (Bool.of_not_eq_false hsign)] at h
  cases h

/-- What equals zero is not above zero. -/
theorem atMost_zero_of_same {x : Float} (h : Scalar.same Scalar.zero x = true) :
    Scalar.atMost x Scalar.zero = true := by
  rw [same_eq, unpack_zero] at h
  rw [atMost_eq, unpack_zero]
  cases hx : x.toModel.unpack with
  | zero s => rfl
  | infinity s | finite s m e hm =>
    rw [hx] at h
    cases s <;> cases h
  | notANumber =>
    rw [hx] at h
    cases h

/-- The whole part of a double below one is zero. -/
theorem floor_eq_zero {x : Float} (hx : wordOf x < infinityWord) (hsign : isNegative x = false)
    (h : units (wordOf x) < one) : floor x = Scalar.zero := by
  have hle : ¬infinityWord ≤ wordOf x := Nat.not_le_of_lt hx
  simp only [floor]
  rw [if_neg hle, hsign, if_neg Bool.false_ne_true, Nat.div_eq_of_lt h]
  rfl

/-- The count of a finite double without a minus sign. -/
theorem toCount_of_not_isNegative {x : Float} (hx : wordOf x < infinityWord)
    (hsign : isNegative x = false) : toCount x = min (units (wordOf x) / one) maxCount := by
  have hle : ¬infinityWord < wordOf x := Nat.not_lt_of_lt hx
  simp only [toCount, hsign, hle, decide_false, Bool.or_self]
  rfl

end Number.Binary64

open Number.Binary64 in
/-- Doubles that are whole and above zero are at least one. -/
instance : CountsWhole Float where
  toCount_pos x hpos hwhole := by
    simp only [Scalar.isWhole, Bool.and_eq_true] at hwhole
    obtain ⟨hfinite, hsame⟩ := hwhole
    have hx : wordOf x < infinityWord := decide_eq_true_iff.1 hfinite
    have hsign : isNegative x = false := isNegative_eq_false hx.le hpos
    have hunits : one ≤ units (wordOf x) := by
      by_contra h
      have hfloor : Scalar.floor x = Scalar.zero := floor_eq_zero hx hsign (Nat.lt_of_not_le h)
      rw [hfloor] at hsame
      rw [atMost_zero_of_same hsame] at hpos
      cases hpos
    have hone : 0 < units (wordOf x) / one := Nat.div_pos hunits (Nat.two_pow_pos _)
    have hcount : Scalar.toCount x = min (units (wordOf x) / one) maxCount :=
      toCount_of_not_isNegative hx hsign
    rw [hcount, Nat.lt_min]
    exact ⟨hone, by decide⟩

end TradeRules
