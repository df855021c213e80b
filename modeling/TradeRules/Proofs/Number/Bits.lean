import Mathlib
import TradeRules.Number.Scalar

/-!
# Doubles and their words

A double is determined by its sign and its word (`ofWord_wordOf`), and has those that it is made of
(`wordOf_ofWord`, `isNegative_ofWord`). The core library packs a double from a sign, an exponent and
a mantissa and unpacks it again, with one pattern for what is not a number; packing what was
unpacked gives the bits back. A double is finite exactly where its exponent is not the greatest one,
and only finite doubles equal a finite double.
-/

namespace TradeRules.Number.Binary64

open Float.Model
open Float.Model.UnpackedFloat (Sign packComponents unpackSign unpackExponent unpackMantissa)

/-- The bits of a double are its three components. -/
theorem packComponents_unpack (b : BitVec Format.binary64.numBits) :
    packComponents Format.binary64 (Sign.ofBitVec (unpackSign b)) (unpackExponent b)
      (unpackMantissa b) = b := by
  have hs : (Sign.ofBitVec (unpackSign b)).toBitVec = unpackSign b := by
    generalize unpackSign b = s
    revert s
    decide
  unfold packComponents
  rw [hs]
  apply BitVec.eq_of_getLsbD_eq
  intro i hi
  have hi64 : i < 64 := hi
  simp only [unpackSign, unpackExponent, unpackMantissa, BitVec.getLsbD_append,
    BitVec.getLsbD_cast, BitVec.getLsbD_extractLsb]
  by_cases h₁ : i < 52
  · simp [h₁]
  · by_cases h₂ : i < 63
    · have h₃ : 52 + (i - 52) = i := by omega
      simp [h₁, show i - 52 < 11 by omega, h₃]
    · obtain rfl : i = 63 := by omega
      simp [-BitVec.getLsbD_eq_getElem]

/-- A number below the least normal one is packed with exponent zero. -/
theorem pack_subnormal (s : Sign) (m : BitVec 52) (hm : 0 < m.toNat) {e : Int} (he : e = -1074) :
    UnpackedFloat.pack Format.binary64 (.finite s m.toNat e hm) =
      packComponents Format.binary64 s 0#11 m := by
  have hlog : m.toNat.log2 < 52 := (Nat.log2_lt (Nat.ne_of_gt hm)).2 m.isLt
  have hexp : (e + Format.binary64.exponentBias +
      Format.binary64.mantissaBitsWithoutImplicit).toNat = 1 := by
    rw [he]
    decide
  have hbelow : ¬2 ^ Format.binary64.exponentBits ≤ 1 + 1 := by decide
  have hbits : ¬m.toNat.log2 + 1 = Format.binary64.mantissaBits := by
    have : Format.binary64.mantissaBits = 53 := rfl
    omega
  rw [UnpackedFloat.pack]
  simp only [hexp]
  rw [if_neg hbelow, if_neg hbits, BitVec.ofNat_toNat, BitVec.setWidth_eq]

/-- A mantissa with its leading bit, as a natural. -/
theorem toNat_leading (m : BitVec 52) : (1#1 ++ m).toNat = 2 ^ 52 + m.toNat := by
  rw [BitVec.toNat_append, ← Nat.shiftLeft_add_eq_or_of_lt m.isLt]
  rfl

/-- A normal number is packed with its exponent, and without the leading bit. -/
theorem pack_normal (s : Sign) (x : BitVec 11) (m : BitVec 52) (h : 0 < (1#1 ++ m).toNat)
    (hx : x ≠ -1#11) {e : Int} (he : e = x.toNat - 1075) :
    UnpackedFloat.pack Format.binary64 (.finite s (1#1 ++ m).toNat e h) =
      packComponents Format.binary64 s x m := by
  have hm : m.toNat < 2 ^ 52 := m.isLt
  have hlt : x.toNat < 2 ^ 11 := x.isLt
  have hne : x.toNat ≠ 2047 := fun h => hx (BitVec.eq_of_toNat_eq h)
  have hlog : (1#1 ++ m).toNat.log2 = 52 := by
    rw [toNat_leading]
    exact (Nat.log2_eq_iff (by omega)).2 ⟨by omega, by omega⟩
  have hexp : (e + Format.binary64.exponentBias +
      Format.binary64.mantissaBitsWithoutImplicit).toNat = x.toNat := by
    have h₁ : Format.binary64.exponentBias = 1023 := rfl
    have h₂ : Format.binary64.mantissaBitsWithoutImplicit = 52 := rfl
    rw [he, h₁, h₂]
    omega
  have hbelow : ¬2 ^ Format.binary64.exponentBits ≤ x.toNat + 1 := by
    have h₁ : Format.binary64.exponentBits = 11 := rfl
    rw [h₁]
    omega
  have hbits : (1#1 ++ m).toNat.log2 + 1 = Format.binary64.mantissaBits := by
    rw [hlog]
    rfl
  have hmantissa : BitVec.ofNat 52 (1#1 ++ m).toNat = m := by
    apply BitVec.eq_of_toNat_eq
    rw [toNat_leading, BitVec.toNat_ofNat]
    omega
  rw [UnpackedFloat.pack]
  simp only [hexp]
  rw [if_neg hbelow, if_pos hbits, hmantissa, BitVec.ofNat_toNat, BitVec.setWidth_eq]

/-- Packing what was unpacked gives the bits back. -/
theorem pack_unpack {b : BitVec Format.binary64.numBits} (h : Format.binary64.Valid b) :
    UnpackedFloat.pack Format.binary64 (UnpackedFloat.unpack Format.binary64 b) = b := by
  have hb := packComponents_unpack b
  unfold UnpackedFloat.unpack
  dsimp only
  split
  · rename_i he
    split
    · rename_i hm
      rw [he, hm] at hb
      exact hb
    · rename_i hm
      exact (h.eq_packedNaN he hm).symm
  · rename_i he
    split
    · rename_i hz
      split
      · rename_i hm
        rw [hz, hm] at hb
        exact hb
      · refine (pack_subnormal _ _ _ ?_).trans ?_
        · rw [hz]
          decide
        · rw [hz] at hb
          exact hb
    · refine (pack_normal _ (unpackExponent b) _ _ he ?_).trans hb
      rfl

/-- A double is made of its bits. -/
theorem ofBits_toBits (x : Float) : Float.ofBits x.toBits = x := by
  obtain ⟨⟨bits, valid⟩⟩ := x
  have h : (⟨UInt64.ofBitVec (UnpackedFloat.pack Format.binary64
      (UnpackedFloat.unpack Format.binary64 bits.toBitVec)), UnpackedFloat.valid_pack⟩ :
        Float.Model) = ⟨bits, valid⟩ := by
    rw [Float.Model.mk.injEq, pack_unpack valid]
  exact congrArg Float.ofModel h

/-- A double is made of its sign and its word. -/
theorem ofWord_wordOf (x : Float) : ofWord (isNegative x) (wordOf x) = x := by
  have hlt : x.toBits.toNat < 2 ^ 64 := x.toBits.toNat_lt
  have hbits : (if isNegative x = true then 2 ^ 63 + wordOf x else wordOf x) =
      x.toBits.toNat := by
    simp only [isNegative, wordOf, decide_eq_true_eq]
    split <;> omega
  rw [ofWord, hbits, UInt64.ofNat_toNat, ofBits_toBits]

/-- The bits of a double in the format of doubles. -/
def bitsOf (x : Float) : BitVec Format.binary64.numBits := x.toBits.toBitVec

/-- The exponent among 64 bits, below the sign. -/
theorem toNat_unpackExponent (b : BitVec Format.binary64.numBits) :
    (unpackExponent b).toNat = b.toNat % 2 ^ 63 / 2 ^ 52 := by
  simp only [unpackExponent, BitVec.toNat_cast]
  simp [BitVec.extractLsb, BitVec.extractLsb'_toNat, Nat.shiftRight_eq_div_pow]
  omega

/-- The mantissa among 64 bits, below the exponent. -/
theorem toNat_unpackMantissa (b : BitVec Format.binary64.numBits) :
    (unpackMantissa b).toNat = b.toNat % 2 ^ 52 := by
  simp only [unpackMantissa, BitVec.toNat_cast]
  simp [BitVec.extractLsb, BitVec.extractLsb'_toNat]

/-- The exponent of a double counts its word. -/
theorem toNat_unpackExponent_bitsOf (x : Float) :
    (unpackExponent (bitsOf x)).toNat = wordOf x / 2 ^ 52 := toNat_unpackExponent _

/-- The mantissa of a double is what its exponent leaves of the word. -/
theorem toNat_unpackMantissa_bitsOf (x : Float) :
    (unpackMantissa (bitsOf x)).toNat = wordOf x % 2 ^ 52 := by
  have hdvd : 2 ^ 52 ∣ 2 ^ 63 := Nat.pow_dvd_pow 2 (by decide)
  rw [toNat_unpackMantissa, wordOf, Nat.mod_mod_of_dvd _ hdvd]
  rfl

/-- A double is finite where its exponent is not the greatest one. -/
theorem wordOf_lt_infinityWord_iff (x : Float) :
    wordOf x < infinityWord ↔ unpackExponent (bitsOf x) ≠ -1#11 := by
  have hexp := toNat_unpackExponent_bitsOf x
  have hword : wordOf x < 2 ^ 63 := Nat.mod_lt _ (by decide)
  have hgreatest : (-1#11 : BitVec 11).toNat = 2047 := rfl
  rw [Ne, ← BitVec.toNat_inj, hexp, hgreatest, infinityWord]
  omega

/-- What a double is unpacked to is finite where the double is. -/
theorem isFinite_unpack_iff (x : Float) :
    x.toModel.unpack.isFinite = true ↔ wordOf x < infinityWord := by
  rw [wordOf_lt_infinityWord_iff]
  change (UnpackedFloat.unpack Format.binary64 (bitsOf x)).isFinite = true ↔ _
  unfold UnpackedFloat.unpack
  dsimp only
  split
  · rename_i he
    constructor
    · intro h
      split at h <;> cases h
    · intro h
      exact absurd he h
  · rename_i he
    refine ⟨fun _ => he, fun _ => ?_⟩
    split
    · split <;> rfl
    · rfl

/-- A finite double equals itself. -/
theorem beq_self {x : Float} (h : wordOf x < infinityWord) : (x == x) = true := by
  have hx := (isFinite_unpack_iff x).2 h
  change (x.toModel.unpack.compare x.toModel.unpack == some .eq) = true
  cases hu : x.toModel.unpack with
  | infinity s => rw [hu] at hx; cases hx
  | notANumber => rw [hu] at hx; cases hx
  | zero s => rfl
  | finite s m e hm => cases s <;> simp [UnpackedFloat.compare]

/-- What equals a finite double is finite. -/
theorem wordOf_lt_of_beq {x y : Float} (h : wordOf x < infinityWord) (hxy : (x == y) = true) :
    wordOf y < infinityWord := by
  have hx := (isFinite_unpack_iff x).2 h
  rw [← isFinite_unpack_iff]
  change (x.toModel.unpack.compare y.toModel.unpack == some .eq) = true at hxy
  cases hu : x.toModel.unpack with
  | infinity s => rw [hu] at hx; cases hx
  | notANumber => rw [hu] at hx; cases hx
  | zero s | finite s m e hm =>
    rw [hu] at hxy
    cases hv : y.toModel.unpack with
    | infinity t => rw [hv] at hxy; cases s <;> cases t <;> cases hxy
    | notANumber => rw [hv] at hxy; cases s <;> cases hxy
    | zero t => rfl
    | finite t n f hn => rfl

/-- The bits of the double that is made of a sign and a word. -/
theorem toBits_ofWord (negative : Bool) {w : Nat} (h : w ≤ infinityWord) :
    (ofWord negative w).toBits.toNat = if negative then 2 ^ 63 + w else w := by
  have hword : infinityWord < 2 ^ 63 := by decide
  generalize hbits : (if negative = true then 2 ^ 63 + w else w) = bits
  have hlt : bits < 2 ^ 64 := by rw [← hbits]; split <;> omega
  have hlow : bits % 2 ^ 63 = w := by rw [← hbits]; split <;> omega
  have hnat : (UInt64.ofNat bits).toBitVec.toNat = bits := UInt64.toNat_ofNat_of_lt' hlt
  -- With the greatest exponent only the word of infinity is left, whose mantissa is zero.
  have hvalid : Format.binary64.Valid (UInt64.ofNat bits).toBitVec := by
    refine ⟨fun hexp hmantissa => absurd (BitVec.eq_of_toNat_eq ?_) hmantissa⟩
    have hgreatest : w / 2 ^ 52 = 2047 := by
      have he := congrArg BitVec.toNat hexp
      rw [toNat_unpackExponent, hnat, hlow] at he
      exact he
    rw [toNat_unpackMantissa, hnat]
    change bits % 2 ^ 52 = 0
    rw [infinityWord] at h
    omega
  have hround : (Float.ofBits (UInt64.ofNat bits)).toBits = UInt64.ofNat bits :=
    congrArg UInt64.ofBitVec (pack_unpack hvalid)
  rw [ofWord, hbits, hround]
  exact hnat

/-- The word of a double that is made of a word. -/
theorem wordOf_ofWord (negative : Bool) {w : Nat} (h : w ≤ infinityWord) :
    wordOf (ofWord negative w) = w := by
  have hword : infinityWord < 2 ^ 63 := by decide
  rw [wordOf, toBits_ofWord negative h]
  split <;> omega

/-- The sign of a double that is made of a sign. -/
theorem isNegative_ofWord (negative : Bool) {w : Nat} (h : w ≤ infinityWord) :
    isNegative (ofWord negative w) = negative := by
  have hword : infinityWord < 2 ^ 63 := by decide
  rw [isNegative, toBits_ofWord negative h]
  cases negative with
  | true => exact decide_eq_true (Nat.le_add_right _ _)
  | false => exact decide_eq_false (Nat.not_le_of_lt (Nat.lt_of_le_of_lt h hword))

end TradeRules.Number.Binary64
