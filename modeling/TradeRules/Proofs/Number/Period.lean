import TradeRules.Proofs.Number.Floor

/-!
# Doubles that are periods

A period is a whole number above zero (`IsPeriod`). It is enough to compare a double with zero and with
its own floor: equality with a double above zero means being that double, and a double above zero is
its own floor exactly if the rational number that it stands for is a whole number. What is not
finite is no period.
-/

namespace TradeRules.Number.Binary64

open Float.Model

/-- A finite double that stands for a whole number above zero. -/
def IsPeriod (x : Float) : Prop := Scalar.isFinite x = true ∧ ∃ n : ℕ, 0 < n ∧ toRat x = n

/-- A double is determined by what it is unpacked to. -/
theorem eq_of_unpack_eq {x y : Float} (h : x.toModel.unpack = y.toModel.unpack) : x = y := by
  have hbits : x.toBits = y.toBits := by
    obtain ⟨⟨bits, valid⟩⟩ := x
    obtain ⟨⟨bits', valid'⟩⟩ := y
    have hpack := pack_unpack valid
    have hpack' := pack_unpack valid'
    have hunpack : UnpackedFloat.unpack Format.binary64 bits.toBitVec =
        UnpackedFloat.unpack Format.binary64 bits'.toBitVec := h
    rw [hunpack, hpack'] at hpack
    exact UInt64.toBitVec_inj.1 hpack.symm
  rw [← ofBits_toBits x, ← ofBits_toBits y, hbits]

/-- Away from zero, which has two signs, only equals compare as equal. -/
theorem eq_of_compare_eq {u v : UnpackedFloat} (h : u.compare v = some .eq)
    (hv : ∀ s, v ≠ .zero s) : u = v := by
  unfold UnpackedFloat.compare at h
  split at h
  all_goals try cases h
  · rename_i s t
    cases s <;> cases t <;> first | rfl | cases h
  · exact absurd rfl (hv _)
  all_goals
    rename_i m e hm n f hn
    have hfields : compare e f = .eq ∧ compare m n = .eq := by
      simpa [Ordering.then_eq_eq] using h
    obtain rfl := compare_eq_iff_eq.1 hfields.1
    obtain rfl := compare_eq_iff_eq.1 hfields.2
    rfl

/-- What equals a double above zero is that double. -/
theorem eq_of_same {x y : Float} (h : Scalar.same x y = true)
    (hy : Scalar.atMost y Scalar.zero = false) : x = y := by
  rw [same_eq, beq_iff_eq] at h
  rw [atMost_eq, unpack_zero] at hy
  apply eq_of_unpack_eq
  apply eq_of_compare_eq h
  intro s hzero
  rw [hzero] at hy
  cases hy

/-- A finite double without a minus sign is its own floor exactly if it stands for a whole number. -/
theorem floor_eq_self_iff {x : Float} (hx : wordOf x < infinityWord) (hsign : isNegative x = false) :
    floor x = x ↔ ∃ n : ℕ, toRat x = n := by
  have hrat : toRat x = magnitude (wordOf x) := by
    rw [toRat, hsign, if_neg Bool.false_ne_true]
  constructor
  · intro h
    obtain ⟨-, hvalue⟩ := toRat_floor hx
    rw [h, hrat] at hvalue
    refine ⟨⌊magnitude (wordOf x)⌋₊, ?_⟩
    rw [hrat, natCast_floor_eq_intCast_floor (magnitude_nonneg _)]
    exact hvalue
  · rintro ⟨n, hn⟩
    have hone : (one : ℚ) ≠ 0 := Nat.cast_ne_zero.2 (Nat.ne_of_gt one_pos)
    have hunits : units (wordOf x) = n * one := by
      rw [hrat, magnitude, div_eq_iff hone] at hn
      exact_mod_cast hn
    have hwhole : units (wordOf x) / one * one = units (wordOf x) * 1 := by
      rw [hunits, Nat.mul_div_cancel _ one_pos, Nat.mul_one]
    have hword : ofWord false (wordOf x) = x := by
      rw [← hsign]
      exact ofWord_wordOf x
    simp only [floor]
    rw [if_neg (Nat.not_le_of_lt hx), hsign, if_neg Bool.false_ne_true,
      nearestWord_of_units hx Nat.one_pos hwhole, hword]

/-- The comparison with zero and with the floor tells the periods among the doubles. -/
theorem isPeriod_iff {x : Float} :
    IsPeriod x ↔ Scalar.atMost x Scalar.zero = false ∧ Scalar.isWhole x = true := by
  rw [Scalar.isWhole, Bool.and_eq_true]
  by_cases hfinite : Scalar.isFinite x = true
  · have hx : wordOf x < infinityWord := decide_eq_true_iff.1 hfinite
    constructor
    · rintro ⟨-, n, hn, hvalue⟩
      have hpos : Scalar.atMost x Scalar.zero = false := by
        rw [← Bool.not_eq_true, atMost_zero_iff hx, hvalue, not_le]
        exact Nat.cast_pos.2 hn
      have hsign := isNegative_eq_false hx.le hpos
      have hfloor : Scalar.floor x = x := (floor_eq_self_iff hx hsign).2 ⟨n, hvalue⟩
      refine ⟨hpos, hfinite, ?_⟩
      rw [hfloor]
      exact beq_self hx
    · rintro ⟨hpos, -, hsame⟩
      have hsign := isNegative_eq_false hx.le hpos
      obtain ⟨n, hvalue⟩ := (floor_eq_self_iff hx hsign).1 (eq_of_same hsame hpos)
      refine ⟨hfinite, n, ?_, hvalue⟩
      rw [← Bool.not_eq_true, atMost_zero_iff hx, hvalue, not_le] at hpos
      exact Nat.cast_pos.1 hpos
  · exact iff_of_false (fun h => hfinite h.1) (fun h => hfinite h.2.1)

end TradeRules.Number.Binary64
