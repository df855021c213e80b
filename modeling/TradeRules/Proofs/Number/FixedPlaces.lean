import TradeRules.Number.Spelling
import TradeRules.Proofs.Number.Floor
import TradeRules.Proofs.Number.ReadBack

/-!
# Doubles with a number of places

With a number of places, a finite double is written as its sign and the decimal with these places
that is nearest to its magnitude; between two that are as near, the last digit is even. What is not
finite is written as a word (`Binary64.Shows`). The writers of fixed places write just these texts
(`Binary64.shows_iff`), and none of them ends in a minus.
-/

namespace TradeRules.Number

/-- A natural is nearest to a rational number if it is within a half of it, and even if it is just a
half away. -/
structure IsNearest (n : Nat) (x : ℚ) : Prop where
  /-- No more than a half lies between. -/
  near : |x - n| ≤ 1 / 2
  /-- A natural that is half way from its neighbour is even. -/
  even : |x - n| = 1 / 2 → n % 2 = 0

/-- Of two naturals that are nearest, neither is greater: one above the other, both would be half
way and even. -/
theorem IsNearest.le {m n : Nat} {x : ℚ} (hm : IsNearest m x) (hn : IsNearest n x) : m ≤ n := by
  by_contra hlt
  obtain ⟨hlow, -⟩ := abs_le.1 hm.near
  obtain ⟨-, hhigh⟩ := abs_le.1 hn.near
  have hsucc : ((n + 1 : Nat) : ℚ) ≤ m := Nat.cast_le.2 (Nat.lt_of_not_le hlt)
  rw [Nat.cast_add, Nat.cast_one] at hsucc
  have hx : x = n + 1 / 2 := by linarith
  have hm' : (m : ℚ) = ((n + 1 : Nat) : ℚ) := by
    rw [Nat.cast_add, Nat.cast_one]
    linarith
  have hsame : m = n + 1 := Nat.cast_injective hm'
  have hhalf : |x - n| = 1 / 2 := by rw [hx, add_sub_cancel_left, abs_of_pos (by norm_num)]
  have hhalf' : |x - m| = 1 / 2 := by
    rw [hx, hm', Nat.cast_add, Nat.cast_one, abs_of_neg (by linarith)]
    linarith
  have heven := hn.even hhalf
  have heven' := hm.even hhalf'
  omega

/-- Only one natural is nearest. -/
theorem IsNearest.unique {m n : Nat} {x : ℚ} (hm : IsNearest m x) (hn : IsNearest n x) : m = n :=
  Nat.le_antisymm (hm.le hn) (hn.le hm)

/-- A quotient is rounded to the natural that is nearest to it. -/
theorem isNearest_nearestEven (num : Nat) {den : Nat} (h : 0 < den) :
    IsNearest (nearestEven num den) ((num : ℚ) / den) := by
  have hden : (0 : ℚ) < den := Nat.cast_pos.2 h
  have hgap : |(num : ℚ) / den - nearestEven num den| =
      |(num : ℚ) - nearestEven num den * den| / den := by
    rw [← abs_of_pos hden, ← abs_div, abs_of_pos hden, sub_div, mul_div_cancel_right₀ _ hden.ne']
  rcases nearestEven_within_half num h with ⟨habove, hbelow⟩ | ⟨heven, hhalf⟩
  · have habove' : (2 * (nearestEven num den * den) : ℚ) < 2 * num + den := mod_cast habove
    have hbelow' : (2 * num : ℚ) < 2 * (nearestEven num den * den) + den := mod_cast hbelow
    have hless : |(num : ℚ) / den - nearestEven num den| < 1 / 2 := by
      rw [hgap, div_lt_iff₀ hden, abs_lt]
      constructor <;> linarith
    exact ⟨hless.le, fun heq => absurd heq hless.ne⟩
  · refine ⟨le_of_eq ?_, fun _ => heven⟩
    rw [hgap, div_eq_iff hden.ne']
    -- The quotient lies to either side of the natural.
    rcases hhalf with hleft | hright
    · have hleft' : (2 * (nearestEven num den * den) : ℚ) = 2 * num + den := mod_cast hleft
      rw [abs_of_neg (by linarith)]
      linarith
    · have hright' : (2 * num : ℚ) = 2 * (nearestEven num den * den) + den := mod_cast hright
      rw [abs_of_pos (by linarith)]
      linarith

namespace Binary64

/-- The sign of a double, with a text for one that is not negative. -/
def signText (plus : List Char) (x : Float) : List Char := if isNegative x then ['-'] else plus

/-- A text shows a double with a number of places. -/
inductive Shows (places : Nat) (plus : List Char) (x : Float) : List Char → Prop
  /-- What is not a number has neither sign nor places. -/
  | notNumber (h : infinityWord < wordOf x) : Shows places plus x "NaN".toList
  /-- What is infinite has a sign. -/
  | infinite (h : wordOf x = infinityWord) : Shows places plus x (signText plus x ++ "inf".toList)
  /-- What is finite has a sign and the nearest decimal. -/
  | finite {d : Decimal} (h : wordOf x < infinityWord) (hplaces : d.places = places)
    (hdigits : IsNearest d.digits (magnitude (wordOf x) * 10 ^ places)) :
    Shows places plus x (signText plus x ++ d.spell)

variable {places : Nat} {plus t : List Char} {x : Float}

/-- A rounded magnitude has the places that it is rounded to. -/
theorem places_rounded (places w : Nat) : (rounded places w).places = places := by
  rw [rounded]

/-- The digits of a rounded magnitude are those that are nearest. -/
theorem isNearest_rounded (places w : Nat) :
    IsNearest (rounded places w).digits (magnitude w * 10 ^ places) := by
  have hquotient : magnitude w * 10 ^ places = ((units w * 10 ^ places : Nat) : ℚ) / one := by
    rw [magnitude, div_mul_eq_mul_div, Nat.cast_mul, Nat.cast_pow, Nat.cast_ofNat]
  rw [hquotient, rounded]
  dsimp only
  exact isNearest_nearestEven _ one_pos

/-- A double is shown by just the text that is written of it. -/
theorem shows_iff :
    Shows places plus x t ↔ t = spellWith plus (fun w => (rounded places w).spell) x := by
  unfold spellWith
  dsimp only
  constructor
  · rintro (h | h | ⟨h, rfl, hdigits⟩)
    · rw [if_pos h]
    · rw [if_neg (Nat.not_lt_of_le (Nat.le_of_eq h)), if_pos h, signText]
    · rename_i d
      have hrounded : rounded d.places (wordOf x) = d :=
        Decimal.ext ((isNearest_rounded d.places _).unique hdigits) (places_rounded d.places _)
      rw [if_neg (Nat.not_lt_of_lt h), if_neg (Nat.ne_of_lt h), hrounded, signText]
  · rintro rfl
    rcases Nat.lt_trichotomy (wordOf x) infinityWord with h | h | h
    · rw [if_neg (Nat.not_lt_of_lt h), if_neg (Nat.ne_of_lt h)]
      exact .finite h (places_rounded places _) (isNearest_rounded places _)
    · rw [if_neg (Nat.not_lt_of_le (Nat.le_of_eq h)), if_pos h]
      exact .infinite h
    · rw [if_pos h]
      exact .notNumber h

/-- What shows a double ends in something else than a minus. -/
theorem Shows.exists_last (h : Shows places plus x t) : ∃ cs c, t = cs ++ [c] ∧ c ≠ '-' := by
  cases h with
  | notNumber _ => exact ⟨"Na".toList, 'N', rfl, by decide⟩
  | infinite _ => exact ⟨signText plus x ++ "in".toList, 'f', by simp, by decide⟩
  | @finite d _ _ _ =>
    have hspell : d.spell ≠ [] := by
      have hwhole : d.wholeText ≠ [] := Nat.toDigits_ne_nil
      unfold Decimal.spell
      split
      · exact hwhole
      · exact List.append_ne_nil_of_left_ne_nil hwhole _
    refine ⟨signText plus x ++ d.spell.dropLast, d.spell.getLast hspell, ?_, fun hminus => ?_⟩
    · rw [List.append_assoc, List.dropLast_append_getLast hspell]
    · rcases Decimal.isDigit_or_eq_of_mem_spell (List.getLast_mem hspell) with h | h <;>
        rw [hminus] at h <;> cases h

end Binary64

end TradeRules.Number
