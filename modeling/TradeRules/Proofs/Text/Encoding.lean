import Mathlib
import TradeRules.Text.Utf8

/-!
# Which bytes are a text

The UTF-8 of a text is that of its characters one after the other (`Utf8.encode`). A byte string is
read as a text exactly if it is the UTF-8 of that text (`Utf8.decode_eq_ok_iff`).
-/

namespace TradeRules.Text.Utf8

/-- The bytes of a text. -/
def encode (cs : List Char) : List UInt8 := cs.flatMap String.utf8EncodeChar

/-- There is a character with a code point where it is the code point of that character. -/
theorem scalar?_eq_some_iff {n : Nat} {c : Char} : scalar? n = some c ↔ c.toNat = n := by
  unfold scalar?
  constructor
  · intro h
    split at h
    · cases h
      exact Char.toNat_ofNatAux ‹_›
    · cases h
  · rintro rfl
    have hvalid : c.toNat.isValidChar := c.valid
    rw [dif_pos hvalid, Option.some.injEq, ← Char.toNat_inj]
    exact Char.toNat_ofNatAux hvalid

/-- A continuation byte is its low six bits above the first one. -/
theorem tail?_eq_some_iff {b : UInt8} {n : Nat} :
    tail? b = some n ↔ n < 0x40 ∧ b.toNat = n + 0x80 := by
  unfold tail?
  split
  · rw [Option.some.injEq]
    omega
  · exact iff_of_false (by simp) (by omega)

/-- The bytes of a character, by the number of them. -/
inductive Spells (c : Char) : List UInt8 → Prop where
  /-- One byte for seven bits. -/
  | one {a : UInt8} (ha : a.toNat < 0x80) (hcode : c.toNat = a.toNat) : Spells c [a]
  /-- Two bytes for eleven bits. -/
  | two {a b : UInt8} {x y : Nat} (ha : a.toNat = x + 0xC0) (hb : b.toNat = y + 0x80)
    (hy : y < 0x40) (hcode : c.toNat = x * 0x40 + y) (hlow : 0x80 ≤ c.toNat) (hhigh : x < 0x20) : Spells c [a, b]
  /-- Three bytes for sixteen bits. -/
  | three {a b d : UInt8} {x y z : Nat} (ha : a.toNat = x + 0xE0) (hb : b.toNat = y + 0x80)
    (hd : d.toNat = z + 0x80) (hy : y < 0x40) (hz : z < 0x40)
    (hcode : c.toNat = (x * 0x40 + y) * 0x40 + z) (hlow : 0x800 ≤ c.toNat) (hhigh : x < 0x10) :
    Spells c [a, b, d]
  /-- Four bytes for twenty-one bits. -/
  | four {a b d e : UInt8} {x y z w : Nat} (ha : a.toNat = x + 0xF0) (hb : b.toNat = y + 0x80)
    (hd : d.toNat = z + 0x80) (he : e.toNat = w + 0x80) (hy : y < 0x40) (hz : z < 0x40)
    (hw : w < 0x40) (hcode : c.toNat = ((x * 0x40 + y) * 0x40 + z) * 0x40 + w) (hlow : 0x10000 ≤ c.toNat)
    (hhigh : x < 8) : Spells c [a, b, d, e]

/-- A character has one byte at least. -/
theorem Spells.ne_nil {c : Char} {word : List UInt8} (h : Spells c word) : word ≠ [] := by
  cases h <;> exact List.cons_ne_nil _ _

/-- A byte is the one with its number. -/
theorem ofNat_eq {b : UInt8} {n : Nat} (h : n = b.toNat) : UInt8.ofNat n = b := by
  rw [h, UInt8.ofNat_toNat]

/-- Bytes that spell a character are its encoding. -/
theorem Spells.encodeChar_eq {c : Char} {bytes : List UInt8} (h : Spells c bytes) :
    String.utf8EncodeChar c = bytes := by
  have hval : c.val.toNat = c.toNat := rfl
  cases h with
  | one ha hcode =>
    simp only [String.utf8EncodeChar, hval]
    rw [if_pos (by omega), ofNat_eq hcode]
  | two ha hb hy hcode hlow hhigh =>
    simp only [String.utf8EncodeChar, hval]
    rw [if_neg (by omega), if_pos (by omega), ofNat_eq, ofNat_eq] <;> omega
  | three ha hb hd hy hz hcode hlow hhigh =>
    simp only [String.utf8EncodeChar, hval]
    rw [if_neg (by omega), if_neg (by omega), if_pos (by omega), ofNat_eq, ofNat_eq,
      ofNat_eq] <;> omega
  | four ha hb hd he hy hz hw hcode hlow hhigh =>
    simp only [String.utf8EncodeChar, hval]
    rw [if_neg (by omega), if_neg (by omega), if_neg (by omega), ofNat_eq, ofNat_eq, ofNat_eq,
      ofNat_eq] <;> omega

/-- The encoding of a character spells it. -/
theorem spells_encodeChar (c : Char) : Spells c (String.utf8EncodeChar c) := by
  have hval : c.val.toNat = c.toNat := rfl
  have htop : c.toNat < 0x110000 := by
    have hvalid : c.toNat.isValidChar := c.valid
    omega
  have hbyte {n : Nat} (h : n < 0x100) : (UInt8.ofNat n).toNat = n := UInt8.toNat_ofNat_of_lt' h
  simp only [String.utf8EncodeChar, hval]
  split
  · exact .one (by rw [hbyte] <;> omega) (by rw [hbyte]; omega)
  · split
    · exact .two (hbyte (by omega)) (hbyte (by omega)) (by omega) (by omega) (by omega) (by omega)
    · split
      · exact .three (hbyte (by omega)) (hbyte (by omega)) (hbyte (by omega)) (by omega) (by omega)
          (by omega) (by omega) (by omega)
      · exact .four (hbyte (by omega)) (hbyte (by omega)) (hbyte (by omega)) (hbyte (by omega))
          (by omega) (by omega) (by omega) (by omega) (by omega) (by omega)

/-- Bytes that spell a character are read as it, whatever follows them. -/
theorem Spells.first?_append {c : Char} {word : List UInt8} (h : Spells c word)
    (rest : List UInt8) : first? (word ++ rest) = some (c, word.length) := by
  cases h with
  | one ha hcode =>
    simp only [first?, List.cons_append]
    rw [if_pos ha, scalar?_eq_some_iff.2 hcode]
    rfl
  | @two a b x y ha hb hy hcode hlow hhigh =>
    have hfound : scalar? ((a.toNat - 0xC0) * 0x40 + y) = some c :=
      scalar?_eq_some_iff.2 (by omega)
    simp only [first?, List.cons_append, tail?_eq_some_iff.2 ⟨hy, hb⟩]
    rw [if_neg (by omega), if_pos (by omega), Option.bind_eq_bind, Option.bind_some,
      if_neg (by omega), hfound]
    rfl
  | @three a b d x y z ha hb hd hy hz hcode hlow hhigh =>
    have hfound : scalar? (((a.toNat - 0xE0) * 0x40 + y) * 0x40 + z) = some c :=
      scalar?_eq_some_iff.2 (by omega)
    simp only [first?, List.cons_append, tail?_eq_some_iff.2 ⟨hy, hb⟩, tail?_eq_some_iff.2 ⟨hz, hd⟩]
    rw [if_neg (by omega), if_neg (by omega), if_pos (by omega), Option.bind_eq_bind,
      Option.bind_some, Option.bind_some, if_neg (by omega), hfound]
    rfl
  | @four a b d e x y z w ha hb hd he hy hz hw hcode hlow hhigh =>
    have hfound : scalar? ((((a.toNat - 0xF0) * 0x40 + y) * 0x40 + z) * 0x40 + w) = some c :=
      scalar?_eq_some_iff.2 (by omega)
    simp only [first?, List.cons_append, tail?_eq_some_iff.2 ⟨hy, hb⟩, tail?_eq_some_iff.2 ⟨hz, hd⟩,
      tail?_eq_some_iff.2 ⟨hw, he⟩]
    rw [if_neg (by omega), if_neg (by omega), if_neg (by omega), if_pos (by omega),
      Option.bind_eq_bind, Option.bind_some, Option.bind_some, Option.bind_some, if_neg (by omega),
      hfound]
    rfl

/-- What is read as a first character is spelt by the bytes that are counted. -/
theorem exists_spells_of_first? {bytes : List UInt8} {c : Char} {size : Nat}
    (h : first? bytes = some (c, size)) :
    ∃ word rest, bytes = word ++ rest ∧ Spells c word ∧ size = word.length := by
  unfold first? at h
  split at h
  · cases h
  · rename_i a rest
    dsimp only at h
    split at h
    · simp only [Option.map_eq_some_iff, scalar?_eq_some_iff, Prod.mk.injEq] at h
      obtain ⟨c, hc, rfl, rfl⟩ := h
      exact ⟨[a], rest, rfl, .one ‹_› hc, rfl⟩
    -- The lead byte decides how many bytes follow, and what its own number is counted from.
    · split at h
      · split at h
        · rename_i b rest
          simp only [Option.bind_eq_bind, Option.bind_eq_some_iff, Option.ite_none_left_eq_some,
            Option.map_eq_some_iff, scalar?_eq_some_iff, tail?_eq_some_iff, Prod.mk.injEq] at h
          obtain ⟨y, ⟨hy, hb⟩, ha, c, hc, rfl, rfl⟩ := h
          have ha' : a.toNat = a.toNat - 0xC0 + 0xC0 := by omega
          exact ⟨[a, b], rest, rfl, .two ha' hb hy hc (by omega) (by omega), rfl⟩
        · cases h
      · split at h
        · split at h
          · rename_i b d rest
            simp only [Option.bind_eq_bind, Option.bind_eq_some_iff, Option.ite_none_left_eq_some,
              Option.map_eq_some_iff, scalar?_eq_some_iff, tail?_eq_some_iff, Prod.mk.injEq] at h
            obtain ⟨y, ⟨hy, hb⟩, z, ⟨hz, hd⟩, hlow, c, hc, rfl, rfl⟩ := h
            have ha' : a.toNat = a.toNat - 0xE0 + 0xE0 := by omega
            exact ⟨[a, b, d], rest, rfl, .three ha' hb hd hy hz hc (by omega) (by omega), rfl⟩
          · cases h
        · split at h
          · split at h
            · rename_i b d e rest
              simp only [Option.bind_eq_bind, Option.bind_eq_some_iff, Option.ite_none_left_eq_some,
                Option.map_eq_some_iff, scalar?_eq_some_iff, tail?_eq_some_iff, Prod.mk.injEq] at h
              obtain ⟨y, ⟨hy, hb⟩, z, ⟨hz, hd⟩, w, ⟨hw, he⟩, hlow, c, hc, rfl, rfl⟩ := h
              have ha' : a.toNat = a.toNat - 0xF0 + 0xF0 := by omega
              exact ⟨[a, b, d, e], rest, rfl,
                .four ha' hb hd he hy hz hw hc (by omega) (by omega), rfl⟩
            · cases h
          · cases h

/-- The bytes of a text are those of its first character and those of the rest. -/
theorem encode_cons (c : Char) (cs : List Char) :
    encode (c :: cs) = String.utf8EncodeChar c ++ encode cs := List.flatMap_cons

/-- Only the text without characters has no bytes. -/
theorem encode_eq_nil_iff {cs : List Char} : encode cs = [] ↔ cs = [] := by
  cases cs with
  | nil => exact iff_of_true rfl rfl
  | cons c cs =>
    rw [encode_cons]
    exact iff_of_false (List.append_ne_nil_of_left_ne_nil (spells_encodeChar c).ne_nil _)
      (List.cons_ne_nil _ _)

/-- Reading steps over the bytes of the first character. -/
theorem decodeFrom_append {c : Char} {word : List UInt8} (h : Spells c word) (fuel valid : Nat)
    (rest : List UInt8) :
    decodeFrom (fuel + 1) valid (word ++ rest) =
      (decodeFrom fuel (valid + word.length) rest).map (c :: ·) := by
  have hfirst := h.first?_append rest
  have hdrop : (word ++ rest).drop word.length = rest := List.drop_left
  obtain ⟨b, more, hbytes⟩ :=
    List.exists_cons_of_ne_nil (List.append_ne_nil_of_left_ne_nil h.ne_nil rest)
  rw [hbytes] at hfirst hdrop ⊢
  rw [decodeFrom, hfirst]
  · dsimp only
    rw [hdrop]
    cases decodeFrom fuel (valid + word.length) rest <;> rfl
  · exact List.cons_ne_nil b more

/-- In as many steps as there are bytes, they are read as a text exactly if they are its bytes. -/
theorem decodeFrom_eq_ok_iff {fuel valid : Nat} {bytes : List UInt8} {cs : List Char}
    (hfuel : bytes.length ≤ fuel) : decodeFrom fuel valid bytes = .ok cs ↔ encode cs = bytes := by
  induction fuel generalizing valid bytes cs with
  | zero =>
    obtain rfl := List.eq_nil_of_length_eq_zero (Nat.le_zero.1 hfuel)
    rw [encode_eq_nil_iff, decodeFrom, Except.ok.injEq, eq_comm]
  | succ fuel ih =>
    have hshorter {c : Char} {word rest : List UInt8} (h : Spells c word)
        (hlength : (word ++ rest).length ≤ fuel + 1) : rest.length ≤ fuel := by
      have hpos := List.length_pos_iff.2 h.ne_nil
      rw [List.length_append] at hlength
      omega
    constructor
    · intro h
      cases bytes with
      | nil =>
        rw [decodeFrom, Except.ok.injEq] at h
        rw [← h]
        rfl
      | cons b more =>
        cases hfirst : first? (b :: more) with
        | none =>
          simp only [decodeFrom, hfirst] at h
          cases h
        | some found =>
          obtain ⟨word, rest, hbytes, hword, -⟩ := exists_spells_of_first? hfirst
          rw [hbytes] at hfuel h ⊢
          rw [decodeFrom_append hword] at h
          cases hrest : decodeFrom fuel (valid + word.length) rest with
          | error at' =>
            rw [hrest] at h
            cases h
          | ok later =>
            rw [hrest] at h
            cases h
            rw [encode_cons, hword.encodeChar_eq, (ih (hshorter hword hfuel)).1 hrest]
    · rintro rfl
      cases cs with
      | nil => rfl
      | cons c cs =>
        have hword := spells_encodeChar c
        rw [encode_cons] at hfuel ⊢
        rw [decodeFrom_append hword, (ih (hshorter hword hfuel)).2 rfl]
        rfl

/-- A byte string is read as a text exactly if it is the bytes of that text. -/
theorem decode_eq_ok_iff {bytes : List UInt8} {cs : List Char} :
    decode bytes = .ok cs ↔ encode cs = bytes := decodeFrom_eq_ok_iff (Nat.le_refl _)

end TradeRules.Text.Utf8
