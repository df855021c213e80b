/-!
# UTF-8

A byte string is read as characters one well-formed sequence at a time. Reading stops at the
first byte that starts no sequence; the number of bytes read until there is what an error
message reports. Overlong forms and surrogates are not well formed.
-/

namespace TradeRules.Text.Utf8

/-- The number of bytes a text occupies. -/
def length : List Char → Nat
  | [] => 0
  | c :: cs => c.utf8Size + length cs

@[simp] theorem length_append (xs ys : List Char) :
    length (xs ++ ys) = length xs + length ys := by
  induction xs with
  | nil => simp [length]
  | cons c cs ih => simp [length, ih, Nat.add_assoc]

/-- The low six bits of a continuation byte. -/
def tail? (b : UInt8) : Option Nat :=
  if 0x80 ≤ b.toNat ∧ b.toNat ≤ 0xBF then some (b.toNat - 0x80) else none

/-- The character with a given code point, where there is one. -/
def scalar? (n : Nat) : Option Char :=
  if h : n.isValidChar then some (Char.ofNatAux n h) else none

/-- The first character of a byte string and the number of bytes it takes. -/
def first? : List UInt8 → Option (Char × Nat)
  | [] => none
  | a :: rest =>
    let n := a.toNat
    if n < 0x80 then (scalar? n).map (·, 1)
    else if n < 0xE0 then
      match rest with
      | b :: _ => do
        let code := (n - 0xC0) * 0x40 + (← tail? b)
        if n < 0xC2 then none else (scalar? code).map (·, 2)
      | _ => none
    else if n < 0xF0 then
      match rest with
      | b :: c :: _ => do
        let code := ((n - 0xE0) * 0x40 + (← tail? b)) * 0x40 + (← tail? c)
        if code < 0x800 then none else (scalar? code).map (·, 3)
      | _ => none
    else if n < 0xF8 then
      match rest with
      | b :: c :: d :: _ => do
        let code := (((n - 0xF0) * 0x40 + (← tail? b)) * 0x40 + (← tail? c)) * 0x40 + (← tail? d)
        if code < 0x10000 then none else (scalar? code).map (·, 4)
      | _ => none
    else none

/-- The characters of a byte string, or the number of bytes before the first malformed one. -/
def decodeFrom : Nat → Nat → List UInt8 → Except Nat (List Char)
  | _, _, [] => .ok []
  | 0, valid, _ => .error valid
  | fuel + 1, valid, bytes =>
    match first? bytes with
    | none => .error valid
    | some (c, size) =>
      match decodeFrom fuel (valid + size) (bytes.drop size) with
      | .ok cs => .ok (c :: cs)
      | .error at' => .error at'

/-- The text that a byte string spells, or the length of its longest well-formed start. -/
def decode (bytes : List UInt8) : Except Nat (List Char) := decodeFrom bytes.length 0 bytes

/-- A text of ASCII bytes is read byte by byte. -/
example : (decode [0x61, 0xC3, 0xA9]).toOption = some ['a', 'é'] := by decide

/-- A lone continuation byte stops the reading where it stands. -/
example : decode [0x61, 0x80] = .error 1 := rfl

end TradeRules.Text.Utf8
