/-!
# Blank characters and trimming

White space here is Unicode's `White_Space` property, which is wider than the four characters
that `Char.isWhitespace` knows. Texts are lists of characters; `trimmed` is the same
operation on strings.
-/

namespace TradeRules.Text

/-- Whether a character has the `White_Space` property. -/
def isBlank (c : Char) : Bool :=
  let n := c.toNat
  (0x09 ≤ n && n ≤ 0x0D) || n == 0x20 || n == 0x85 || n == 0xA0 || n == 0x1680 ||
    (0x2000 ≤ n && n ≤ 0x200A) || n == 0x2028 || n == 0x2029 || n == 0x202F ||
    n == 0x205F || n == 0x3000

/-- A text without its leading blanks. -/
def trimStart (cs : List Char) : List Char := cs.dropWhile isBlank

/-- A text without its trailing blanks. -/
def trimEnd (cs : List Char) : List Char := (cs.reverse.dropWhile isBlank).reverse

/-- A text without the blanks at either end. -/
def trim (cs : List Char) : List Char := trimEnd (trimStart cs)

/-- A string without the blanks at either end. -/
def trimmed (s : String) : String := String.ofList (trim s.toList)

/-- Dropping blanks leaves nothing exactly of a text that is blank throughout. -/
theorem trimStart_eq_nil_iff (cs : List Char) :
    trimStart cs = [] ↔ ∀ c ∈ cs, isBlank c = true := by
  induction cs with
  | nil => simp [trimStart]
  | cons c cs ih =>
    by_cases h : isBlank c = true
    · rw [List.forall_mem_cons, and_iff_right h, ← ih, trimStart, List.dropWhile_cons_of_pos h,
        trimStart]
    · simp [trimStart, h]

/-- What is left starts with no blank. -/
theorem isBlank_head_trimStart {cs r : List Char} {c : Char} (h : trimStart cs = c :: r) :
    isBlank c = false := by
  have := List.head?_dropWhile_not isBlank cs
  rw [show cs.dropWhile isBlank = c :: r from h] at this
  simpa using this

end TradeRules.Text
