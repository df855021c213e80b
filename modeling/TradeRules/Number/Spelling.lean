import TradeRules.Number.Shortest

/-!
# Writing doubles

Two forms, both without exponent. The plain form has the fewest digits that read back; the fixed
form has a given number of places, the exact binary value being rounded to them with a half going to
the even digit. A sign is written also before a zero. What is not finite is written as
`NaN`, `inf` or `-inf`.
-/

namespace TradeRules.Number.Binary64

/-- The text of a double, with `finite` writing the magnitude of a finite word. -/
def spellWith (plus : List Char) (finite : Nat → List Char) (x : Float) : List Char :=
  let w := wordOf x
  if infinityWord < w then "NaN".toList
  else
    (if isNegative x then ['-'] else plus) ++
      (if w = infinityWord then "inf".toList else finite w)

/-- The plain form: the shortest decimal that reads back. -/
def spell (x : Float) : List Char := spellWith [] (fun w => (shortest w).spell) x

/-- A finite magnitude rounded to a number of places. -/
def rounded (places w : Nat) : Decimal := ⟨nearestEven (units w * 10 ^ places) one, places⟩

/-- The form with a fixed number of places. -/
def fixed (places : Nat) (x : Float) : List Char :=
  spellWith [] (fun w => (rounded places w).spell) x

/-- The form with a fixed number of places that always has a sign. -/
def signedFixed (places : Nat) (x : Float) : List Char :=
  spellWith ['+'] (fun w => (rounded places w).spell) x

example : spell 0.1 = "0.1".toList := by decide +kernel
example : spell 1e21 = "1000000000000000000000".toList := by decide +kernel
example : spell (-0.0) = "-0".toList := by decide +kernel
example : fixed 2 0.125 = "0.12".toList := by decide +kernel
example : signedFixed 2 (-1.005) = "-1.00".toList := by decide +kernel

end TradeRules.Number.Binary64
