import TradeRules.Text.LetterCaseTable

/-!
# Lower case

The lower case of a text by Unicode's rules. It is one character for one character, but for two: the
dotted capital I becomes two characters, and a capital sigma at the end of a word becomes
another letter than elsewhere.
-/

namespace TradeRules.Text

/-- Whether a character is in one of some ranges of code points. -/
def inRanges (ranges : List (Nat × Nat)) (c : Char) : Bool :=
  ranges.any fun (first, last) => first ≤ c.toNat && c.toNat ≤ last

/-- Whether a character is a letter in some case. -/
def isCased (c : Char) : Bool := inRanges casedRanges c

/-- Whether a character is passed over when the case of neighbours is looked at. -/
def isCaseIgnorable (c : Char) : Bool := inRanges caseIgnorableRanges c

/-- Whether a code point is one of a row of capitals. -/
def CapitalRun.covers (r : CapitalRun) (n : Nat) : Bool :=
  r.first ≤ n && n ≤ r.last && (n - r.first) % r.step == 0

/-- The lower case of a character, apart from its neighbours. -/
def lowerChar (c : Char) : List Char :=
  if c.toNat < 0x80 then [c.toLower]
  else if c = 'İ' then ['i', '\u0307']
  else
    match capitalRuns.find? fun r => r.covers c.toNat with
    | some r => [Char.ofNat ((c.toNat : Int) + r.shift).toNat]
    | none => [c]

/-- Whether the first character that is not passed over is cased. -/
def startsCased (cs : List Char) : Bool :=
  match cs.dropWhile isCaseIgnorable with
  | c :: _ => isCased c
  | [] => false

/-- The lower case of a text that follows another one, which is given backwards. -/
def lowerAfter (before : List Char) : List Char → List Char
  | [] => []
  | c :: rest =>
    let small :=
      if c = 'Σ' then [if startsCased before && !startsCased rest then 'ς' else 'σ']
      else lowerChar c
    small ++ lowerAfter (c :: before) rest

/-- The lower case of a text. -/
def lower (cs : List Char) : List Char := lowerAfter [] cs

/-- The lower case of a string. -/
def lowered (s : String) : String := String.ofList (lower s.toList)

example : lower "ÉΣΟΣ".toList = "éσος".toList := by decide +kernel

example : lower "Α'Σ Α1Σ".toList = "α'ς α1σ".toList := by decide +kernel

end TradeRules.Text
