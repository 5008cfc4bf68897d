/-!
# `Text/Blank.lean` — blanks and tokens

The characters that separate tokens are those with the property White_Space, which is wider than
the six blanks that core's `Char.isWhitespace` knows.
-/

set_option autoImplicit false

namespace GeneticRepair.Text

/-- The characters with the property White_Space. -/
def isBlank (c : Char) : Bool :=
  let n := c.toNat
  (9 ≤ n && n ≤ 13) || n == 0x20 || n == 0x85 || n == 0xA0 || n == 0x1680 ||
    (0x2000 ≤ n && n ≤ 0x200A) || n == 0x2028 || n == 0x2029 || n == 0x202F || n == 0x205F ||
    n == 0x3000

/-- Splits at runs of blanks; `word` holds the reversed token that is being read. -/
def splitBlank (word : List Char) : List Char → List (List Char)
  | [] => if word.isEmpty then [] else [word.reverse]
  | c :: cs =>
    if isBlank c then
      if word.isEmpty then splitBlank [] cs else word.reverse :: splitBlank [] cs
    else splitBlank (c :: word) cs

/-- The maximal runs of characters that are not blank. -/
def tokens (s : String) : List String := (splitBlank [] s.toList).map String.ofList

end GeneticRepair.Text
