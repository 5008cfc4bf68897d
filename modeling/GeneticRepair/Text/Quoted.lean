import GeneticRepair.Text.Combining
import GeneticRepair.Text.Printable

/-!
# `Text/Quoted.lean` — quoted text

A text between double quotes as a person inspects it: the quote, the backslash, whatever leaves no
mark and whatever would be drawn onto its neighbour are escaped, and everything else stands for
itself. So the quoted text shows every character of the text apart from the others.
-/

set_option autoImplicit false

namespace GeneticRepair.Text

/-- A natural number in lower-case hexadecimal digits. -/
def hexadecimal (n : Nat) : String := String.ofList (Nat.toDigits 16 n)

/-- One character between quotes. -/
def escape (c : Char) : String :=
  if c = '"' then "\\\""
  else if c = '\\' then "\\\\"
  else if c = '\n' then "\\n"
  else if c = '\t' then "\\t"
  else if c = '\r' then "\\r"
  else if c.toNat = 0 then "\\0"
  else if isCombining c || !isPrintable c then "\\u\x7b" ++ hexadecimal c.toNat ++ "\x7d"
  else c.toString

def quoted (s : String) : String := "\"" ++ String.join (s.toList.map escape) ++ "\""

end GeneticRepair.Text
