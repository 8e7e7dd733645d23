/-!
# Hexadecimal digits

Reading hexadecimal digits of either case, and writing them in lower case.
-/

namespace PlantGrammar.Text

/-- The value of a hexadecimal digit of either case. -/
def hexDigit? (c : Char) : Option Nat :=
  if '0' ≤ c ∧ c ≤ '9' then some (c.toNat - '0'.toNat)
  else if 'a' ≤ c ∧ c ≤ 'f' then some (c.toNat - 'a'.toNat + 10)
  else if 'A' ≤ c ∧ c ≤ 'F' then some (c.toNat - 'A'.toNat + 10)
  else none

/-- The value of a run of digits; none where one is no digit. -/
def hexValue? (cs : List Char) : Option Nat :=
  cs.foldl (fun acc c => do return 16 * (← acc) + (← hexDigit? c)) (some 0)

/-- A number in lower case digits, without leading zeros. -/
def hexChars (n : Nat) : List Char := Nat.toDigits 16 n

end PlantGrammar.Text
