import PlantGrammar.Numeric.Rounding

/-!
# Decimal numerals

`Decimal` is a numeral in positional notation, `Scientific` one with a power of
ten. `Decimal.chars` writes, `Scientific.ofChars?` reads
`digits[.digits][e[sign]digits]`, and `Scientific.nearest` is the closest number
of a binary format.
-/

namespace PlantGrammar.Numeric

/-- The non-negative numeral `digits / 10 ^ places`. -/
structure Decimal where
  digits : Nat
  places : Nat
deriving DecidableEq, Repr

namespace Decimal

/-- Drops zeros at the end of the fraction. -/
def trim : Nat → Nat → Decimal
  | digits, 0 => ⟨digits, 0⟩
  | digits, places + 1 =>
    if digits % 10 = 0 then trim (digits / 10) places else ⟨digits, places + 1⟩

/-- `digits * 10 ^ exponent` in positional notation. -/
def ofScaled (digits : Nat) (exponent : Int) : Decimal :=
  trim (digits * Nat.pow 10 exponent.toNat) (-exponent).toNat

/-- The pattern nearest to a numeral. -/
def nearest (f : Format) (d : Decimal) : Nat := f.nearest d.digits (Nat.pow 10 d.places)

/-- The text of a numeral: at least one digit before the point, and no point
without places. -/
def chars (d : Decimal) : List Char :=
  let whole := Nat.toDigits 10 (d.digits / Nat.pow 10 d.places)
  if d.places = 0 then whole
  else
    let fraction := Nat.toDigits 10 (d.digits % Nat.pow 10 d.places)
    whole ++ '.' :: (List.replicate (d.places - fraction.length) '0' ++ fraction)

end Decimal

/-- The non-negative numeral `digits * 10 ^ exponent`. -/
structure Scientific where
  digits : Nat
  exponent : Int
deriving DecidableEq, Repr

namespace Scientific

/-- The pattern nearest to a numeral. A leading digit far above or below the
format's range decides alone, so the power of ten that is built stays small. -/
def nearest (f : Format) (s : Scientific) : Nat :=
  let leading : Int := (Nat.toDigits 10 s.digits).length + s.exponent
  if s.digits = 0 then 0
  else if Nat.pow 2 f.exponentBits < leading then f.infinity
  else if leading < -Nat.pow 2 f.exponentBits then 0
  else f.nearest (s.digits * Nat.pow 10 s.exponent.toNat) (Nat.pow 10 (-s.exponent).toNat)

/-- A run of digits at the front, and the rest. -/
def spanDigits (cs : List Char) : List Char × List Char := cs.span Char.isDigit

/-- The exponent part of a numeral, which may be missing. -/
def exponent? : List Char → Option Int
  | [] => some 0
  | c :: rest =>
    if c ≠ 'e' ∧ c ≠ 'E' then none
    else
      let (sign, digits) : Int × List Char := match rest with
        | '-' :: ds => (-1, ds)
        | '+' :: ds => (1, ds)
        | ds => (1, ds)
      if digits.isEmpty || !digits.all Char.isDigit then none
      else some (sign * Nat.ofDigitChars 10 digits 0)

/-- Reads `digits[.digits][e[sign]digits]`, with a digit on at least one side of
the point; the whole text has to be a numeral. -/
def ofChars? (cs : List Char) : Option Scientific :=
  let (whole, rest) := spanDigits cs
  let (fraction, rest) := match rest with
    | '.' :: ds => spanDigits ds
    | ds => ([], ds)
  if whole.isEmpty && fraction.isEmpty then none
  else (exponent? rest).map fun e =>
    ⟨Nat.ofDigitChars 10 (whole ++ fraction) 0, e - fraction.length⟩

end Scientific

end PlantGrammar.Numeric
