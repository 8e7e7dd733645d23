import PlantGrammar.Numeric.Decimal

/-!
# The shortest decimal of a binary number

Among the decimals that round to a given number, `Format.shortest` picks one
with the fewest digits, and of two the nearer. Every decimal of at most
`Format.mostDigits` digits lies on one grid around the number, so the reals that round
to it are first cut down to a range of that grid. The candidates at fewer digits
are the two neighbours of the number on a coarser grid; the coarsest grid with a
candidate in the range wins.
-/

namespace PlantGrammar.Numeric

/-- How many digits a natural number has. -/
def digitCount (n : Nat) : Nat := (Nat.toDigits 10 n).length

/-- The least `k` with `num / den < 10 ^ k`, for a quotient that is no negative
power of ten. -/
def decimalPoint (num den : Nat) : Int :=
  if den ≤ num then digitCount (num / den) else 1 - digitCount (den / num)

/-- The grid points that round to a number, from `low` to `high`, and twice the
number itself, rounded down to the grid. -/
structure GridRange where
  low : Nat
  twice : Nat
  high : Nat
deriving Repr

namespace GridRange

/-- The nearest multiple of `unit` in the range, among the two that enclose the
number. One half way between both goes up. -/
def nearest? (r : GridRange) (unit : Nat) : Option Nat :=
  let down := r.twice / (2 * unit) * unit
  let up := down + unit
  if up ≤ r.high then
    if r.low ≤ down ∧ r.twice < down + up then some down else some up
  else if r.low ≤ down then some down
  else none

/-- The multiple in the range of the coarsest unit that has one, from
`10 ^ (digits - 1)` on down. -/
def shortest? (r : GridRange) : (digits : Nat) → Option Nat
  | 0 => none
  | digits + 1 => r.nearest? (Nat.pow 10 digits) <|> r.shortest? digits

end GridRange

namespace Format

/-- So many digits tell all numbers of the format apart: one more than the
decimal logarithm of the significands' range, rounded up. -/
def mostDigits (f : Format) : Nat := (f.fractionBits + 1) * 30103 / 100000 + 2

/-- The range of a finite pattern on the grid whose step is `10 ^ exponent`. All
is reckoned in quarters of the pattern's last place. A number is half a place
away from what it rounds to, and below a power of two a quarter; what is just as
far rounds to it where its significand is even. -/
def gridRange (f : Format) (pattern : Nat) (exponent : Int) : GridRange :=
  let (num, den) := powerOfTwo (f.shift pattern) (f.grain + 2)
  let num := num * Nat.pow 10 (-exponent).toNat
  let den := den * Nat.pow 10 exponent.toNat
  let s := f.significand pattern
  let below := if s = f.hidden ∧ 0 < f.shift pattern then 1 else 2
  let open_ := s % 2
  ⟨((4 * s - below) * num + open_ + den - 1) / den, 8 * s * num / den,
    ((4 * s + 2) * num - open_) / den⟩

/-- All digits of a finite pattern's value. -/
def exact (f : Format) (pattern : Nat) : Decimal :=
  let (num, den) := f.ratio pattern
  Decimal.trim (num * Nat.pow 5 den.log2) den.log2

/-- The shortest decimal that rounds to a finite pattern. Should the grid have
none, all digits are kept. -/
def shortest (f : Format) (pattern : Nat) : Decimal :=
  if pattern = 0 then ⟨0, 0⟩
  else
    let (num, den) := f.ratio pattern
    let exponent := decimalPoint num den - f.mostDigits
    let found := (f.gridRange pattern exponent).shortest? f.mostDigits
    ((found.map fun digits => Decimal.ofScaled digits exponent).filter
      fun d => d.nearest f = pattern).getD (f.exact pattern)

end Format

end PlantGrammar.Numeric
