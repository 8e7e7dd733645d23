/-!
# Blank characters

The characters with the Unicode property `White_Space`, and trimming by it.
-/

namespace PlantGrammar.Text

/-- Whether a character has the property `White_Space`. -/
def isBlank (c : Char) : Bool :=
  let n := c.toNat
  (9 ≤ n && n ≤ 13) || n = 0x20 || n = 0x85 || n = 0xA0 || n = 0x1680 ||
    (0x2000 ≤ n && n ≤ 0x200A) || n = 0x2028 || n = 0x2029 || n = 0x202F || n = 0x205F ||
    n = 0x3000

/-- Drops blanks at the end. -/
def trimEnd (cs : List Char) : List Char := (cs.reverse.dropWhile isBlank).reverse

/-- Drops blanks at both ends. -/
def trim (cs : List Char) : List Char := trimEnd (cs.dropWhile isBlank)

/-- The blanks that divide words in a line of ASCII. -/
def isAsciiBlank (c : Char) : Bool :=
  c = ' ' || c = '\t' || c = '\n' || c = '\x0c' || c = '\r'

/-- The non-empty runs between dividing characters. -/
def fields (divides : Char → Bool) (cs : List Char) : List (List Char) :=
  (cs.splitBy fun a b => divides a == divides b).filter fun run => !run.any divides

end PlantGrammar.Text
