import PlantGrammar.Numeric.Shortest

/-!
# The text of a number

Every number in a message, a report or a picture is written in the same way:
the shortest digits that read back, always positional, without a point where
there is no fraction. `ofChars?` reads numbers of any spelling back: signs,
exponents, infinities and the non-number, without regard to case.
-/

namespace PlantGrammar.Numeric

namespace Encoding

variable {f : Format}

/-- The text of a number without its sign. -/
def magnitude (e : Encoding f) : List Char :=
  if e.isFinite then (f.shortest e.pattern).chars else "inf".toList

/-- The text of a number. A non-number has no sign. -/
def chars (e : Encoding f) : List Char :=
  if e.isNaN then "NaN".toList
  else if e.negative then '-' :: e.magnitude else e.magnitude

/-- The pattern that an unsigned numeral or a word for infinity or for a
non-number stands for. -/
def pattern? (f : Format) (cs : List Char) : Option Nat :=
  let word := cs.map Char.toLower
  if word = "inf".toList ∨ word = "infinity".toList then some f.infinity
  else if word = "nan".toList then some f.notANumber
  else (Scientific.ofChars? cs).map (Scientific.nearest f)

/-- Reads a number: an optional sign, then a numeral, `inf`, `infinity` or `nan`
in any case. -/
def ofChars? (f : Format) : List Char → Option (Encoding f)
  | '-' :: cs => (pattern? f cs).map (⟨true, ·⟩)
  | '+' :: cs => (pattern? f cs).map (⟨false, ·⟩)
  | cs => (pattern? f cs).map (⟨false, ·⟩)

end Encoding

/-- The text of a double precision number. -/
def floatChars (x : Float) : List Char := (Encoding.ofFloat x).chars

/-- The text of a double precision number, as a string. -/
def floatText (x : Float) : String := String.ofList (floatChars x)

/-- The text of a number narrowed to single precision. -/
def narrowChars (x : Float) : List Char := ((Encoding.ofFloat x).narrow .binary32).chars

/-- Reads a double precision number. -/
def readFloat? (cs : List Char) : Option Float :=
  (Encoding.ofChars? .binary64 cs).map Encoding.toFloat

/-- Reads a single precision number. -/
def readFloat32? (cs : List Char) : Option Float32 :=
  (Encoding.ofChars? .binary32 cs).map Encoding.toFloat32

end PlantGrammar.Numeric
