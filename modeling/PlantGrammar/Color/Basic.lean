/-!
# Colours

A colour has four single precision channels. In texts and pictures a channel is
one byte: `Color.bytes` rounds it, `Color.hex` spells the three bytes without
opacity and `Color.text` adds the opacity where there is any.
-/

namespace PlantGrammar

/-- A colour with its opacity. Channels run from zero to one, but arithmetic may
leave that range. -/
structure Color where
  red : Float32
  green : Float32
  blue : Float32
  alpha : Float32
deriving BEq, Repr, Inhabited

namespace Color

/-- The channel of a byte. -/
def channel (byte : Nat) : Float32 := (UInt64.ofNat byte).toFloat32 / 255

/-- The byte nearest to a channel. Beyond the range of a byte the nearer end is
taken, and zero for a channel that is no number. -/
def byte (channel : Float32) : UInt8 := (channel * 255 + 0.5).toUInt8

/-- The colour of four bytes. -/
def ofBytes (red green blue alpha : Nat) : Color :=
  ⟨channel red, channel green, channel blue, channel alpha⟩

/-- The bytes of red, green, blue and opacity. -/
def bytes (c : Color) : List UInt8 := [byte c.red, byte c.green, byte c.blue, byte c.alpha]

/-- A byte as two lower case hexadecimal digits. -/
def hexByte (b : UInt8) : List Char := [Nat.digitChar (b.toNat / 16), Nat.digitChar (b.toNat % 16)]

/-- `#rrggbb`, which leaves the opacity out. -/
def hexChars (c : Color) : List Char :=
  '#' :: (hexByte (byte c.red) ++ hexByte (byte c.green) ++ hexByte (byte c.blue))

/-- `#rrggbb`, and `#rrggbbaa` where the byte of opacity is not full. -/
def chars (c : Color) : List Char :=
  if byte c.alpha = 255 then c.hexChars else c.hexChars ++ hexByte (byte c.alpha)

/-- `Color.hexChars` as a string. -/
def hex (c : Color) : String := String.ofList c.hexChars

/-- `Color.chars` as a string. -/
def text (c : Color) : String := String.ofList c.chars

end Color

end PlantGrammar
