import PlantGrammar.Color.Named
import PlantGrammar.Color.Spaces
import PlantGrammar.Failure
import PlantGrammar.Text.Blank
import PlantGrammar.Text.Hex

/-!
# Colours in CSS notation

`Color.ofCss` reads hexadecimal digits with or without a leading mark, the
functions `rgb`, `hsl`, `hwb`, `hsv`, `oklab` and `oklch` with or without an
opacity, and the names of colours.
-/

namespace PlantGrammar.Color

open Numeric Text

/-- Why a text is no colour. -/
inductive Fault where
  | hex
  | function
  | space (name : String)
  | unknown
deriving DecidableEq, Repr

/-- The reason in words. -/
def Fault.message : Fault → String
  | hex => "invalid hex format"
  | function => "invalid color function"
  | space name => "invalid " ++ name ++ " format"
  | unknown => "invalid unknown format"

/-! ## Hexadecimal digits -/

/-- The byte of a digit that stands for two. -/
def doubled? (c : Char) : Option Nat := (hexDigit? c).map (17 * ·)

/-- The byte of two digits; a plus sign may take the place of the first. -/
def pair? (high low : Char) : Option Nat :=
  if high = '+' then hexDigit? low
  else do return 16 * (← hexDigit? high) + (← hexDigit? low)

/-- Three or four digits, each standing for a pair, or three or four pairs. -/
def ofHex? : List Char → Option Color
  | [r, g, b] => do
    return ofBytes (← doubled? r) (← doubled? g) (← doubled? b) 255
  | [r, g, b, a] => do
    return ofBytes (← doubled? r) (← doubled? g) (← doubled? b) (← doubled? a)
  | [r, r', g, g', b, b'] => do
    return ofBytes (← pair? r r') (← pair? g g') (← pair? b b') 255
  | [r, r', g, g', b, b', a, a'] => do
    return ofBytes (← pair? r r') (← pair? g g') (← pair? b b') (← pair? a a')
  | _ => none

/-! ## Arguments of functions -/

/-- A number as it is written, or a percentage as its hundredth part. -/
structure Amount where
  value : Float32
  isPercent : Bool

/-- Reads a number or a percentage. -/
def amount? (cs : List Char) : Option Amount :=
  match cs.reverse with
  | '%' :: digits => (readFloat32? digits.reverse).map fun x => ⟨x / 100, true⟩
  | _ => (readFloat32? cs).map fun x => ⟨x, false⟩

/-- Reads a number that a unit, of any case, follows. -/
def withUnit? (unit : String) (cs : List Char) : Option Float32 :=
  let split := cs.length - unit.length
  if (cs.drop split).map Char.toLower = unit.toList then readFloat32? (cs.take split) else none

/-- Reads an angle, in degrees. Without a unit the number counts degrees. -/
def angle? (cs : List Char) : Option Float32 :=
  withUnit? "deg" cs
    <|> (withUnit? "grad" cs).map (· * 360 / 400)
    <|> (withUnit? "rad" cs).map (· * 57.2957795130823208767981548141051703)
    <|> (withUnit? "turn" cs).map (· * 360)
    <|> readFloat32? cs

/-- An amount where full percentages stand for a given number. -/
def Amount.scaled (a : Amount) (full : Float32) : Float32 :=
  if a.isPercent then a.value * full else a.value

/-- An amount on an axis where percentages run from `-bound` to `bound`. -/
def Amount.onAxis (a : Amount) (bound : Float32) : Float32 :=
  if a.isPercent then (a.value + 1) * ((bound + bound) / 2) + -bound else a.value

/-! ## Functions -/

/-- Red, green and blue: all three counted to 255 or all three percentages. -/
def ofRgbArguments? (x y z : List Char) (alpha : Float32) : Option Color := do
  let (r, g, b) := (← amount? x, ← amount? y, ← amount? z)
  let unit := fun (a : Amount) => clampUnit (if a.isPercent then a.value else a.value / 255)
  if r.isPercent == g.isPercent && g.isPercent == b.isPercent then
    return ⟨unit r, unit g, unit b, alpha⟩
  else none

/-- A hue with two amounts of one kind. -/
def ofHueArguments? (space : Float32 → Float32 → Float32 → Float32 → Color)
    (x y z : List Char) (alpha : Float32) : Option Color := do
  let (hue, s, t) := (← angle? x, ← amount? y, ← amount? z)
  if s.isPercent == t.isPercent then
    return space (wrap hue 360) (clampUnit s.value) (clampUnit t.value) alpha
  else none

/-- A lightness with the two axes of Oklab. -/
def ofOklabArguments? (x y z : List Char) (alpha : Float32) : Option Color := do
  let (l, a, b) := (← amount? x, ← amount? y, ← amount? z)
  return ofOklab (atLeastZero l.value) (a.onAxis 0.4) (b.onAxis 0.4) alpha

/-- A lightness with the chroma and the hue of Oklab. -/
def ofOklchArguments? (x y z : List Char) (alpha : Float32) : Option Color := do
  let (l, chroma, hue) := (← amount? x, ← amount? y, ← angle? z)
  return ofOklch (atLeastZero l.value) (atLeastZero (chroma.scaled 0.4)) hue alpha

/-- A colour function by its lower case name: the word its fault is told by, and
what it makes of three arguments. -/
def function? (name : String) :
    Option (String × (List Char → List Char → List Char → Float32 → Option Color)) :=
  if name = "rgb" ∨ name = "rgba" then some ("rgb", ofRgbArguments?)
  else if name = "hsl" ∨ name = "hsla" then some ("hsl", ofHueArguments? ofHsl)
  else if name = "hwb" ∨ name = "hwba" then some ("hwb", ofHueArguments? ofHwb)
  else if name = "hsv" ∨ name = "hsva" then some ("hsv", ofHueArguments? ofHsv)
  else if name = "oklab" then some ("oklab", ofOklabArguments?)
  else if name = "oklch" then some ("oklch", ofOklchArguments?)
  else none

/-- The opacity of the arguments after the third: full where there is none. -/
def opacity? : List (List Char) → Option Float32
  | [] => some 1
  | [a] => (amount? a).map fun a => clampUnit a.value
  | _ => none

/-- A function's name and the text between its brackets. -/
def ofCall (name arguments : List Char) : Except Fault Color :=
  match fields (fun c => c = ',' || c = '/' || isAsciiBlank c) arguments with
  | x :: y :: z :: rest =>
    match opacity? rest, function? (String.ofList ((trimEnd name).map Char.toLower)) with
    | some alpha, some (space, read) =>
      match read x y z alpha with
      | some color => .ok color
      | none => .error (.space space)
    | _, _ => .error .function
  | _ => .error .function

/-- The text before the first opening bracket and the text between it and a
closing bracket at the very end. -/
def call? (cs : List Char) : Option (List Char × List Char) :=
  match cs.span (· ≠ '(') with
  | (name, '(' :: rest) =>
    if rest.getLast? = some ')' then some (name, rest.dropLast) else none
  | _ => none

/-! ## All notations -/

/-- A text without blanks around it. -/
def ofTrimmed (cs : List Char) : Except Fault Color :=
  let lower := cs.map Char.toLower
  if lower = "transparent".toList then .ok ⟨0, 0, 0, 0⟩
  else match cs with
    | '#' :: digits =>
      match ofHex? digits with
      | some color => .ok color
      | none => .error .hex
    | _ =>
      match call? cs with
      | some (name, arguments) => ofCall name arguments
      | none =>
        match ofHex? cs <|> ofName? lower with
        | some color => .ok color
        | none => .error .unknown

/-- Reads a colour in any notation of CSS. -/
def parse (cs : List Char) : Except Fault Color := ofTrimmed (trim cs)

/-- Reads a colour; the failure quotes the text. -/
def ofCss (text : String) : Except Failure Color :=
  (parse text.toList).mapError fun fault => .invalidColor (text ++ ": " ++ fault.message)

end PlantGrammar.Color
