import PlantGrammar.Color.Basic
import PlantGrammar.Numeric.Remainder

/-!
# Colour spaces

How the colour spaces of CSS map to red, green and blue. All arithmetic is in
single precision, in the order in which the formulas are written.
-/

namespace PlantGrammar.Color

open Numeric

/-- A number forced into the range from zero to one; a non-number stays. -/
def clampUnit (x : Float32) : Float32 :=
  let x := if x < 0 then 0 else x
  if 1 < x then 1 else x

/-- A number that is at least zero; a non-number becomes zero. -/
def atLeastZero (x : Float32) : Float32 := if 0 < x then x else 0

/-- The remainder that lies between zero and a positive modulus. -/
def wrap (x modulus : Float32) : Float32 :=
  remainder32 (remainder32 x modulus + modulus) modulus

/-- One channel of a hue, between the levels `low` and `high`; `sector` counts
sixths of the circle. -/
def hueChannel (low high sector : Float32) : Float32 :=
  let sector := wrap sector 6
  if sector < 1 then low + (high - low) * sector
  else if sector < 3 then high
  else if sector < 4 then low + (high - low) * (4 - sector)
  else low

/-- Hue, saturation and lightness. -/
def ofHsl (hue saturation lightness alpha : Float32) : Color :=
  if saturation == 0 then ⟨lightness, lightness, lightness, alpha⟩
  else
    let high :=
      if lightness < 0.5 then lightness * (1 + saturation)
      else lightness + saturation - lightness * saturation
    let low := 2 * lightness - high
    let sector := hue / 60
    ⟨hueChannel low high (sector + 2), hueChannel low high sector,
      hueChannel low high (sector - 2), alpha⟩

/-- Hue, whiteness and blackness. -/
def ofHwb (hue whiteness blackness alpha : Float32) : Color :=
  if 1 ≤ whiteness + blackness then
    let grey := whiteness / (whiteness + blackness)
    ⟨grey, grey, grey, alpha⟩
  else
    let pure := ofHsl hue 1 0.5 alpha
    let mix := fun (c : Float32) => c * (1 - whiteness - blackness) + whiteness
    ⟨mix pure.red, mix pure.green, mix pure.blue, alpha⟩

/-- Hue, saturation and value. -/
def ofHsv (hue saturation value alpha : Float32) : Color :=
  let lightness := (2 - saturation) * value / 2
  let saturation :=
    if lightness == 0 then saturation
    else if lightness == 1 then 0
    else if lightness < 0.5 then saturation * value / (lightness * 2)
    else saturation * value / (2 - lightness * 2)
  ofHsl hue saturation lightness alpha

/-- A channel of linear light as a channel of a screen. -/
def gamma (x : Float32) : Float32 :=
  if 0.0031308 ≤ x then 1.055 * Float32.pow x (1 / 2.4) - 0.055 else 12.92 * x

/-- Lightness with the two opponent axes of Oklab. -/
def ofOklab (lightness a b alpha : Float32) : Color :=
  let cube := fun (x : Float32) => x * x * x
  let l := cube (lightness + 0.3963377774 * a + 0.2158037573 * b)
  let m := cube (lightness - 0.1055613458 * a - 0.0638541728 * b)
  let s := cube (lightness - 0.0894841775 * a - 1.2914855480 * b)
  ⟨gamma (4.0767416621 * l - 3.3077115913 * m + 0.2309699292 * s),
    gamma (-1.2684380046 * l + 2.6097574011 * m - 0.3413193965 * s),
    gamma (-0.0041960863 * l - 0.7034186147 * m + 1.7076147010 * s), alpha⟩

/-- The ratio of a circle to its diameter. -/
def pi32 : Float32 := 3.14159265358979323846

/-- Lightness, chroma and hue of Oklab; the hue is in degrees. -/
def ofOklch (lightness chroma hue alpha : Float32) : Color :=
  let angle := hue * (pi32 / 180)
  ofOklab lightness (chroma * angle.cos) (chroma * angle.sin) alpha

end PlantGrammar.Color
