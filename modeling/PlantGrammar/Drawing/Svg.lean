import PlantGrammar.Drawing.Canvas
import PlantGrammar.Numeric.Text

/-!
# Pictures in SVG

One filled path per shape, in the order of painting. Coordinates are written in
single precision, sizes and opacities in double precision, and the attributes of
an element in the order of their names.
-/

namespace PlantGrammar.Svg

open Numeric

/-- An attribute with a blank before it. -/
def field (name : String) (value : List Char) : List Char :=
  ' ' :: (name.toList ++ '=' :: '"' :: (value ++ ['"']))

/-- A point, behind the letter of its path command. -/
def vertex (letter : Char) (p : Point Float) : List Char :=
  letter :: (narrowChars p.x ++ ',' :: (narrowChars p.y ++ [' ']))

/-- The commands of a path around an outline: to the first point, on to each
further one, and closed. -/
def pathData (o : Outline Float) : List Char :=
  match o.points with
  | [] => ['z']
  | p :: ps => vertex 'M' p ++ ps.flatMap (vertex 'L') ++ ['z']

/-- The opacity of a shape, which is written where it is below one. -/
def opacity (alpha : Float) : List Char :=
  if alpha < 1 then field "fill-opacity" (floatChars alpha) else []

/-- The element of a shape. -/
def path (s : Shape Float) : List Char :=
  "<path".toList ++ field "d" (pathData s.outline) ++ field "fill" s.color.hexChars ++
    opacity s.alpha ++ field "stroke" "none".toList ++ "/>".toList

/-- The opening tag of a picture, without its end. -/
def heading (surface : Surface Float) : List Char :=
  let width := floatChars surface.width
  let height := floatChars surface.height
  "<svg".toList ++ field "height" height ++
    field "viewBox" ("0 0 ".toList ++ width ++ ' ' :: height) ++ field "width" width ++
    field "xmlns" "http://www.w3.org/2000/svg".toList

/-- The picture of some shapes. -/
def document (shapes : List (Shape Float)) (surface : Surface Float) : List Char :=
  match shapes with
  | [] => heading surface ++ "/>".toList
  | _ =>
    heading surface ++ '>' :: (shapes.flatMap fun shape => '\n' :: path shape) ++
      "\n</svg>".toList

end PlantGrammar.Svg
