import PlantGrammar.Geometry.Outline

/-!
# Bounding boxes

The box of an outline spans its points, the box of several outlines the boxes of
each. A non-number never widens a span that holds numbers.
-/

namespace PlantGrammar

/-- The part of an axis between two coordinates. -/
structure Span where
  low : Float
  high : Float
deriving Repr, Inhabited

namespace Span

/-- The span between two coordinates in either order. -/
def between (a b : Float) : Span := if a < b then ⟨a, b⟩ else ⟨b, a⟩

/-- Widens a span to reach a coordinate. -/
def reach (s : Span) (v : Float) : Span :=
  if s.high < v then { s with high := v }
  else if v < s.low then { s with low := v }
  else s

/-- The lesser of two numbers; a non-number yields to the other. -/
def least (a b : Float) : Float := if a.isNaN then b else if b < a then b else a

/-- The greater of two numbers; a non-number yields to the other. -/
def greatest (a b : Float) : Float := if a.isNaN then b else if a < b then b else a

/-- The span that covers two. -/
def join (s t : Span) : Span := between (least s.low t.low) (greatest s.high t.high)

/-- The span of a first coordinate and all that follow. -/
def cover (first : Float) (rest : List Float) : Span :=
  let s := rest.foldl reach ⟨first, first⟩
  between s.low s.high

end Span

/-- An upright rectangle. -/
structure Box where
  x : Span
  y : Span
deriving Repr, Inhabited

namespace Box

/-- The box of an outline; one without points has none. -/
def ofOutline? (o : Outline Float) : Option Box :=
  match o.points with
  | [] => none
  | p :: ps => some ⟨Span.cover p.x (ps.map (·.x)), Span.cover p.y (ps.map (·.y))⟩

/-- The box that covers two. -/
def join (a b : Box) : Box := ⟨a.x.join b.x, a.y.join b.y⟩

/-- The box that covers all outlines, joined from left to right. -/
def ofOutlines? (outlines : List (Outline Float)) : Option Box :=
  match outlines.filterMap ofOutline? with
  | [] => none
  | b :: bs => some (bs.foldl join b)

end Box

end PlantGrammar
