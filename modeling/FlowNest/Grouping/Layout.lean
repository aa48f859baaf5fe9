import FlowNest.Node

/-!
# FlowNest — where grouped nodes go

A new container stands at the centroid of the nodes it takes in. Inside of it
they keep their places relative to each other, moved as a whole to the margin.
The arithmetic is that of the coordinates, from left to right, so it can leave
the canvas.
-/

namespace FlowNest

/-- The least of the numbers, the first of equal ones. -/
def least (vs : List Float) : Float :=
  vs.foldl (fun m v => if v < m then v else m) (1 / 0)

/-- The mean of the numbers; the sum of none is a negative zero. -/
def mean (vs : List Float) : Float :=
  vs.foldl (· + ·) (-0.0) / vs.length.toFloat

/-- The centroid of the nodes. -/
def centroid (nodes : List Node) : Except ConstructionError Position :=
  Position.of (mean (nodes.map (·.core.position.x))) (mean (nodes.map (·.core.position.y)))

/-- A margin that is not above zero, or not a number, counts as none. -/
def usableMargin (margin : Float) : Float :=
  if 0 < margin then margin else 0

/-- The nodes moved so that the least coordinates are at the margin. -/
def moveToMargin (margin : Float) (nodes : List Node) : Except ConstructionError (List Node) :=
  let left := least (nodes.map (·.core.position.x))
  let top := least (nodes.map (·.core.position.y))
  let margin := usableMargin margin
  nodes.mapM fun n => do
    let p ← Position.of (n.core.position.x - left + margin) (n.core.position.y - top + margin)
    return n.withPosition p

end FlowNest
