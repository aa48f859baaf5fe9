import FlowNest.Grouping.Crossing

/-!
# FlowNest — the boundary around a grouping

When nodes are grouped inside a container, ports of its own boundary may lead to
the grouped nodes. They are led through the new container, which gets a port for
the purpose unless it has one already. Ungrouping leads them back to what the
container's ports lead to.

The ports are taken one after the other, inputs first, and each finds the
mappings as those before it have left them.
-/

namespace FlowNest

/-- Takes the ports of a list in turn, with a state that is passed along. -/
def passPorts {m : Type → Type} [Monad m] {σ : Type}
    (step : σ → BoundaryPort → m (σ × BoundaryPort)) :
    σ → List BoundaryPort → m (σ × List BoundaryPort)
  | s, [] => pure (s, [])
  | s, p :: rest => do
    let (s, p) ← step s p
    let (s, rest) ← passPorts step s rest
    return (s, p :: rest)

/-- The state of a rerouting: the boundary of the new container, and the mappings
of the enclosing one. -/
structure Rerouting where
  boundary : Boundary
  mappings : StringMap PortMapping

namespace Container

/-- The port of a container's boundary that leads to a child port in a direction,
and the boundary with it. A new one bridges to an endpoint outside. -/
def portTo (c : Container Node) (b : Boundary) (direction : Direction) (port : Port)
    (outer : Endpoint) : Except ConstructionError (Boundary × Port) :=
  match b.portFor? direction port.endpoint with
  -- a port built for a crossing serves here as well
  | some p => .ok (b, p.port)
  | none => do
    let p ← b.bridge c.core.id direction port port.endpoint outer
    return (b.add p port.name, p.port)

/-- Leads one port of the enclosing container `enclosing` through `c`, if it is
mapped to one of the nodes grouped in `c`. -/
def throughStep (enclosing : String) (c : Container Node) (ids : List String) (r : Rerouting)
    (p : BoundaryPort) : Except GroupingError (Rerouting × BoundaryPort) :=
  match r.mappings[p.port.name]? with
  | none => .ok (r, p)
  | some m =>
    -- a mapping to a node that stays, or to the container already, is left alone
    if m.child ∉ ids then .ok (r, p)
    else match c.target? m p.port.direction with
      | none =>
        .error (.incompatibleBoundary ⟨m.child, Port.idOf m.child m.portName⟩
          (.missingPort p.port.name p.port.direction))
      | some (_, port) =>
        match c.portTo r.boundary p.port.direction port ⟨enclosing, p.port.id⟩ with
        | .error cause => .error (.construction cause)
        | .ok (boundary, inner) =>
          .ok (⟨boundary, r.mappings.insert p.port.name ⟨c.core.id, inner.name⟩⟩,
            p.withInner ⟨c.core.id, inner.id⟩)

/-- Leads the ports of an enclosing container through a new container inside of
it: the new one's boundary, and the enclosing one's. -/
def routeThrough (enclosing c : Container Node) (ids : List String) :
    Except GroupingError (Container Node × Boundary) := do
  let step := c.throughStep enclosing.core.id ids
  let r : Rerouting := ⟨c.boundary, enclosing.boundary.mappings⟩
  let (r, inputs) ← passPorts step r enclosing.boundary.inputs
  let (r, outputs) ← passPorts step r enclosing.boundary.outputs
  return ({ c with boundary := r.boundary }, ⟨inputs, outputs, r.mappings⟩)

/-- Leads one port of an enclosing container around `c`, if it is mapped to a port
of `c` that leads further. -/
def aroundStep (c : Container Node) (mappings : StringMap PortMapping) (p : BoundaryPort) :
    StringMap PortMapping × BoundaryPort :=
  let further : Option (Node × Port) := do
    let m ← mappings[p.port.name]?
    if m.child = c.core.id then
      -- the mapping names a port, and ports are resolved by id
      let own ← c.boundary.ports.find? (·.port.name = m.portName)
      c.resolve? own.port.id
    else none
  match further with
  | none => (mappings, p)
  | some (child, port) =>
    (mappings.insert p.port.name ⟨child.id, port.name⟩, p.withInner ⟨child.id, port.id⟩)

/-- Leads the ports of an enclosing container around one inside of it. -/
def routeAround (enclosing c : Container Node) : Boundary :=
  let (mappings, inputs) := Id.run <| passPorts c.aroundStep enclosing.boundary.mappings
    enclosing.boundary.inputs
  let (mappings, outputs) := Id.run <| passPorts c.aroundStep mappings enclosing.boundary.outputs
  ⟨inputs, outputs, mappings⟩

end Container

end FlowNest
