import FlowNest.ConstructionError
import FlowNest.Port
import FlowNest.Text.Blank

/-!
# FlowNest — boundary ports

A port on the boundary of a container passes data through: data comes from its
source end and goes to its target end. One of the two ends is inside the
container, at a child, and the other outside; which is which follows from the
direction.

* `BoundaryPort.of_eq_ok_iff` — a boundary port can be built from two ends
  exactly when no id is blank and the ends are at different nodes.
-/

namespace FlowNest

/-- A port of a container with the ends it bridges. -/
structure BoundaryPort where
  port : Port
  source : Endpoint
  target : Endpoint
deriving BEq

namespace BoundaryPort

/-- The parts of the two ends, in the order in which they are checked. -/
def fields (source target : Endpoint) : List (EndField × String) :=
  [(.sourceNode, source.node), (.sourcePort, source.port),
    (.targetNode, target.node), (.targetPort, target.port)]

/-- The port with these ends, unless one is blank or both are at one node. -/
def of (port : Port) (source target : Endpoint) : Except ConstructionError BoundaryPort :=
  match (fields source target).find? fun f => Text.isBlank f.2 with
  | some (field, _) => .error (.blankEndpoint port.name field)
  | none =>
    if source.node = target.node then .error (.selfBridge port.name source.node)
    else .ok ⟨port, source, target⟩

/-- The port between an end inside the container and one outside. -/
def bridge (port : Port) (inner outer : Endpoint) : Except ConstructionError BoundaryPort :=
  match port.direction with
  | .input => of port outer inner
  | .output => of port inner outer

/-- The end at a child of the container. -/
def inner (p : BoundaryPort) : Endpoint :=
  match p.port.direction with
  | .input => p.target
  | .output => p.source

/-- The end on the other side of the boundary. -/
def outer (p : BoundaryPort) : Endpoint :=
  match p.port.direction with
  | .input => p.source
  | .output => p.target

/-- The port with its inner end moved to another child port. -/
def withInner (p : BoundaryPort) (e : Endpoint) : BoundaryPort :=
  match p.port.direction with
  | .input => { p with target := e }
  | .output => { p with source := e }

/-! ## Both ends -/

/-- A boundary port is made exactly where no field is blank and the two ends are at different
nodes. -/
theorem of_eq_ok_iff {port : Port} {source target : Endpoint} {p : BoundaryPort} :
    of port source target = .ok p ↔
      (∀ f ∈ fields source target, Text.isBlank f.2 = false) ∧
        source.node ≠ target.node ∧ p = ⟨port, source, target⟩ := by
  unfold of
  split
  -- a blank part was found
  · next field text h =>
    have hblank := List.find?_some h
    have hmem := List.mem_of_find?_eq_some h
    constructor
    · intro h; cases h
    · rintro ⟨hall, -, -⟩
      have := hall _ hmem
      simp_all
  -- no part is blank
  · next h =>
    have hall : ∀ f ∈ fields source target, Text.isBlank f.2 = false := by
      simpa [List.find?_eq_none] using h
    split
    · next heq => simp [heq]
    · next hne =>
      constructor
      · intro h; cases h; exact ⟨hall, hne, rfl⟩
      · rintro ⟨-, -, rfl⟩; rfl

@[simp] theorem port_withInner (p : BoundaryPort) (e : Endpoint) :
    (p.withInner e).port = p.port := by
  unfold withInner; split <;> rfl

@[simp] theorem inner_withInner (p : BoundaryPort) (e : Endpoint) : (p.withInner e).inner = e := by
  obtain ⟨⟨_, _, direction, _⟩, _, _⟩ := p
  cases direction <;> rfl

@[simp] theorem outer_withInner (p : BoundaryPort) (e : Endpoint) :
    (p.withInner e).outer = p.outer := by
  obtain ⟨⟨_, _, direction, _⟩, _, _⟩ := p
  cases direction <;> rfl

end BoundaryPort

end FlowNest
