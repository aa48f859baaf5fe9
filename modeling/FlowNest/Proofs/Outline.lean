import FlowNest.Segment

/-!
# FlowNest — faces and outlines

A scope sees of the nodes in it only their *faces*: their ids, their parents and
their ports. What a container leads to, and whether it keeps the rules of a
container, depends only on its boundary, its connections and the faces of its
children; together with its own ids this is its *outline*. An edit deep inside a
graph leaves the outlines of all containers around it as they are, so whatever
is read from outlines survives the edit there.

* `Node.face`, `Node.outline` — the two views of a node;
* `Scope.port?_congr`         — ports are found by faces;
* `Node.lead?_congr`          — the way inwards is found by outlines.
-/

namespace FlowNest

/-! ## The two views -/

/-- What the scope around a node sees of it. -/
structure Face where
  id : String
  parent : Option String
  inputs : List Port
  outputs : List Port

/-- The inside of a container as the container itself sees it. -/
structure Plan where
  boundary : Boundary
  faces : List Face
  connections : List Connection

/-- A node without what the rules and the ways of data do not look at. -/
structure Outline where
  id : String
  name : String
  kind : String
  inputs : List Port
  outputs : List Port
  plan : Option Plan

/-- The outline of a node without its inside. -/
def Outline.shell (o : Outline) : Outline :=
  { o with plan := none }

namespace Face

def ports (f : Face) : List Port :=
  f.inputs ++ f.outputs

def port? (f : Face) (portId : String) : Option Port :=
  f.ports.find? (·.id = portId)

def portNamed? (f : Face) (name : String) : Direction → Option Port
  | .input => f.inputs.find? (·.name = name)
  | .output => f.outputs.find? (·.name = name)

end Face

namespace Node

def face (n : Node) : Face :=
  ⟨n.id, n.core.parent, n.inputPorts, n.outputPorts⟩

def plan? : Node → Option Plan
  | .code _ => none
  | .graph g => some ⟨g.boundary, g.inside.nodes.map face, g.inside.connections⟩

def outline (n : Node) : Outline :=
  ⟨n.id, n.core.name, n.core.kind, n.inputPorts, n.outputPorts, n.plan?⟩

@[simp] theorem id_face (n : Node) : n.face.id = n.id := rfl

/-- The face of a node shows its ports, by name and direction. -/
@[simp] theorem portNamed?_face (n : Node) (name : String) (d : Direction) :
    n.face.portNamed? name d = n.portNamed? name d := by
  cases d <;> rfl

@[simp] theorem id_outline (n : Node) : n.outline.id = n.id := rfl

/-- Nodes with the same outline have the same id. -/
theorem id_congr {n m : Node} (h : n.outline = m.outline) : n.id = m.id :=
  congrArg Outline.id h

/-- Nodes with the same outline have the same ports. -/
theorem ports_congr {n m : Node} (h : n.outline = m.outline) : n.ports = m.ports := by
  have hIn : n.inputPorts = m.inputPorts := congrArg Outline.inputs h
  have hOut : n.outputPorts = m.outputPorts := congrArg Outline.outputs h
  rw [ports, ports, hIn, hOut]

/-- Nodes with the same outline lead inwards in the same ways. -/
theorem plan?_congr {n m : Node} (h : n.outline = m.outline) : n.plan? = m.plan? :=
  congrArg Outline.plan h

/-- Of a core only id, name and kind are in the outline. -/
theorem outline_withCore {n : Node} {core : NodeCore} (hId : core.id = n.id)
    (hName : core.name = n.core.name) (hKind : core.kind = n.core.kind) :
    (n.withCore core).outline = n.outline := by
  cases n with
  | code c => simp_all [outline, plan?, withCore, id, Node.core, inputPorts, outputPorts]
  | graph g => simp_all [outline, plan?, withCore, id, Node.core, inputPorts, outputPorts]

@[simp] theorem outline_withParent (n : Node) (parent : Option String) :
    (n.withParent parent).outline = n.outline :=
  outline_withCore rfl rfl rfl

@[simp] theorem outline_withPosition (n : Node) (position : Position) :
    (n.withPosition position).outline = n.outline :=
  outline_withCore rfl rfl rfl

@[simp] theorem id_withParent (n : Node) (parent : Option String) :
    (n.withParent parent).id = n.id := by
  cases n <;> rfl

@[simp] theorem parent_withParent (n : Node) (parent : Option String) :
    (n.withParent parent).core.parent = parent := by
  cases n <;> rfl

end Node

/-! ## Looking into a scope -/

namespace Scope

/-- What a scope sees of a node it finds among the faces. -/
theorem node?_face (s : Scope Node) (id : String) :
    (s.node? id).map Node.face = (s.nodes.map Node.face).find? (·.id = id) := by
  rw [node?, List.find?_map]
  rfl

/-- A scope resolves an endpoint by the faces of its nodes, and by nothing else. -/
theorem port?_eq_face (s : Scope Node) (e : Endpoint) :
    s.port? e = ((s.nodes.map Node.face).find? (·.id = e.node)).bind (·.port? e.port) := by
  rw [← node?_face, Option.bind_map]
  rfl

/-- Ports are found by the faces of the nodes. -/
theorem port?_congr {s t : Scope Node} (h : s.nodes.map Node.face = t.nodes.map Node.face) :
    s.port? = t.port? := by
  funext e
  rw [port?_eq_face, port?_eq_face, h]

end Scope

/-! ## The way inwards -/

namespace Container

/-- The endpoint inside a container that one of its boundary ports leads to. -/
def lead? (g : Container Node) (portId : String) : Option Endpoint :=
  (g.resolve? portId).map fun (child, port) => ⟨child.id, port.id⟩

/-- The child port that a mapping leads to, as an endpoint. -/
def aim? (g : Container Node) (m : PortMapping) (d : Direction) : Option Endpoint :=
  (g.target? m d).map fun (child, port) => ⟨child.id, port.id⟩

/-- What a mapping aims at is decided by the faces of the children. -/
theorem aim?_eq_face (g : Container Node) (m : PortMapping) (d : Direction) :
    g.aim? m d = ((g.inside.nodes.map Node.face).find? (·.id = m.child)).bind fun f =>
      (f.portNamed? m.portName d).map fun port => ⟨f.id, port.id⟩ := by
  rw [← Scope.node?_face, aim?, target?]
  cases g.inside.node? m.child with
  | none => rfl
  | some child =>
    cases h : child.portNamed? m.portName d with
    | none => simp [h]
    | some port => simp [h]

/-- Mappings aim at the same where the children have the same faces. -/
theorem aim?_congr {g k : Container Node}
    (h : g.inside.nodes.map Node.face = k.inside.nodes.map Node.face) : g.aim? = k.aim? := by
  funext m d
  rw [aim?_eq_face, aim?_eq_face, h]

/-- A port of a container leads to what the mapping under its name aims at. -/
theorem lead?_eq (g : Container Node) (portId : String) :
    g.lead? portId = (g.boundaryPort? portId).bind fun p =>
      (g.boundary.mappings[p.port.name]?).bind fun m => g.aim? m p.port.direction := by
  rw [lead?, resolve?]
  cases g.boundaryPort? portId with
  | none => rfl
  | some p =>
    cases h : g.boundary.mappings[p.port.name]? with
    | none => simp [h]
    | some m => simp [h, aim?]

/-- A container leads to ports of its children only. -/
theorem exists_of_lead? {c : Container Node} {portId : String} {e : Endpoint}
    (h : c.lead? portId = some e) :
    ∃ n ∈ c.inside.nodes, n.id = e.node ∧ ∃ p ∈ n.ports, p.id = e.port := by
  obtain ⟨⟨n, p⟩, hResolve, rfl⟩ := Option.map_eq_some_iff.1 h
  simp only [resolve?, target?, Scope.node?, Option.bind_eq_bind,
    Option.bind_eq_some_iff, Option.pure_def, Option.some.injEq] at hResolve
  obtain ⟨own, -, m, -, n', hn', p', hp', hPair⟩ := hResolve
  cases hPair
  exact ⟨n, List.mem_of_find?_eq_some hn', rfl, p, Node.mem_ports_of_portNamed? hp', rfl⟩

end Container

namespace Node

def lead? : Node → String → Option Endpoint
  | .code _, _ => none
  | .graph g, portId => g.lead? portId

/-- Where a node leads to is read from its outline. -/
theorem lead?_congr {n m : Node} (h : n.outline = m.outline) : n.lead? = m.lead? := by
  have hPlan := plan?_congr h
  funext portId
  -- the plan tells a container from a code node
  cases n with
  | code c =>
    cases m with
    | code c' => rfl
    | graph g' => simp [plan?] at hPlan
  | graph g =>
    cases m with
    | code c' => simp [plan?] at hPlan
    | graph g' =>
      simp only [plan?, Option.some.injEq, Plan.mk.injEq] at hPlan
      obtain ⟨hBoundary, hFaces, -⟩ := hPlan
      show g.lead? portId = g'.lead? portId
      rw [Container.lead?_eq, Container.lead?_eq, Container.aim?_congr hFaces,
        Container.boundaryPort?, Container.boundaryPort?, hBoundary]

end Node

/-- A hop starts at the first node of the endpoint's id, and leads where that node leads. -/
theorem FlowGraph.step?_eq (g : FlowGraph) (e : Endpoint) :
    g.step? e = (g.find? e.node).bind (·.lead? e.port) := by
  rw [step?, container?]
  cases g.find? e.node with
  | none => rfl
  | some n =>
    cases n with
    | code c => rfl
    | graph c =>
      show (c.resolve? e.port).bind _ = (c.resolve? e.port).map _
      cases c.resolve? e.port <;> rfl

end FlowNest
