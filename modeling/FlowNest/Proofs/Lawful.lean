import FlowNest.Proofs.Rules

/-!
# FlowNest — lawful graphs

What it means that a graph keeps the rules, said without the functions that check
them: an endpoint *refers* to a port of a scope, a connection *fits* two ports, a
name *maps* to a port of a child. A graph is *lawful* when this is in order in its
root scope and, at every depth, for each node and inside of each container.

* `FlowGraph.Lawful`               — the rules, one field for each;
* `Container.isSome_mapped?_iff`   — the checked lookup of a mapping finds what the
  name maps to;
* `FlowGraph.success_iff_lawful`   — validation succeeds on the lawful graphs, and on
  no other.
-/

namespace FlowNest

/-! ## Connections -/

namespace Connection

/-- A connection that is in order by itself: no part of it is blank, and its two ends
are different. -/
structure Stands (x : Connection) : Prop where
  filled : ∀ text ∈ [x.id, x.source.node, x.source.port, x.target.node, x.target.port],
    Text.isBlank text = false
  apart : x.source ≠ x.target

/-- A connection that may lead from one port to another: it names both with their owners,
data leaves at the one and enters at the other, and the types go together. -/
structure Fits (x : Connection) (p q : Port) : Prop where
  stands : x.Stands
  source : x.source = ⟨p.owner, p.id⟩
  target : x.target = ⟨q.owner, q.id⟩
  output : p.direction = .output
  input : q.direction = .input
  types : p.dataType = .any ∨ q.dataType = .any ∨ p.dataType = q.dataType

variable {x : Connection} {p q : Port}

/-- A connection raises no issue by itself exactly when it stands. -/
theorem issues_eq_nil_iff_stands : x.issues = [] ↔ x.Stands := by
  rw [issues_eq_nil_iff]
  constructor
  · rintro ⟨hFields, hApart⟩
    refine ⟨?_, hApart⟩
    intro text hText
    -- the parts are those that the check goes through
    have hMem : text ∈ x.fields.map (·.2) := hText
    obtain ⟨f, hf, rfl⟩ := List.mem_map.mp hMem
    exact hFields f hf
  · intro h
    exact ⟨fun f hf => h.filled f.2 (List.mem_map_of_mem (f := (·.2)) hf), h.apart⟩

/-- An output feeds an input if the tags agree, or one of them is the wildcard. -/
theorem feeds_iff : p.feeds q = true ↔
    p.direction = .output ∧ q.direction = .input ∧
      (p.dataType = .any ∨ q.dataType = .any ∨ p.dataType = q.dataType) := by
  simp [Port.feeds, DataType.accepts, and_assoc, or_assoc]

/-- A connection raises no issue between two ports exactly when it fits them. -/
theorem issuesBetween_eq_nil_iff_fits : x.issuesBetween p q = [] ↔ x.Fits p q := by
  rw [issuesBetween_eq_nil_iff, issues_eq_nil_iff_stands, feeds_iff]
  constructor
  · rintro ⟨hStands, hSource, hTarget, hOutput, hInput, hTypes⟩
    exact ⟨hStands, hSource.symm, hTarget.symm, hOutput, hInput, hTypes⟩
  · intro h
    exact ⟨h.stands, h.source.symm, h.target.symm, h.output, h.input, h.types⟩

end Connection

/-! ## Scopes -/

namespace Scope

/-- The endpoint refers to the port: to the first under its id at a node of the scope. -/
def Refers (s : Scope Node) (e : Endpoint) (p : Port) : Prop :=
  ∃ n ∈ s.nodes, n.id = e.node ∧ n.port? e.port = some p

/-- A connection of the root leads from a port of the scope to another that it fits. -/
def Wires (s : Scope Node) (x : Connection) : Prop :=
  ∃ p q, s.Refers x.source p ∧ s.Refers x.target q ∧ x.Fits p q

/-- A connection inside of a container joins two nodes of the scope, and fits the ports
that both ends refer to, if they do. -/
structure Binds (s : Scope Node) (x : Connection) : Prop where
  source : ∃ n ∈ s.nodes, n.id = x.source.node
  target : ∃ n ∈ s.nodes, n.id = x.target.node
  stands : x.Stands
  fits : ∀ p q, s.Refers x.source p → s.Refers x.target q → x.Fits p q

variable {s : Scope Node}

/-- A scope finds an id exactly when one of its nodes has it. -/
theorem isSome_node?_iff {id : String} : (s.node? id).isSome ↔ ∃ n ∈ s.nodes, n.id = id := by
  rw [node?, List.find?_isSome]
  simp

/-- Among nodes of different ids an endpoint refers to what it is looked up as. -/
theorem port?_eq_some_iff_refers (hIds : (s.nodes.map (·.id)).Nodup) {e : Endpoint} {p : Port} :
    s.port? e = some p ↔ s.Refers e p := by
  rw [port?, Option.bind_eq_some_iff]
  constructor
  · rintro ⟨n, hn, hp⟩
    obtain ⟨hMem, hId⟩ := (find?_key_eq_some_iff hIds).mp hn
    exact ⟨n, hMem, hId, hp⟩
  · rintro ⟨n, hMem, hId, hp⟩
    exact ⟨n, (find?_key_eq_some_iff hIds).mpr ⟨hMem, hId⟩, hp⟩

/-- With unique ids, a scope joins the connections that it wires. -/
theorem joins_iff_wires (hIds : (s.nodes.map (·.id)).Nodup) {x : Connection} :
    s.Joins x ↔ s.Wires x := by
  simp only [Joins, Wires, port?_eq_some_iff_refers hIds,
    Connection.issuesBetween_eq_nil_iff_fits]

end Scope

/-! ## Containers -/

/-- A node finds a port by name and direction exactly when it has one. -/
theorem Node.isSome_portNamed?_iff {n : Node} {name : String} {d : Direction} :
    (n.portNamed? name d).isSome ↔ ∃ q ∈ n.portsOf d, q.name = name := by
  rw [portNamed?_eq, List.find?_isSome]
  simp only [decide_eq_true_eq]

namespace Container

/-- The mapping of a name leads to a port of a child. Where a port of the boundary has the
name, the child's is one for the same direction. -/
def Maps (c : Container Node) (name : String) (m : PortMapping) : Prop :=
  ∃ n ∈ c.inside.nodes, n.id = m.child ∧ ∃ q ∈ n.ports, q.name = m.portName ∧
    ∀ p ∈ c.boundary.ports, p.port.name = name → q ∈ n.portsOf p.port.direction

/-- A container that is not empty and not inside of itself, is the parent of its children,
maps names to their ports and each name of its boundary so, and binds children by its
connections. -/
structure Lawful (c : Container Node) : Prop where
  children : c.inside.nodes ≠ []
  apart : ∀ n ∈ Forest.preorder c.inside.nodes, n.id ≠ c.core.id
  parents : ∀ n ∈ c.inside.nodes, n.core.parent = some c.core.id
  maps : ∀ name m, c.boundary.mappings[name]? = some m → c.Maps name m
  mapped : ∀ p ∈ c.boundary.ports, ∃ m, c.boundary.mappings[p.port.name]? = some m
  connections : ∀ x ∈ c.inside.connections, c.inside.Binds x

variable {c : Container Node}

/-- The boundary ports of a proper container have different names. -/
theorem names_nodup_of_proper (h : (Node.graph c).Proper) :
    (c.boundary.ports.map (·.port.name)).Nodup := by
  have hNames := h.names
  rwa [ports_graph, List.map_map] at hNames

/-- A port that a child has under a name is looked for among those of the direction that
the boundary gives to the name. -/
theorem isSome_namedAt_iff (hNames : (c.boundary.ports.map (·.port.name)).Nodup) {name : String}
    {n : Node} {portName : String} :
    (match c.boundary.ports.find? fun p : BoundaryPort => p.port.name = name with
      | some p => n.portNamed? portName p.port.direction
      | none => n.ports.find? (·.name = portName)).isSome ↔
      ∃ q ∈ n.ports, q.name = portName ∧
        ∀ p ∈ c.boundary.ports, p.port.name = name → q ∈ n.portsOf p.port.direction := by
  cases hFind : c.boundary.ports.find? (·.port.name = name) with
  | none =>
    have hOther : ∀ p ∈ c.boundary.ports, p.port.name ≠ name := by
      simpa using List.find?_eq_none.mp hFind
    simp only [List.find?_isSome, decide_eq_true_eq]
    constructor
    · rintro ⟨q, hq, hName⟩
      exact ⟨q, hq, hName, fun p hp hSame => (hOther p hp hSame).elim⟩
    · rintro ⟨q, hq, hName, -⟩
      exact ⟨q, hq, hName⟩
  | some p =>
    obtain ⟨hp, rfl⟩ := (find?_key_eq_some_iff hNames).mp hFind
    simp only [Node.isSome_portNamed?_iff]
    constructor
    · rintro ⟨q, hq, hName⟩
      refine ⟨q, Node.mem_ports_iff.mpr ⟨_, hq⟩, hName, ?_⟩
      intro p' hp' hSame
      -- no other port of the boundary has the name
      obtain rfl := List.inj_on_of_nodup_map hNames hp' hp hSame
      exact hq
    · rintro ⟨q, -, hName, hSide⟩
      exact ⟨q, hSide p hp rfl, hName⟩

/-- The lookup of a mapping finds a port where the name maps to one. -/
theorem isSome_mapped?_iff (hIds : (c.inside.nodes.map (·.id)).Nodup)
    (hNames : (c.boundary.ports.map (·.port.name)).Nodup) {name : String} {m : PortMapping} :
    (c.mapped? name m).isSome ↔ c.Maps name m := by
  constructor
  · intro h
    obtain ⟨q, hq⟩ := Option.isSome_iff_exists.mp h
    obtain ⟨n, hn, hPort⟩ := Option.bind_eq_some_iff.mp hq
    obtain ⟨hMem, hId⟩ := (find?_key_eq_some_iff hIds).mp hn
    exact ⟨n, hMem, hId, (isSome_namedAt_iff hNames).mp (Option.isSome_of_eq_some hPort)⟩
  · rintro ⟨n, hMem, hId, hPort⟩
    -- ids are unique, so the child meant is the one a search finds
    have hn : c.inside.node? m.child = some n := (find?_key_eq_some_iff hIds).mpr ⟨hMem, hId⟩
    rw [mapped?, hn]
    exact (isSome_namedAt_iff hNames).mpr hPort

/-- With unique ids, a container keeps the connections that its inside binds. -/
theorem keeps_iff_binds (hIds : (c.inside.nodes.map (·.id)).Nodup) {x : Connection} :
    c.Keeps x ↔ c.inside.Binds x := by
  -- clause by clause, each lookup against what it finds
  constructor
  · intro h
    refine ⟨Scope.isSome_node?_iff.mp h.source, Scope.isSome_node?_iff.mp h.target,
      Connection.issues_eq_nil_iff_stands.mp h.alone, ?_⟩
    intro p q hp hq
    have hSource := (Scope.port?_eq_some_iff_refers hIds).mpr hp
    have hTarget := (Scope.port?_eq_some_iff_refers hIds).mpr hq
    exact Connection.issuesBetween_eq_nil_iff_fits.mp (h.joins p q hSource hTarget)
  · intro h
    refine ⟨Scope.isSome_node?_iff.mpr h.source, Scope.isSome_node?_iff.mpr h.target,
      Connection.issues_eq_nil_iff_stands.mpr h.stands, ?_⟩
    intro p q hp hq
    have hSource := (Scope.port?_eq_some_iff_refers hIds).mp hp
    have hTarget := (Scope.port?_eq_some_iff_refers hIds).mp hq
    exact Connection.issuesBetween_eq_nil_iff_fits.mpr (h.fits p q hSource hTarget)

/-- Where all ids below it are different, a container keeps its rules when it is lawful. -/
theorem lawful_iff (hIds : ((Forest.preorder c.inside.nodes).map (·.id)).Nodup)
    (hOwn : (Node.graph c).Proper) : c.Lawful ↔ c.core.id ∉ c.descendantIds ∧ c.Sound := by
  -- the lookups say what the laws say where ids and port names are unique
  have hInside := hIds.sublist ((Forest.sublist_preorder c.inside.nodes).map _)
  have hNames := names_nodup_of_proper hOwn
  constructor
  · intro h
    refine ⟨?_, h.children, h.parents, ?_, ?_, ?_⟩
    · intro hBelow
      obtain ⟨n, hn, hId⟩ := List.mem_map.mp hBelow
      exact h.apart n hn hId
    · exact fun name m hm => (isSome_mapped?_iff hInside hNames).mpr (h.maps name m hm)
    · exact fun p hp => Option.isSome_iff_exists.mpr (h.mapped p hp)
    · exact fun x hx => (keeps_iff_binds hInside).mpr (h.connections x hx)
  · rintro ⟨hApart, h⟩
    refine ⟨h.children, ?_, h.parents, ?_, ?_, ?_⟩
    · exact fun n hn hId => hApart (List.mem_map.mpr ⟨n, hn, hId⟩)
    · exact fun name m hm => (isSome_mapped?_iff hInside hNames).mp (h.mappings name m hm)
    · exact fun p hp => Option.isSome_iff_exists.mp (h.mapped p hp)
    · exact fun x hx => (keeps_iff_binds hInside).mp (h.connections x hx)

end Container

/-! ## Graphs -/

namespace FlowGraph

/-- A graph with an id and a name, whose nodes are told apart by their ids at all depths.
At its root nodes have no parent, and connections lead between their ports; each node at
any depth is proper, and each container lawful. -/
structure Lawful (g : FlowGraph) : Prop where
  id : Text.isBlank g.id = false
  name : Text.isBlank g.name = false
  unique : (g.allNodes.map (·.id)).Nodup
  parents : ∀ n ∈ g.root.nodes, n.core.parent = none
  connections : ∀ x ∈ g.root.connections, x.scope = none ∧ g.root.Wires x
  nodes : ∀ n ∈ g.allNodes, n.Proper
  containers : ∀ c, .graph c ∈ g.allNodes → c.Lawful

/-- A graph is sound, as the rules are checked, exactly when it is lawful, as they are stated. -/
theorem sound_iff_lawful {g : FlowGraph} : g.Sound ↔ g.Lawful := by
  -- both say first that ids are unique, and nodes proper
  have hRoot (hUnique : g.UniqueIds) : (g.root.nodes.map (·.id)).Nodup :=
    hUnique.sublist ((Forest.sublist_preorder g.root.nodes).map _)
  constructor
  · intro h
    refine ⟨h.id, h.name, h.unique, h.parents, ?_, h.nodes, ?_⟩
    · intro x hx
      obtain ⟨hScope, hJoins⟩ := h.connections x hx
      exact ⟨hScope, (Scope.joins_iff_wires (hRoot h.unique)).mp hJoins⟩
    · intro c hc
      rw [Container.lawful_iff (h.unique.inside hc) (h.nodes _ hc)]
      exact ⟨h.unique.not_mem_descendantIds hc, h.containers c hc⟩
  · intro h
    have hUnique : g.UniqueIds := h.unique
    refine ⟨h.id, h.name, hUnique, h.parents, ?_, h.nodes, ?_⟩
    · intro x hx
      obtain ⟨hScope, hWires⟩ := h.connections x hx
      exact ⟨hScope, (Scope.joins_iff_wires (hRoot hUnique)).mpr hWires⟩
    · intro c hc
      exact ((Container.lawful_iff (hUnique.inside hc) (h.nodes _ hc)).mp (h.containers c hc)).2

/-- Validation succeeds on the lawful graphs and on no other. -/
theorem success_iff_lawful (g : FlowGraph) : g.validate.success = true ↔ g.Lawful :=
  validate_success_iff.trans sound_iff_lawful

end FlowGraph

end FlowNest
