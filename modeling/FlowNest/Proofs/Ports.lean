import Mathlib.Data.List.Nodup
import Mathlib.Tactic.MkIffOfInductiveProp
import FlowNest.Grouping.Crossing
import FlowNest.Proofs.Descent
import FlowNest.Proofs.Freshness

/-!
# FlowNest — ports that are told apart

A node is *tidy* when its ports are its own, stand each among those of its
direction, and differ in their names and in their ids. Where all nodes are tidy,
looking a port up by its id and by its name and direction are the same thing
said twice, and a boundary whose two records of where it leads agree leads there:

* `Container.aim?_eq_some_iff`  — a mapping leads to the port of that name;
* `Container.lead?_of_faithful` — a faithful boundary leads to its inner ends;
* `Boundary.Faithful.add_bridge` — and stays so with a new port.
-/

namespace FlowNest

/-! ## Nodes -/

/-- The ports in the list of a direction. -/
def Node.portsOf (n : Node) : Direction → List Port
  | .input => n.inputPorts
  | .output => n.outputPorts

/-- A port is found by its name among those of its direction. -/
theorem Node.portNamed?_eq (n : Node) (name : String) (d : Direction) :
    n.portNamed? name d = (n.portsOf d).find? (·.name = name) := by
  cases d <;> rfl

/-- The ports of a node are those of either direction. -/
theorem Node.mem_ports_iff {n : Node} {p : Port} : p ∈ n.ports ↔ ∃ d, p ∈ n.portsOf d := by
  rw [ports, List.mem_append]
  constructor
  · rintro (h | h)
    · exact ⟨.input, h⟩
    · exact ⟨.output, h⟩
  · rintro ⟨_ | _, h⟩
    · exact .inl h
    · exact .inr h

/-- The ports of a node are its own, in their places and all different. -/
@[mk_iff]
structure Node.TidyPorts (n : Node) : Prop where
  owned : ∀ p ∈ n.ports, p.owner = n.id
  names : (n.ports.map (·.name)).Nodup
  ids : (n.ports.map (·.id)).Nodup
  inputs : ∀ p ∈ n.inputPorts, p.direction = .input
  outputs : ∀ p ∈ n.outputPorts, p.direction = .output

instance (n : Node) : Decidable n.TidyPorts :=
  decidable_of_iff' _ (Node.tidyPorts_iff n)

namespace Node.TidyPorts

variable {n m : Node}

/-- Only the shell of a node says whether it is tidy. -/
theorem of_shell (h : n.outline.shell = m.outline.shell) (hn : n.TidyPorts) : m.TidyPorts := by
  have hId : n.id = m.id := congrArg Outline.id h
  have hIn : n.inputPorts = m.inputPorts := congrArg Outline.inputs h
  have hOut : n.outputPorts = m.outputPorts := congrArg Outline.outputs h
  have hPorts : n.ports = m.ports := by rw [ports, ports, hIn, hOut]
  exact ⟨hPorts ▸ hId ▸ hn.owned, hPorts ▸ hn.names, hPorts ▸ hn.ids, hIn ▸ hn.inputs,
    hOut ▸ hn.outputs⟩

/-- Whether ports are tidy is decided by the outline. -/
theorem congr (h : n.outline = m.outline) (hn : n.TidyPorts) : m.TidyPorts :=
  hn.of_shell (congrArg Outline.shell h)

/-- With tidy ports, an id leads to the one port that has it. -/
theorem port?_eq_some_iff (hn : n.TidyPorts) {portId : String} {p : Port} :
    n.port? portId = some p ↔ p ∈ n.ports ∧ p.id = portId :=
  find?_key_eq_some_iff hn.ids

/-- With tidy ports, a name and a direction lead to the one port that has both. -/
theorem portNamed?_eq_some_iff (hn : n.TidyPorts) {name : String} {d : Direction} {p : Port} :
    n.portNamed? name d = some p ↔ p ∈ n.ports ∧ p.name = name ∧ p.direction = d := by
  have hNames := hn.names
  rw [ports, List.map_append, List.nodup_append] at hNames
  -- a port of the other direction is in the other list
  cases d with
  | input =>
    rw [portNamed?, find?_key_eq_some_iff hNames.1, ports, List.mem_append]
    constructor
    · rintro ⟨hMem, hName⟩
      exact ⟨.inl hMem, hName, hn.inputs p hMem⟩
    · rintro ⟨hMem | hMem, hName, hDirection⟩
      · exact ⟨hMem, hName⟩
      · rw [hn.outputs p hMem] at hDirection
        cases hDirection
  | output =>
    rw [portNamed?, find?_key_eq_some_iff hNames.2.1, ports, List.mem_append]
    constructor
    · rintro ⟨hMem, hName⟩
      exact ⟨.inr hMem, hName, hn.outputs p hMem⟩
    · rintro ⟨hMem | hMem, hName, hDirection⟩
      · rw [hn.inputs p hMem] at hDirection
        cases hDirection
      · exact ⟨hMem, hName⟩

end Node.TidyPorts

/-! ## Scopes -/

/-- A scope with different nodes, which are all tidy. -/
structure Scope.Tidy (s : Scope Node) : Prop where
  ids : (s.nodes.map (·.id)).Nodup
  ports : ∀ n ∈ s.nodes, n.TidyPorts

namespace Scope.Tidy

variable {s : Scope Node}

/-- In a tidy scope an id leads to the one node that has it. -/
theorem node?_eq_some_iff (hs : s.Tidy) {id : String} {n : Node} :
    s.node? id = some n ↔ n ∈ s.nodes ∧ n.id = id :=
  find?_key_eq_some_iff hs.ids

/-- In a tidy scope an endpoint leads to the one port that has its id, at the one node that has
its id. -/
theorem port?_eq_some_iff (hs : s.Tidy) {e : Endpoint} {p : Port} :
    s.port? e = some p ↔ ∃ n ∈ s.nodes, n.id = e.node ∧ p ∈ n.ports ∧ p.id = e.port := by
  rw [port?, Option.bind_eq_some_iff]
  constructor
  · rintro ⟨n, hn, hp⟩
    obtain ⟨hMem, hId⟩ := hs.node?_eq_some_iff.mp hn
    exact ⟨n, hMem, hId, (hs.ports n hMem).port?_eq_some_iff.mp hp⟩
  · rintro ⟨n, hMem, hId, hp⟩
    exact ⟨n, hs.node?_eq_some_iff.mpr ⟨hMem, hId⟩,
      (hs.ports n hMem).port?_eq_some_iff.mpr hp⟩

/-- A port refers to itself by its own endpoint. -/
theorem endpoint_of_port? (hs : s.Tidy) {e : Endpoint} {p : Port} (h : s.port? e = some p) :
    p.endpoint = e := by
  obtain ⟨n, hMem, hId, hp, hPort⟩ := hs.port?_eq_some_iff.mp h
  rw [Port.endpoint, (hs.ports n hMem).owned p hp, hId, hPort]

end Scope.Tidy

namespace FlowGraph

section Tidy

variable {g : FlowGraph} (hUnique : g.UniqueIds) (hPorts : ∀ n ∈ g.allNodes, n.TidyPorts)

include hUnique hPorts

/-- Where ids are unique and ports tidy the root is a tidy scope. -/
theorem tidy_root : g.root.Tidy where
  ids := hUnique.sublist ((Forest.sublist_preorder g.root.nodes).map _)
  ports n hn := hPorts n (Forest.mem_preorder_of_mem hn)

/-- Where ids are unique and ports tidy the inside of each container is a tidy scope. -/
theorem tidy_inside {c : Container Node} (hc : .graph c ∈ g.allNodes) : c.inside.Tidy where
  ids := (hUnique.inside hc).sublist ((Forest.sublist_preorder c.inside.nodes).map _)
  ports n hn := hPorts n (mem_allNodes_of_mem_inside hc hn)

/-- Where ids are unique and ports tidy all scopes are tidy. -/
theorem tidy_of_scope? {scope : ScopeId} {s : Scope Node} (h : g.scope? scope = some s) :
    s.Tidy := by
  cases scope with
  | none =>
    cases h
    exact tidy_root hUnique hPorts
  | some id =>
    obtain ⟨c, hc, rfl⟩ := Option.map_eq_some_iff.mp h
    exact tidy_inside hUnique hPorts ((container?_eq_some_iff hUnique).mp hc).1

end Tidy

end FlowGraph

namespace Container

variable {c : Container Node}

/-- What a mapping leads to is found by its own endpoint, and described by the
mapping. -/
theorem port?_of_target? (hc : c.inside.Tidy) {m : PortMapping} {d : Direction} {n : Node}
    {p : Port} (h : c.target? m d = some (n, p)) :
    c.inside.port? ⟨n.id, p.id⟩ = some p ∧ m = ⟨n.id, p.name⟩ ∧ p.direction = d := by
  obtain ⟨n', hn, h⟩ := Option.bind_eq_some_iff.mp h
  obtain ⟨p', hp, hPair⟩ := Option.bind_eq_some_iff.mp h
  cases hPair
  obtain ⟨hMem, hId⟩ := hc.node?_eq_some_iff.mp hn
  obtain ⟨hPort, hName, hDirection⟩ := (hc.ports n hMem).portNamed?_eq_some_iff.mp hp
  refine ⟨hc.port?_eq_some_iff.mpr ⟨n, hMem, rfl, hPort, rfl⟩, ?_, hDirection⟩
  rw [hId, hName]

/-- So is what a port of the boundary leads to. -/
theorem port?_of_resolve? (hc : c.inside.Tidy) {portId : String} {own : BoundaryPort} {n : Node}
    {p : Port} (hOwn : c.boundaryPort? portId = some own) (h : c.resolve? portId = some (n, p)) :
    c.inside.port? ⟨n.id, p.id⟩ = some p ∧ p.direction = own.port.direction := by
  rw [resolve?, hOwn, Option.bind_eq_bind, Option.bind_some] at h
  obtain ⟨m, -, hTarget⟩ := Option.bind_eq_some_iff.mp h
  obtain ⟨hPort, -, hDirection⟩ := port?_of_target? hc hTarget
  exact ⟨hPort, hDirection⟩

/-- In a tidy scope a mapping aims at the one port with its name and direction, at the child it
names. -/
theorem aim?_eq_some_iff (hc : c.inside.Tidy) {m : PortMapping} {d : Direction} {e : Endpoint} :
    c.aim? m d = some e ↔
      ∃ p, c.inside.port? e = some p ∧ m = ⟨e.node, p.name⟩ ∧ p.direction = d := by
  rw [aim?, Option.map_eq_some_iff]
  constructor
  · rintro ⟨⟨n, p⟩, hTarget, rfl⟩
    exact ⟨p, port?_of_target? hc hTarget⟩
  · rintro ⟨p, hp, rfl, hDirection⟩
    -- names are distinct on a tidy node for each direction, so the port is the one its name finds
    obtain ⟨n, hMem, hId, hPort, hPortId⟩ := hc.port?_eq_some_iff.mp hp
    refine ⟨(n, p), ?_, ?_⟩
    · rw [target?, hc.node?_eq_some_iff.mpr ⟨hMem, hId⟩]
      show (n.portNamed? p.name d).bind _ = _
      rw [(hc.ports n hMem).portNamed?_eq_some_iff.mpr ⟨hPort, rfl, hDirection⟩]
      rfl
    · show (⟨n.id, p.id⟩ : Endpoint) = e
      rw [hId, hPortId]

end Container

/-! ## Boundaries -/

namespace Boundary

/-- The ports of a boundary are those on either side. -/
theorem mem_ports_iff {b : Boundary} {p : BoundaryPort} : p ∈ b.ports ↔ ∃ d, p ∈ b.side d := by
  rw [ports, List.mem_append]
  constructor
  · rintro (h | h)
    · exact ⟨.input, h⟩
    · exact ⟨.output, h⟩
  · rintro ⟨_ | _, h⟩
    · exact .inl h
    · exact .inr h

/-- The port that serves an endpoint has it as its inner end. -/
theorem mem_of_portFor? {b : Boundary} {d : Direction} {e : Endpoint} {p : BoundaryPort}
    (h : b.portFor? d e = some p) : p ∈ b.ports ∧ p.inner = e := by
  have hSide : p ∈ b.side d := List.mem_of_find?_eq_some h
  have hInner : p.inner = e := by simpa using List.find?_some h
  exact ⟨mem_ports_iff.mpr ⟨d, hSide⟩, hInner⟩

/-- The two records of where the ports of a boundary lead agree: the inner end of
each refers to a port of the scope inside that it may stand for, its name is
mapped to that port, and no other names are mapped. -/
structure Faithful (b : Boundary) (s : Scope Node) : Prop where
  keys : ∀ name m, b.mappings[name]? = some m → name ∈ b.names
  leads : ∀ p ∈ b.ports, ∃ q, s.port? p.inner = some q ∧ q.direction = p.port.direction ∧
    q.dataType = p.port.dataType ∧ b.mappings[p.port.name]? = some ⟨p.inner.node, q.name⟩

/-- The ports of a boundary are made for the container `owner`. -/
structure Made (b : Boundary) (owner : String) : Prop where
  names : b.names.Nodup
  sides : ∀ d, ∀ p ∈ b.side d, p.port.direction = d
  owned : ∀ p ∈ b.ports, p.port.owner = owner ∧ p.port.id = Port.idOf owner p.port.name

/-- Whether a boundary is faithful is decided by the ports that the scope finds. -/
theorem Faithful.congr {b : Boundary} {s t : Scope Node} (h : s.port? = t.port?)
    (hb : b.Faithful s) : b.Faithful t where
  keys := hb.keys
  leads := h ▸ hb.leads

/-- A boundary without ports is faithful. -/
theorem faithful_empty (s : Scope Node) : Boundary.empty.Faithful s where
  keys := by simp [empty]
  leads := by simp [empty, ports]

/-- A boundary without ports is made for any container. -/
theorem made_empty (owner : String) : Boundary.empty.Made owner where
  names := by simp [names, empty, ports]
  sides := by intro d; cases d <;> simp [empty, side]
  owned := by simp [empty, ports]

/-! ## Adding a port -/

variable {b : Boundary}

/-- A port that is added stands last on its side. -/
theorem side_add (b : Boundary) (p : BoundaryPort) (portName : String) (d : Direction) :
    (b.add p portName).side d = if p.port.direction = d then b.side d ++ [p] else b.side d := by
  rw [add]
  cases p.port.direction <;> cases d <;> simp [side]

/-- A port that is added is mapped by its name. -/
theorem mappings_add (b : Boundary) (p : BoundaryPort) (portName : String) :
    (b.add p portName).mappings = b.mappings.insert p.port.name ⟨p.inner.node, portName⟩ := by
  rw [add]
  cases p.port.direction <;> rfl

/-- A port is added to those there are. -/
theorem perm_ports_add (b : Boundary) (p : BoundaryPort) (portName : String) :
    (b.add p portName).ports.Perm (p :: b.ports) := by
  rw [add, ports, ports]
  -- the port is added at the end of its side, the inputs standing before the outputs
  cases p.port.direction with
  | input =>
    show (b.inputs ++ [p] ++ b.outputs).Perm _
    rw [List.append_assoc]
    exact List.perm_middle
  | output =>
    show (b.inputs ++ (b.outputs ++ [p])).Perm _
    rw [← List.append_assoc]
    exact List.perm_append_singleton _ _

/-- A port is there afterwards if it was added, or before. -/
theorem mem_ports_add {p q : BoundaryPort} {portName : String} :
    q ∈ (b.add p portName).ports ↔ q = p ∨ q ∈ b.ports :=
  (perm_ports_add b p portName).mem_iff.trans List.mem_cons

/-- With a port its name is added. -/
theorem perm_names_add (b : Boundary) (p : BoundaryPort) (portName : String) :
    (b.add p portName).names.Perm (p.port.name :: b.names) :=
  (perm_ports_add b p portName).map _

/-- A name is there afterwards if it was added, or before. -/
theorem mem_names_add {p : BoundaryPort} {portName name : String} :
    name ∈ (b.add p portName).names ↔ name = p.port.name ∨ name ∈ b.names :=
  (perm_names_add b p portName).mem_iff.trans List.mem_cons

/-- What is known of a port made to bridge `inner` and `outer`. -/
theorem bridge_eq_ok {owner : String} {d : Direction} {q : Port} {inner outer : Endpoint}
    {p : BoundaryPort} (h : b.bridge owner d q inner outer = .ok p) :
    p.port = { Port.of owner (freshName b.names q.name) d q.dataType with required := q.required } ∧
      p.inner = inner := by
  rw [bridge, BoundaryPort.bridge] at h
  -- the direction says which end is the source, and by it the inner one is read off again
  cases d with
  | input =>
    obtain ⟨-, -, rfl⟩ := BoundaryPort.of_eq_ok_iff.mp h
    exact ⟨rfl, rfl⟩
  | output =>
    obtain ⟨-, -, rfl⟩ := BoundaryPort.of_eq_ok_iff.mp h
    exact ⟨rfl, rfl⟩

section Bridge

variable {owner : String} {d : Direction} {q : Port} {inner outer : Endpoint} {p : BoundaryPort}

/-- A new port has the name that is found for that of the port it bridges. -/
theorem name_of_bridge (h : b.bridge owner d q inner outer = .ok p) :
    p.port.name = freshName b.names q.name := by
  rw [(bridge_eq_ok h).1]
  rfl

/-- The name of a new port is a new name. -/
theorem name_not_mem_of_bridge (h : b.bridge owner d q inner outer = .ok p) :
    p.port.name ∉ b.names := by
  rw [name_of_bridge h]
  exact freshName_not_mem _ _

/-- A boundary stays made for its container when a bridge is added. -/
theorem Made.add_bridge (hb : b.Made owner) (h : b.bridge owner d q inner outer = .ok p) :
    (b.add p q.name).Made owner where
  names := by
    rw [(perm_names_add b p q.name).nodup_iff, List.nodup_cons]
    exact ⟨name_not_mem_of_bridge h, hb.names⟩
  sides := by
    intro d' p' hp'
    rw [side_add] at hp'
    split at hp'
    · next hd =>
      -- the new port stands last among those of its direction
      rcases List.mem_append.mp hp' with hp' | hp'
      · exact hb.sides d' p' hp'
      · rw [List.mem_singleton.mp hp', hd]
    · exact hb.sides d' p' hp'
  owned := by
    intro p' hp'
    rcases mem_ports_add.mp hp' with rfl | hp'
    · rw [(bridge_eq_ok h).1]
      exact ⟨rfl, rfl⟩
    · exact hb.owned p' hp'

/-- A boundary stays faithful when a bridge to a port in the scope is added, in the direction of
that port. -/
theorem Faithful.add_bridge {s : Scope Node} (hb : b.Faithful s)
    (h : b.bridge owner d q inner outer = .ok p) (hInner : s.port? inner = some q)
    (hDirection : q.direction = d) : (b.add p q.name).Faithful s where
  keys := by
    intro name m hm
    rw [mappings_add, Std.ExtTreeMap.getElem?_insert] at hm
    rw [mem_names_add]
    -- the key is that of the new mapping, or was there before
    split at hm
    · next hName => exact .inl (Std.LawfulEqOrd.eq_of_compare hName).symm
    · exact .inr (hb.keys name m hm)
  leads := by
    intro p' hp'
    rw [mappings_add, Std.ExtTreeMap.getElem?_insert]
    rcases mem_ports_add.mp hp' with rfl | hp'
    · obtain ⟨hPort, rfl⟩ := bridge_eq_ok h
      -- the new port is made in the image of the one it leads to
      refine ⟨q, hInner, ?_, ?_, by simp⟩
      · rw [hPort, hDirection]; rfl
      · rw [hPort]; rfl
    · -- the new name is none of the names mapped before
      have hOther : p'.port.name ≠ p.port.name := by
        intro hName
        exact name_not_mem_of_bridge h (hName ▸ List.mem_map_of_mem hp')
      obtain ⟨q', hq', hDirection', hType, hMapping⟩ := hb.leads p' hp'
      refine ⟨q', hq', hDirection', hType, ?_⟩
      rw [if_neg (by simpa using hOther.symm)]
      exact hMapping

end Bridge

end Boundary

/-! ## Containers with such boundaries -/

namespace Container

variable {c : Container Node}

/-- The ports of a container as a node are those of its boundary. -/
theorem ports_graph (c : Container Node) :
    (Node.graph c).ports = c.boundary.ports.map (·.port) := by
  rw [Node.ports, Boundary.ports, List.map_append]
  rfl

/-- A boundary that is made for its container has tidy ports. -/
theorem tidyPorts_of_made (h : c.boundary.Made c.core.id) : (Node.graph c).TidyPorts where
  owned := by
    intro p hp
    rw [ports_graph] at hp
    obtain ⟨p', hp', rfl⟩ := List.mem_map.mp hp
    exact (h.owned p' hp').1
  names := by
    rw [ports_graph, List.map_map]
    exact h.names
  ids := by
    -- the ids differ because the names do
    have hIds : (Node.graph c).ports.map (·.id) = c.boundary.names.map (Port.idOf c.core.id) := by
      rw [ports_graph, Boundary.names, List.map_map, List.map_map]
      exact List.map_congr_left fun p hp => (h.owned p hp).2
    rw [hIds]
    refine h.names.map ?_
    intro a b hab
    exact (String.append_right_inj _).mp hab
  inputs := by
    intro p hp
    obtain ⟨p', hp', rfl⟩ := List.mem_map.mp hp
    exact h.sides .input p' hp'
  outputs := by
    intro p hp
    obtain ⟨p', hp', rfl⟩ := List.mem_map.mp hp
    exact h.sides .output p' hp'

/-- The scope around a container sees the ports of its boundary. -/
theorem exists_own {s : Scope Node} (hs : s.Tidy) (hc : .graph c ∈ s.nodes) {e : Endpoint}
    {p : Port} (hNode : e.node = c.core.id) (hp : s.port? e = some p) :
    ∃ own ∈ c.boundary.ports, own.port = p ∧ e = ⟨c.core.id, own.port.id⟩ := by
  obtain ⟨n, hn, hId, hMem, hPortId⟩ := hs.port?_eq_some_iff.mp hp
  obtain rfl : n = .graph c := List.inj_on_of_nodup_map hs.ids hn hc (hId.trans hNode)
  rw [ports_graph] at hMem
  obtain ⟨own, hOwn, rfl⟩ := List.mem_map.mp hMem
  refine ⟨own, hOwn, rfl, ?_⟩
  rw [hPortId, ← hNode]

/-- Tidy ports have different names. -/
theorem names_nodup (hc : (Node.graph c).TidyPorts) : c.boundary.names.Nodup := by
  have hNames := hc.names
  rwa [ports_graph, List.map_map] at hNames

/-- The name of a boundary port is no other's. -/
theorem find?_named (hc : (Node.graph c).TidyPorts) {p : BoundaryPort}
    (hp : p ∈ c.boundary.ports) :
    c.boundary.ports.find? (·.port.name = p.port.name) = some p :=
  (find?_key_eq_some_iff (names_nodup hc)).mpr ⟨hp, rfl⟩

/-- With tidy ports, an id leads to the one boundary port that has it. -/
theorem boundaryPort?_eq_some_iff (hc : (Node.graph c).TidyPorts) {portId : String}
    {p : BoundaryPort} :
    c.boundaryPort? portId = some p ↔ p ∈ c.boundary.ports ∧ p.port.id = portId := by
  have hIds := hc.ids
  rw [ports_graph, List.map_map] at hIds
  exact find?_key_eq_some_iff hIds

/-- A faithful boundary leads from each port to its inner end. -/
theorem lead?_of_faithful (hc : (Node.graph c).TidyPorts) (hInside : c.inside.Tidy)
    (hFaithful : c.boundary.Faithful c.inside) {p : BoundaryPort} (hp : p ∈ c.boundary.ports) :
    c.lead? p.port.id = some p.inner := by
  obtain ⟨q, hq, hDirection, -, hMapping⟩ := hFaithful.leads p hp
  rw [lead?_eq, (boundaryPort?_eq_some_iff hc).mpr ⟨hp, rfl⟩, Option.bind_some, hMapping,
    Option.bind_some, aim?_eq_some_iff hInside]
  exact ⟨q, hq, rfl, hDirection⟩

/-- A container that is tidy inside, with a boundary that was made for it and leads
where it records. -/
structure Opens (c : Container Node) : Prop where
  inside : c.inside.Tidy
  made : c.boundary.Made c.core.id
  faithful : c.boundary.Faithful c.inside

/-- The port that serves an endpoint leads there. -/
theorem Opens.lead?_of_portFor? (hc : c.Opens) {d : Direction} {e : Endpoint} {p : BoundaryPort}
    (h : c.boundary.portFor? d e = some p) : c.lead? p.port.id = some e := by
  obtain ⟨hMem, rfl⟩ := Boundary.mem_of_portFor? h
  exact lead?_of_faithful (tidyPorts_of_made hc.made) hc.inside hc.faithful hMem

/-- What a port of a faithful boundary resolves to is at its inner end. -/
theorem resolve?_of_faithful (hc : (Node.graph c).TidyPorts) (hInside : c.inside.Tidy)
    (hFaithful : c.boundary.Faithful c.inside) {p : BoundaryPort} (hp : p ∈ c.boundary.ports) :
    ∃ n q, c.resolve? p.port.id = some (n, q) ∧ p.inner = ⟨n.id, q.id⟩ ∧
      c.inside.port? p.inner = some q ∧ q.direction = p.port.direction ∧
      q.dataType = p.port.dataType := by
  have hLead := lead?_of_faithful hc hInside hFaithful hp
  rw [lead?, Option.map_eq_some_iff] at hLead
  obtain ⟨⟨n, q⟩, hResolve, hEnd⟩ := hLead
  change (⟨n.id, q.id⟩ : Endpoint) = p.inner at hEnd
  obtain ⟨hPort, -⟩ := port?_of_resolve? hInside
    ((boundaryPort?_eq_some_iff hc).mpr ⟨hp, rfl⟩) hResolve
  rw [hEnd] at hPort
  -- both lookups of the inner end give the same port
  obtain ⟨q', hq', hDirection, hType, -⟩ := hFaithful.leads p hp
  rw [hPort] at hq'
  obtain rfl := Option.some.inj hq'
  exact ⟨n, q, hResolve, hEnd.symm, hPort, hDirection, hType⟩

end Container

end FlowNest
