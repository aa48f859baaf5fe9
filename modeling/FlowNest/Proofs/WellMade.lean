import FlowNest.Proofs.Rules

/-!
# FlowNest — well-made graphs

That a graph is *built* adds to the rules of validation what every graph made by
adding and editing has: ports in their lists, boundaries whose two records agree,
and connections that resolve. To be kept by edits this is best said of one node,
one scope and one container at a time, each by what the node or the container
shows in its outline; then it is called *well-made*.

* `FlowGraph.Built`           — the rules and what comes with them;
* `FlowGraph.built_iff`       — a graph is built when all its parts are well-made;
* `Container.WellMade.congr`  — outlines say whether a container is.
-/

namespace FlowNest

/-! ## Nodes, scopes and containers -/

/-- A node that keeps its own rules, with ports in their lists under ids. -/
structure Node.WellMade (n : Node) : Prop where
  proper : n.Proper
  sorts : n.SortsPorts
  portIds : ∀ p ∈ n.ports, Text.isBlank p.id = false

/-- The connection has an id, and leads from a port of the scope to one it feeds. -/
structure Scope.Links (s : Scope Node) (x : Connection) : Prop where
  id : Text.isBlank x.id = false
  ports : ∃ p q, s.port? x.source = some p ∧ s.port? x.target = some q ∧ p.feeds q = true

/-- The nodes of the scope have it as their parent, and its connections are linked. -/
structure Scope.WellMade (s : Scope Node) (scope : ScopeId) : Prop where
  parents : ∀ n ∈ s.nodes, n.core.parent = scope
  links : ∀ x ∈ s.connections, s.Links x

/-- A container that is not empty, well-made inside, and leads there by its boundary. -/
structure Container.WellMade (c : Container Node) : Prop where
  children : c.inside.nodes ≠ []
  inside : c.inside.WellMade (some c.core.id)
  faithful : c.boundary.Faithful c.inside

namespace Node.WellMade

variable {n m : Node}

theorem tidyPorts (h : n.WellMade) : n.TidyPorts :=
  h.proper.tidyPorts h.sorts

/-- Only the shell of a node says whether it is well-made. -/
theorem of_shell (h : n.outline.shell = m.outline.shell) (hn : n.WellMade) : m.WellMade := by
  have hId : n.id = m.id := congrArg Outline.id h
  have hName : n.core.name = m.core.name := congrArg Outline.name h
  have hKind : n.core.kind = m.core.kind := congrArg Outline.kind h
  have hIn : n.inputPorts = m.inputPorts := congrArg Outline.inputs h
  have hOut : n.outputPorts = m.outputPorts := congrArg Outline.outputs h
  have hPorts : n.ports = m.ports := by rw [ports, ports, hIn, hOut]
  have hTidy := hn.tidyPorts.of_shell h
  refine ⟨⟨hId ▸ hn.proper.id, hName ▸ hn.proper.name, hKind ▸ hn.proper.kind,
    hPorts ▸ hn.proper.ports, hTidy.owned, hTidy.names⟩,
    ⟨hTidy.inputs, hTidy.outputs, hTidy.ids⟩, hPorts ▸ hn.portIds⟩

end Node.WellMade

namespace Scope

variable {s t : Scope Node} {x : Connection}

/-- A connection that is in order between two ports is linked. -/
theorem Joins.links (h : s.Joins x) : s.Links x := by
  obtain ⟨p, q, hp, hq, hIssues⟩ := h
  obtain ⟨hAlone, -, -, hFeeds⟩ := Connection.issuesBetween_eq_nil_iff.mp hIssues
  obtain ⟨hFields, -⟩ := Connection.issues_eq_nil_iff.mp hAlone
  exact ⟨hFields (.id, x.id) List.mem_cons_self, p, q, hp, hq, hFeeds⟩

/-- An endpoint of a port has ids. -/
theorem isBlank_of_port? (hs : s.Tidy) (hNodes : ∀ n ∈ s.nodes, n.WellMade) {e : Endpoint}
    {p : Port} (hp : s.port? e = some p) :
    Text.isBlank e.node = false ∧ Text.isBlank e.port = false := by
  obtain ⟨n, hn, hId, hMem, hPort⟩ := hs.port?_eq_some_iff.mp hp
  exact ⟨hId ▸ (hNodes n hn).proper.id, hPort ▸ (hNodes n hn).portIds p hMem⟩

/-- Among well-made nodes a link breaks no rule. -/
theorem Links.joins (hs : s.Tidy) (hNodes : ∀ n ∈ s.nodes, n.WellMade) (h : s.Links x) :
    s.Joins x := by
  obtain ⟨p, q, hp, hq, hFeeds⟩ := h.ports
  obtain ⟨hSourceNode, hSourcePort⟩ := isBlank_of_port? hs hNodes hp
  obtain ⟨hTargetNode, hTargetPort⟩ := isBlank_of_port? hs hNodes hq
  -- the ids at both ends are those of nodes and ports
  have hFields : ∀ f ∈ x.fields, Text.isBlank f.2 = false := by
    intro f hf
    simp only [Connection.fields, List.mem_cons, List.not_mem_nil, or_false] at hf
    rcases hf with rfl | rfl | rfl | rfl | rfl
    · exact h.id
    · exact hSourceNode
    · exact hSourcePort
    · exact hTargetNode
    · exact hTargetPort
  have hApart : x.source ≠ x.target := by
    intro hSame
    -- one port would be an output and an input
    rw [hSame, hq] at hp
    cases hp
    obtain ⟨hOutput, hInput⟩ := Port.directions_of_feeds hFeeds
    rw [hInput] at hOutput
    cases hOutput
  refine ⟨p, q, hp, hq, Connection.issuesBetween_eq_nil_iff.mpr ⟨?_, ?_, ?_, hFeeds⟩⟩
  · exact Connection.issues_eq_nil_iff.mpr ⟨hFields, hApart⟩
  · exact hs.endpoint_of_port? hp
  · exact hs.endpoint_of_port? hq

theorem links_congr (h : s.port? = t.port?) (hx : s.Links x) : t.Links x :=
  ⟨hx.id, h ▸ hx.ports⟩

/-- The faces of the nodes say whether a scope is well-made. -/
theorem WellMade.congr {scope : ScopeId} (hFaces : s.nodes.map Node.face = t.nodes.map Node.face)
    (hConnections : s.connections = t.connections) (h : s.WellMade scope) : t.WellMade scope where
  parents := by
    intro n hn
    -- a parent is part of the face, so the same faces have the same parents
    have hFace : n.face ∈ s.nodes.map Node.face := by
      rw [hFaces]
      exact List.mem_map_of_mem hn
    obtain ⟨m, hm, hSame⟩ := List.mem_map.mp hFace
    have hParent : m.core.parent = n.core.parent := congrArg Face.parent hSame
    exact hParent ▸ h.parents m hm
  links := by
    rw [← hConnections]
    exact fun x hx => links_congr (port?_congr hFaces) (h.links x hx)

end Scope

namespace Container

variable {c k : Container Node}

/-- The outline of a container says whether it is well-made. -/
theorem WellMade.congr (h : (Node.graph c).outline = (Node.graph k).outline) (hc : c.WellMade) :
    k.WellMade := by
  have hId : c.core.id = k.core.id := congrArg Outline.id h
  have hPlan := Node.plan?_congr h
  simp only [Node.plan?, Option.some.injEq, Plan.mk.injEq] at hPlan
  obtain ⟨hBoundary, hFaces, hConnections⟩ := hPlan
  refine ⟨?_, hId ▸ hc.inside.congr hFaces hConnections, ?_⟩
  · intro hEmpty
    rw [hEmpty, List.map_nil, List.map_eq_nil_iff] at hFaces
    exact hc.children hFaces
  · exact hBoundary ▸ hc.faithful.congr (Scope.port?_congr hFaces)

/-- Each mapping of a faithful boundary leads to a child port. -/
theorem isSome_mapped? (hOwn : (Node.graph c).TidyPorts) (hInside : c.inside.Tidy)
    (hFaithful : c.boundary.Faithful c.inside) {name : String} {m : PortMapping}
    (hm : c.boundary.mappings[name]? = some m) : (c.mapped? name m).isSome := by
  -- the name is that of a port, which says where its mapping leads
  obtain ⟨p, hp, rfl⟩ := List.mem_map.mp (hFaithful.keys name m hm)
  obtain ⟨q, hq, hDirection, -, hMapping⟩ := hFaithful.leads p hp
  rw [hm] at hMapping
  obtain rfl := Option.some.inj hMapping
  obtain ⟨n, hn, hId, hMem, -⟩ := hInside.port?_eq_some_iff.mp hq
  have hFind := find?_named hOwn hp
  have hChild : c.inside.node? p.inner.node = some n := hInside.node?_eq_some_iff.mpr ⟨hn, hId⟩
  have hNamed : n.portNamed? q.name p.port.direction = some q :=
    (hInside.ports n hn).portNamed?_eq_some_iff.mpr ⟨hMem, rfl, hDirection⟩
  have hMapped : c.mapped? p.port.name ⟨p.inner.node, q.name⟩ = some q := by
    rw [mapped?, hChild]
    simp only [hFind]
    exact hNamed
  rw [hMapped]
  rfl

/-- A well-made container keeps the rules for containers. -/
theorem WellMade.sound (h : c.WellMade) (hOwn : (Node.graph c).TidyPorts) (hInside : c.inside.Tidy)
    (hNodes : ∀ n ∈ c.inside.nodes, n.WellMade) : c.Sound where
  children := h.children
  parents := h.inside.parents
  mappings _ _ hm := isSome_mapped? hOwn hInside h.faithful hm
  mapped := by
    intro p hp
    obtain ⟨q, -, -, -, hMapping⟩ := h.faithful.leads p hp
    rw [hMapping]
    rfl
  connections := by
    intro x hx
    obtain ⟨p, q, hp, hq, hIssues⟩ := (h.inside.links x hx).joins hInside hNodes
    -- a port that resolves is found on a node that is there
    obtain ⟨n, hn, -⟩ := Option.bind_eq_some_iff.mp hp
    obtain ⟨m, hm, -⟩ := Option.bind_eq_some_iff.mp hq
    refine ⟨by rw [hn]; rfl, by rw [hm]; rfl, ?_, ?_⟩
    · exact (Connection.issuesBetween_eq_nil_iff.mp hIssues).1
    · intro p' q' hp' hq'
      rw [hp] at hp'
      rw [hq] at hq'
      cases hp'
      cases hq'
      exact hIssues

theorem WellMade.resolves (h : c.WellMade) : c.Resolves := by
  intro x hx
  obtain ⟨p, q, hp, hq, -⟩ := (h.inside.links x hx).ports
  rw [hp, hq]
  exact ⟨rfl, rfl⟩

/-- Only names of ports are mapped, and each port records as its inner end the child
port that its name is mapped to, which has the port's type. -/
structure Records (c : Container Node) : Prop where
  keys : ∀ name m, c.boundary.mappings[name]? = some m → name ∈ c.boundary.names
  ends : ∀ p ∈ c.boundary.ports, ∀ n q, c.resolve? p.port.id = some (n, q) →
    p.inner = ⟨n.id, q.id⟩ ∧ p.port.dataType = q.dataType

theorem records_iff {c : Container Node} :
    c.Records ↔ (∀ entry ∈ c.boundary.mappings.toList, entry.1 ∈ c.boundary.names) ∧
      ∀ p ∈ c.boundary.ports, ∀ x ∈ c.resolve? p.port.id,
        p.inner = ⟨x.1.id, x.2.id⟩ ∧ p.port.dataType = x.2.dataType := by
  -- both sides ask the same of each entry, the right one over lists that can be run through
  constructor
  · intro h
    refine ⟨?_, fun p hp x hx => h.ends p hp x.1 x.2 hx⟩
    intro entry hEntry
    exact h.keys entry.1 entry.2 (Std.ExtTreeMap.mem_toList_iff_getElem?_eq_some.mp hEntry)
  · rintro ⟨hKeys, hEnds⟩
    refine ⟨?_, fun p hp n q hResolve => hEnds p hp (n, q) hResolve⟩
    intro name m hm
    exact hKeys (name, m) (Std.ExtTreeMap.mem_toList_iff_getElem?_eq_some.mpr hm)

instance (c : Container Node) : Decidable c.Records :=
  decidable_of_iff' _ records_iff

/-- Where mappings lead somewhere, boundaries that record this twice are faithful. -/
theorem Sound.faithful (h : c.Sound) (hOwn : (Node.graph c).TidyPorts) (hInside : c.inside.Tidy)
    (hRecords : c.Records) : c.boundary.Faithful c.inside where
  keys := hRecords.keys
  leads := by
    intro p hp
    -- validation makes sure that the port resolves to something
    have hFind := (boundaryPort?_eq_some_iff hOwn).mpr ⟨hp, rfl⟩
    obtain ⟨⟨n, q⟩, hResolve⟩ := Option.isSome_iff_exists.mp (h.isSome_resolve? hOwn hp)
    obtain ⟨hInner, hType⟩ := hRecords.ends p hp n q hResolve
    rw [resolve?, hFind, Option.bind_eq_bind, Option.bind_some] at hResolve
    obtain ⟨m, hm, hTarget⟩ := Option.bind_eq_some_iff.mp hResolve
    obtain ⟨hPort, rfl, hDirection⟩ := port?_of_target? hInside hTarget
    rw [hInner]
    exact ⟨q, hPort, hDirection, hType.symm, hm⟩

theorem records_of_faithful (hOwn : (Node.graph c).TidyPorts) (hInside : c.inside.Tidy)
    (hFaithful : c.boundary.Faithful c.inside) : c.Records where
  keys := hFaithful.keys
  ends := by
    intro p hp n q hResolve
    obtain ⟨n', q', hResolve', hInner, -, -, hType⟩ :=
      resolve?_of_faithful hOwn hInside hFaithful hp
    rw [hResolve] at hResolve'
    cases hResolve'
    exact ⟨hInner, hType.symm⟩

/-- Inside, connections that resolve are linked. -/
theorem Sound.links (h : c.Sound) (hResolves : c.Resolves) :
    ∀ x ∈ c.inside.connections, c.inside.Links x := by
  intro x hx
  obtain ⟨hSource, hTarget⟩ := hResolves x hx
  obtain ⟨p, hp⟩ := Option.isSome_iff_exists.mp hSource
  obtain ⟨q, hq⟩ := Option.isSome_iff_exists.mp hTarget
  have hIssues := (h.connections x hx).joins p q hp hq
  exact Scope.Joins.links ⟨p, q, hp, hq, hIssues⟩

theorem Sound.wellMade (h : c.Sound) (hFaithful : c.boundary.Faithful c.inside)
    (hResolves : c.Resolves) : c.WellMade where
  children := h.children
  inside := ⟨h.parents, h.links hResolves⟩
  faithful := hFaithful

end Container

/-! ## Graphs -/

namespace FlowGraph

variable {g k : FlowGraph}

/-- A valid graph with its ports in their lists under ids, boundaries that record where
they lead, and inner connections that resolve. -/
structure Built (g : FlowGraph) : Prop where
  valid : g.validate.success = true
  sorts : ∀ n ∈ g.allNodes, n.SortsPorts
  portIds : ∀ n ∈ g.allNodes, ∀ p ∈ n.ports, Text.isBlank p.id = false
  records : ∀ c : Container Node, .graph c ∈ g.allNodes → c.Records
  resolves : ∀ c : Container Node, .graph c ∈ g.allNodes → c.Resolves

/-- A graph all of whose parts are well-made. -/
structure WellMade (g : FlowGraph) : Prop where
  id : Text.isBlank g.id = false
  name : Text.isBlank g.name = false
  unique : g.UniqueIds
  scopes : ∀ x ∈ g.root.connections, x.scope = none
  root : g.root.WellMade none
  nodes : ∀ n ∈ g.allNodes, n.WellMade
  containers : ∀ c : Container Node, .graph c ∈ g.allNodes → c.WellMade

theorem WellMade.tidyPorts (h : g.WellMade) : ∀ n ∈ g.allNodes, n.TidyPorts :=
  fun n hn => (h.nodes n hn).tidyPorts

/-- The content of each scope is well-made. -/
theorem WellMade.scope (h : g.WellMade) {scope : ScopeId} {s : Scope Node}
    (hScope : g.scope? scope = some s) : s.WellMade scope := by
  cases scope with
  | none =>
    cases hScope
    exact h.root
  | some id =>
    obtain ⟨c, hc, rfl⟩ := Option.map_eq_some_iff.mp hScope
    obtain ⟨hMem, rfl⟩ := (container?_eq_some_iff h.unique).mp hc
    exact (h.containers c hMem).inside

theorem WellMade.sound (h : g.WellMade) : g.Sound where
  id := h.id
  name := h.name
  unique := h.unique
  parents := h.root.parents
  connections := by
    intro x hx
    -- ids are unique in a well-made graph, so each link joins the ports it names
    refine ⟨h.scopes x hx, (h.root.links x hx).joins (tidy_root h.unique h.tidyPorts) ?_⟩
    exact fun n hn => h.nodes n (Forest.mem_preorder_of_mem hn)
  nodes n hn := (h.nodes n hn).proper
  containers := by
    intro c hc
    refine (h.containers c hc).sound (h.tidyPorts _ hc) (tidy_inside h.unique h.tidyPorts hc) ?_
    exact fun n hn => h.nodes n (mem_allNodes_of_mem_inside hc hn)

/-- A graph is built when all its parts are well-made. -/
theorem built_iff : g.Built ↔ g.WellMade := by
  -- validity gives all but what the ports and mappings record, which the other clauses of `Built`
  -- add
  constructor
  · intro h
    have hSound := validate_success_iff.mp h.valid
    have hPorts := hSound.tidyPorts h.sorts
    refine ⟨hSound.id, hSound.name, hSound.unique, fun x hx => (hSound.connections x hx).1,
      ⟨hSound.parents, fun x hx => (hSound.connections x hx).2.links⟩, ?_, ?_⟩
    · exact fun n hn => ⟨hSound.nodes n hn, h.sorts n hn, h.portIds n hn⟩
    · intro c hc
      have hFaithful := (hSound.containers c hc).faithful (hPorts _ hc)
        (tidy_inside hSound.unique hPorts hc) (h.records c hc)
      exact (hSound.containers c hc).wellMade hFaithful (h.resolves c hc)
  · intro h
    refine ⟨validate_success_iff.mpr h.sound, fun n hn => (h.nodes n hn).sorts,
      fun n hn => (h.nodes n hn).portIds, ?_, fun c hc => (h.containers c hc).resolves⟩
    exact fun c hc => Container.records_of_faithful (h.tidyPorts _ hc)
      (tidy_inside h.unique h.tidyPorts hc) (h.containers c hc).faithful

theorem plant_built : plant.Built where
  valid := plant_valid
  sorts := plant_sortsPorts
  portIds := by decide +kernel
  records := forall_containers (by decide +kernel)
  resolves := forall_containers (by decide +kernel)

/-- What all containers of a graph show in their outlines tells whether all those of
another are well-made. -/
theorem wellMade_of_outline (h : ∀ c : Container Node, .graph c ∈ g.allNodes → c.WellMade)
    {c : Container Node} (hc : (Node.graph c).outline ∈ g.outlines) : c.WellMade := by
  obtain ⟨n, hn, hOutline⟩ := List.mem_map.mp hc
  cases n with
  | code _ =>
    have hPlan := Node.plan?_congr hOutline
    simp [Node.plan?] at hPlan
  | graph k => exact (h k hn).congr hOutline

/-- Two graphs that show the same are well-made both or not at all. -/
theorem WellMade.congr (h : g.WellMade) (hId : k.id = g.id) (hName : k.name = g.name)
    (hOutlines : k.outlines = g.outlines)
    (hFaces : k.root.nodes.map Node.face = g.root.nodes.map Node.face)
    (hConnections : k.root.connections = g.root.connections) : k.WellMade where
  id := hId ▸ h.id
  name := hName ▸ h.name
  unique := by
    rw [UniqueIds, ← map_id_outlines, hOutlines, map_id_outlines]
    exact h.unique
  scopes := hConnections ▸ h.scopes
  root := h.root.congr hFaces.symm hConnections.symm
  nodes := by
    intro n hn
    -- the outline says all of a node that the rules ask for
    have hMem : n.outline ∈ g.outlines := by
      rw [← hOutlines]
      exact List.mem_map_of_mem hn
    obtain ⟨m, hm, hSame⟩ := List.mem_map.mp hMem
    exact (h.nodes m hm).of_shell (congrArg Outline.shell hSame)
  containers := by
    intro c hc
    refine wellMade_of_outline h.containers ?_
    rw [← hOutlines]
    exact List.mem_map_of_mem hc

end FlowGraph

end FlowNest
