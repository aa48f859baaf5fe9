import Mathlib.Data.List.Nodup
import FlowNest.Validation
import FlowNest.Proofs.Ports

/-!
# FlowNest — what it means that validation finds nothing

Validation walks down a graph and gathers issues from many places. That it finds
none is a conjunction of rules, each about one node, one container or one
connection, wherever they stand:

* `Connection.issuesBetween_eq_nil_iff` — a connection joins two ports;
* `Node.ownIssues_eq_nil_iff`           — a node by itself is proper;
* `Container.issues_eq_nil_iff`         — a container is sound;
* `FlowGraph.issues_eq_nil_iff`         — a graph is sound, at every depth;
* `FlowGraph.Sound.tidyPorts`           — what it lacks for its nodes to be tidy.
-/

namespace FlowNest

/-! ## Connections -/

/-- Data flows from outputs to inputs. -/
theorem Port.directions_of_feeds {p q : Port} (h : p.feeds q = true) :
    p.direction = .output ∧ q.direction = .input := by
  simp only [feeds, Bool.and_eq_true, decide_eq_true_eq] at h
  exact h.1

namespace Connection

/-- A connection raises no issue by itself exactly when no field is blank and its two ends differ.
-/
theorem issues_eq_nil_iff {x : Connection} :
    x.issues = [] ↔ (∀ f ∈ x.fields, Text.isBlank f.2 = false) ∧ x.source ≠ x.target := by
  rw [issues, List.append_eq_nil_iff, List.flatMap_eq_nil_iff, flag_eq_nil]
  simp

/-- Between two ports a connection raises no issue exactly when it is one by itself, names them,
and the one feeds the other. -/
theorem issuesBetween_eq_nil_iff {x : Connection} {source target : Port} :
    x.issuesBetween source target = [] ↔
      x.issues = [] ∧ source.endpoint = x.source ∧ target.endpoint = x.target ∧
        source.feeds target = true := by
  simp only [issuesBetween, List.append_eq_nil_iff, flag_eq_nil]
  constructor
  · rintro ⟨⟨⟨⟨⟨hIssues, hSource⟩, hTarget⟩, -⟩, -⟩, hFeeds⟩
    exact ⟨hIssues, by simpa using hSource, by simpa using hTarget, by simpa using hFeeds⟩
  · rintro ⟨hIssues, hSource, hTarget, hFeeds⟩
    -- that one port feeds the other says what their directions are
    obtain ⟨hOutput, hInput⟩ := Port.directions_of_feeds hFeeds
    simp [hIssues, hSource, hTarget, hFeeds, hOutput, hInput]

end Connection

/-- The connection joins two ports of the scope that it may join. -/
def Scope.Joins (s : Scope Node) (x : Connection) : Prop :=
  ∃ source target, s.port? x.source = some source ∧ s.port? x.target = some target ∧
    x.issuesBetween source target = []

/-! ## Nodes -/

/-- Ports raise no issue exactly when the node owns them all and no name occurs twice. -/
theorem portIssues_eq_nil_iff {node : String} {seen : List String} {ports : List Port} :
    portIssues node seen ports = [] ↔
      (∀ p ∈ ports, p.owner = node) ∧ (ports.map (·.name)).Nodup ∧
        ∀ p ∈ ports, p.name ∉ seen := by
  induction ports generalizing seen with
  | nil => simp [portIssues]
  | cons p rest ih =>
    rw [portIssues, List.append_eq_nil_iff, List.append_eq_nil_iff, flag_eq_nil, flag_eq_nil, ih,
      not_not, List.forall_mem_cons, List.forall_mem_cons, List.map_cons, List.nodup_cons]
    constructor
    · rintro ⟨⟨hOwner, hSeen⟩, hOwners, hNames, hRest⟩
      refine ⟨⟨hOwner, hOwners⟩, ⟨?_, hNames⟩, hSeen, ?_⟩
      -- a later port of this name would have been flagged by the rest, which has seen it
      · intro hMem
        obtain ⟨q, hq, hName⟩ := List.mem_map.mp hMem
        exact hRest q hq (hName ▸ List.mem_cons_self)
      · intro q hq hMem
        exact hRest q hq (List.mem_cons_of_mem _ hMem)
    · rintro ⟨⟨hOwner, hOwners⟩, ⟨hNew, hNames⟩, hSeen, hRest⟩
      refine ⟨⟨hOwner, hSeen⟩, hOwners, hNames, ?_⟩
      intro q hq hMem
      rcases List.mem_cons.mp hMem with hName | hMem
      · exact hNew (hName ▸ List.mem_map_of_mem hq)
      · exact hRest q hq hMem

/-- A node with an id, a name and a kind, and with ports that are its own and are
told apart by their names. -/
structure Node.Proper (n : Node) : Prop where
  id : Text.isBlank n.id = false
  name : Text.isBlank n.core.name = false
  kind : Text.isBlank n.core.kind = false
  ports : n.ports ≠ []
  owned : ∀ p ∈ n.ports, p.owner = n.id
  names : (n.ports.map (·.name)).Nodup

/-- A node raises no issue of its own exactly when it is proper. -/
theorem Node.ownIssues_eq_nil_iff {n : Node} : n.ownIssues = [] ↔ n.Proper := by
  simp only [ownIssues, List.append_eq_nil_iff, flag_eq_nil, portIssues_eq_nil_iff,
    Bool.not_eq_true, List.isEmpty_eq_false_iff]
  constructor
  · rintro ⟨⟨⟨⟨hId, hName⟩, hKind⟩, hPorts⟩, hOwned, hNames, -⟩
    exact ⟨hId, hName, hKind, hPorts, hOwned, hNames⟩
  · intro h
    exact ⟨⟨⟨⟨h.id, h.name⟩, h.kind⟩, h.ports⟩, h.owned, h.names, by simp⟩

/-! ## Containers -/

namespace Container

/-- A child raises no issue exactly when it names the container as its parent. -/
theorem parentIssues_eq_nil_iff {c : Container Node} {n : Node} :
    c.parentIssues n = [] ↔ n.core.parent = some c.core.id := by
  rw [parentIssues]
  cases n.core.parent with
  | none => simp
  | some parent =>
    by_cases hParent : parent = c.core.id
    · simp [hParent]
    · by_cases hBelow : parent ∈ c.descendantIds <;> simp [hParent, hBelow]

/-- The child port of a mapping is found by the faces of the children. -/
theorem mapped?_eq_face (c : Container Node) (name : String) (m : PortMapping) :
    c.mapped? name m = ((c.inside.nodes.map Node.face).find? (·.id = m.child)).bind fun f =>
      match (c.boundary.ports.find? (·.port.name = name) : Option BoundaryPort) with
      | some p => f.portNamed? m.portName p.port.direction
      | none => f.ports.find? (·.name = m.portName) := by
  rw [← Scope.node?_face, Option.bind_map]
  refine Option.bind_congr fun child _ => ?_
  simp only [Function.comp_apply, Node.portNamed?_face]
  rfl

/-- Mappings raise no issue exactly when each leads to a port. -/
theorem mappingIssues_eq_nil_iff {c : Container Node} :
    c.mappingIssues = [] ↔
      ∀ name m, c.boundary.mappings[name]? = some m → (c.mapped? name m).isSome := by
  simp only [mappingIssues, List.flatMap_eq_nil_iff, flag_eq_nil, Prod.forall,
    Std.ExtTreeMap.mem_toList_iff_getElem?_eq_some, Bool.not_eq_true, Option.isNone_eq_false_iff]

/-- Boundary ports raise no issue exactly when each has a mapping. -/
theorem boundaryIssues_eq_nil_iff {c : Container Node} :
    c.boundaryIssues = [] ↔
      ∀ p ∈ c.boundary.ports, (c.boundary.mappings[p.port.name]?).isSome := by
  simp only [boundaryIssues, List.flatMap_eq_nil_iff, flag_eq_nil]
  simp [Std.ExtTreeMap.isSome_getElem?_eq_contains]

/-- A connection inside is in order: it joins two children, and the ports at its
ends where there are ports. -/
structure Keeps (c : Container Node) (x : Connection) : Prop where
  source : (c.inside.node? x.source.node).isSome
  target : (c.inside.node? x.target.node).isSome
  alone : x.issues = []
  joins : ∀ source target, c.inside.port? x.source = some source →
    c.inside.port? x.target = some target → x.issuesBetween source target = []

/-- A connection inside a container raises no issue exactly when the container keeps it. -/
theorem connectionIssues_eq_nil_iff {c : Container Node} {x : Connection} :
    c.connectionIssues x = [] ↔ c.Keeps x := by
  rw [connectionIssues, List.append_eq_nil_iff, flag_eq_nil, List.map_eq_nil_iff, not_or,
    Bool.not_eq_true, Bool.not_eq_true, Option.isNone_eq_false_iff, Option.isNone_eq_false_iff]
  constructor
  · rintro ⟨⟨hSource, hTarget⟩, hFound⟩
    -- an end that does not resolve is an issue by itself
    split at hFound
    · next source target hs ht =>
      -- the rules for the connection alone are a part of those for it between two ports
      split at hFound
      · next hAlone =>
        refine ⟨hSource, hTarget, List.isEmpty_iff.mp hAlone, ?_⟩
        intro source' target' hs' ht'
        rw [hs] at hs'
        rw [ht] at ht'
        cases hs'
        cases ht'
        exact hFound
      · next hAlone => simp [hFound] at hAlone
    -- without ports only the connection itself was checked
    · next hNone => exact ⟨hSource, hTarget, hFound, fun _ _ hs ht => (hNone _ _ hs ht).elim⟩
  · intro h
    refine ⟨⟨h.source, h.target⟩, ?_⟩
    split
    · next source target hs ht =>
      rw [if_pos (List.isEmpty_iff.mpr h.alone)]
      exact h.joins source target hs ht
    · exact h.alone

/-- A container that has children, is the parent of all of them, leads each port
of its boundary to a port of one, and has only connections that are in order. -/
structure Sound (c : Container Node) : Prop where
  children : c.inside.nodes ≠ []
  parents : ∀ n ∈ c.inside.nodes, n.core.parent = some c.core.id
  mappings : ∀ name m, c.boundary.mappings[name]? = some m → (c.mapped? name m).isSome
  mapped : ∀ p ∈ c.boundary.ports, (c.boundary.mappings[p.port.name]?).isSome
  connections : ∀ x ∈ c.inside.connections, c.Keeps x

/-- A container raises no issue of its own exactly when it is sound and does not contain itself.
-/
theorem issues_eq_nil_iff {c : Container Node} :
    c.issues = [] ↔ c.core.id ∉ c.descendantIds ∧ c.Sound := by
  simp only [issues, List.append_eq_nil_iff, flag_eq_nil, List.flatMap_eq_nil_iff,
    parentIssues_eq_nil_iff, mappingIssues_eq_nil_iff, boundaryIssues_eq_nil_iff,
    connectionIssues_eq_nil_iff, Bool.not_eq_true, List.isEmpty_eq_false_iff]
  constructor
  -- in the order in which a container is checked
  · rintro ⟨⟨⟨⟨⟨hChildren, hSelf⟩, hParents⟩, hMappings⟩, hMapped⟩, hConnections⟩
    exact ⟨hSelf, hChildren, hParents, hMappings, hMapped, hConnections⟩
  · rintro ⟨hSelf, h⟩
    exact ⟨⟨⟨⟨⟨h.children, hSelf⟩, h.parents⟩, h.mappings⟩, h.mapped⟩, h.connections⟩

end Container

/-! ## Trees -/

/-- A node that keeps the rules, without regard to those below it. -/
def Node.KeepsRules (n : Node) : Prop :=
  n.ownIssues = [] ∧ ∀ c, n = .graph c → c.issues = []

mutual

/-- A node raises no issue exactly when all nodes of its tree keep the rules. -/
theorem Node.issues_eq_nil_iff :
    ∀ n : Node, n.issues = [] ↔ ∀ m ∈ n.preorder, m.KeepsRules
  | .code c => by
    rw [Node.issues, Node.preorder, List.forall_mem_singleton, Node.KeepsRules]
    simp
  | .graph ⟨core, boundary, ⟨nodes, connections⟩⟩ => by
    rw [Node.issues, Node.preorder, List.append_eq_nil_iff, List.append_eq_nil_iff,
      List.forall_mem_cons, Forest.issues_eq_nil_iff .child nodes, Node.KeepsRules]
    simp

/-- A forest keeps the rules when each of its nodes does. -/
theorem Forest.issues_eq_nil_iff (place : String → Place) :
    ∀ nodes : List Node,
      Forest.issues place nodes = [] ↔ ∀ m ∈ Forest.preorder nodes, m.KeepsRules
  | [] => by simp [Forest.issues, Forest.preorder]
  | n :: rest => by
    rw [Forest.issues, Forest.preorder, List.append_eq_nil_iff, List.map_eq_nil_iff,
      List.forall_mem_append, Node.issues_eq_nil_iff n, Forest.issues_eq_nil_iff place rest]

end

/-! ## Graphs -/

/-- Ids raise no issue exactly when none occurs twice, or was seen before. -/
theorem duplicateIssues_eq_nil_iff {seen ids : List String} :
    duplicateIssues seen ids = [] ↔ ids.Nodup ∧ ∀ id ∈ ids, id ∉ seen := by
  induction ids generalizing seen with
  | nil => simp [duplicateIssues]
  | cons id rest ih =>
    rw [duplicateIssues, List.append_eq_nil_iff, flag_eq_nil, ih, List.nodup_cons,
      List.forall_mem_cons]
    constructor
    · rintro ⟨hSeen, hRest, hNew⟩
      refine ⟨⟨?_, hRest⟩, hSeen, ?_⟩
      -- a second occurrence would have been flagged by the rest, which has seen this one
      · intro hMem
        exact hNew id hMem List.mem_cons_self
      · intro other hOther hMem
        exact hNew other hOther (List.mem_cons_of_mem _ hMem)
    · rintro ⟨⟨hId, hRest⟩, hSeen, hNew⟩
      refine ⟨hSeen, hRest, ?_⟩
      intro other hOther hMem
      rcases List.mem_cons.mp hMem with rfl | hMem
      · exact hId hOther
      · exact hNew other hOther hMem

namespace FlowGraph

/-- A node at the root raises no issue exactly when it has no parent. -/
theorem rootParentIssues_eq_nil_iff {n : Node} :
    rootParentIssues n = [] ↔ n.core.parent = none := by
  rw [rootParentIssues]
  cases n.core.parent <;> simp

/-- A connection at the root raises no issue exactly when it names no scope and joins two ports
there. -/
theorem connectionIssues_eq_nil_iff {g : FlowGraph} {x : Connection} :
    g.connectionIssues x = [] ↔ x.scope = none ∧ g.root.Joins x := by
  rw [connectionIssues, List.append_eq_nil_iff, flag_eq_nil, Bool.not_eq_true,
    Option.isSome_eq_false_iff, Option.isNone_iff_eq_none]
  refine and_congr_right fun _ => ?_
  constructor
  · intro h
    -- an end that does not resolve is an issue by itself
    split at h
    · next source target hs ht => exact ⟨source, target, hs, ht, h⟩
    · simp at h
  · rintro ⟨source, target, hs, ht, h⟩
    rw [hs, ht]
    exact h

/-- A graph that keeps all rules. -/
structure Sound (g : FlowGraph) : Prop where
  id : Text.isBlank g.id = false
  name : Text.isBlank g.name = false
  unique : g.UniqueIds
  parents : ∀ n ∈ g.root.nodes, n.core.parent = none
  connections : ∀ x ∈ g.root.connections, x.scope = none ∧ g.root.Joins x
  nodes : ∀ n ∈ g.allNodes, n.Proper
  containers : ∀ c, .graph c ∈ g.allNodes → c.Sound

/-- A graph raises no issue exactly when it is sound. -/
theorem issues_eq_nil_iff {g : FlowGraph} : g.issues = [] ↔ g.Sound := by
  simp only [issues, List.append_eq_nil_iff, flag_eq_nil, List.flatMap_eq_nil_iff,
    rootParentIssues_eq_nil_iff, connectionIssues_eq_nil_iff, duplicateIssues_eq_nil_iff,
    Forest.issues_eq_nil_iff, Bool.not_eq_true]
  constructor
  · rintro ⟨⟨⟨⟨⟨hId, hName⟩, hUnique, -⟩, hParents⟩, hConnections⟩, hRules⟩
    refine ⟨hId, hName, hUnique, hParents, hConnections, ?_, ?_⟩
    · exact fun n hn => Node.ownIssues_eq_nil_iff.mp (hRules n hn).1
    · exact fun c hc => (Container.issues_eq_nil_iff.mp ((hRules _ hc).2 c rfl)).2
  · intro h
    refine ⟨⟨⟨⟨⟨h.id, h.name⟩, h.unique, by simp⟩, h.parents⟩, h.connections⟩, ?_⟩
    intro n hn
    refine ⟨Node.ownIssues_eq_nil_iff.mpr (h.nodes n hn), ?_⟩
    rintro c rfl
    -- that a container is not inside of itself follows from the ids being unique
    exact Container.issues_eq_nil_iff.mpr ⟨h.unique.not_mem_descendantIds hn, h.containers c hn⟩

/-- Validation succeeds exactly when the graph is sound. -/
theorem validate_success_iff {g : FlowGraph} : g.validate.success = true ↔ g.Sound := by
  rw [Report.success, validate, List.isEmpty_iff, issues_eq_nil_iff]

end FlowGraph

/-! ## What validation does not look at -/

/-- Each port of the node is in the list of its direction, and no two have one id. -/
@[mk_iff]
structure Node.SortsPorts (n : Node) : Prop where
  inputs : ∀ p ∈ n.inputPorts, p.direction = .input
  outputs : ∀ p ∈ n.outputPorts, p.direction = .output
  ids : (n.ports.map (·.id)).Nodup

instance (n : Node) : Decidable n.SortsPorts :=
  decidable_of_iff' _ (Node.sortsPorts_iff n)

/-- Both ends of each connection inside are at ports of children. -/
def Container.Resolves (c : Container Node) : Prop :=
  ∀ x ∈ c.inside.connections,
    (c.inside.port? x.source).isSome ∧ (c.inside.port? x.target).isSome

instance (c : Container Node) : Decidable c.Resolves :=
  inferInstanceAs (Decidable (∀ x ∈ c.inside.connections, _))

/-- The ports of a proper node are tidy if they are sorted by direction. -/
theorem Node.Proper.tidyPorts {n : Node} (hn : n.Proper) (hSorts : n.SortsPorts) : n.TidyPorts :=
  ⟨hn.owned, hn.names, hSorts.ids, hSorts.inputs, hSorts.outputs⟩

/-- In a sound graph all ports are tidy if they are sorted by direction. -/
theorem FlowGraph.Sound.tidyPorts {g : FlowGraph} (h : g.Sound)
    (hSorts : ∀ n ∈ g.allNodes, n.SortsPorts) : ∀ n ∈ g.allNodes, n.TidyPorts :=
  fun n hn => (h.nodes n hn).tidyPorts (hSorts n hn)

namespace Container

variable {c : Container Node}

/-- The mapping of a boundary port is aimed at a port in its own direction. -/
theorem Sound.isSome_target? (h : c.Sound) (hTidy : (Node.graph c).TidyPorts) {p : BoundaryPort}
    (hp : p ∈ c.boundary.ports) {m : PortMapping}
    (hm : c.boundary.mappings[p.port.name]? = some m) :
    (c.target? m p.port.direction).isSome := by
  have hFind := find?_named hTidy hp
  obtain ⟨q, hq⟩ := Option.isSome_iff_exists.mp (h.mappings _ _ hm)
  obtain ⟨child, hChild, hq⟩ := Option.bind_eq_some_iff.mp hq
  -- the rule for mappings asks for the direction of the boundary port, which is that of `p`
  simp only [hFind] at hq
  rw [target?, hChild]
  show ((child.portNamed? m.portName p.port.direction).bind _).isSome
  rw [hq]
  rfl

/-- In a sound container with tidy ports, the mapping of a boundary port aims at a port of its
direction. -/
theorem Sound.isSome_aim? (h : c.Sound) (hTidy : (Node.graph c).TidyPorts) {p : BoundaryPort}
    (hp : p ∈ c.boundary.ports) {m : PortMapping}
    (hm : c.boundary.mappings[p.port.name]? = some m) : (c.aim? m p.port.direction).isSome := by
  rw [aim?, Option.isSome_map]
  exact h.isSome_target? hTidy hp hm

/-- Each boundary port leads to a child port. -/
theorem Sound.isSome_resolve? (h : c.Sound) (hTidy : (Node.graph c).TidyPorts) {p : BoundaryPort}
    (hp : p ∈ c.boundary.ports) : (c.resolve? p.port.id).isSome := by
  obtain ⟨m, hm⟩ := Option.isSome_iff_exists.mp (h.mapped p hp)
  have hTarget := h.isSome_target? hTidy hp hm
  rw [resolve?, (boundaryPort?_eq_some_iff hTidy).mpr ⟨hp, rfl⟩]
  show ((c.boundary.mappings[p.port.name]?).bind _).isSome
  rw [hm]
  exact hTarget

end Container

namespace FlowGraph.Sound

variable {g : FlowGraph} {scope : ScopeId} {s : Scope Node} {id : String}

/-- Connections end at nodes of their scope. -/
theorem isSome_node? (h : g.Sound) (hScope : g.scope? scope = some s) {x : Connection}
    (hx : x ∈ s.connections) :
    (s.node? x.source.node).isSome ∧ (s.node? x.target.node).isSome := by
  -- the rule at the root asks for both ports, inside a container for both nodes only
  cases scope with
  | none =>
    cases hScope
    obtain ⟨-, source, target, hSource, hTarget, -⟩ := h.connections x hx
    obtain ⟨n, hn, -⟩ := Option.bind_eq_some_iff.mp hSource
    obtain ⟨m, hm, -⟩ := Option.bind_eq_some_iff.mp hTarget
    rw [hn, hm]
    exact ⟨rfl, rfl⟩
  | some outer =>
    obtain ⟨e, he, rfl⟩ := Option.map_eq_some_iff.mp hScope
    have hKeeps := (h.containers e ((container?_eq_some_iff h.unique).mp he).1).connections x hx
    exact ⟨hKeeps.source, hKeeps.target⟩

/-- In a valid graph whose inner connections resolve, all connections do. -/
theorem isSome_port? (h : g.Sound)
    (hResolves : ∀ e : Container Node, .graph e ∈ g.allNodes → e.Resolves)
    (hScope : g.scope? scope = some s) {x : Connection} (hx : x ∈ s.connections) :
    (s.port? x.source).isSome ∧ (s.port? x.target).isSome := by
  -- inside a container the rules do not ask for the ports, there `hResolves` does
  cases scope with
  | none =>
    cases hScope
    obtain ⟨-, source, target, hSource, hTarget, -⟩ := h.connections x hx
    rw [hSource, hTarget]
    exact ⟨rfl, rfl⟩
  | some id =>
    obtain ⟨e, he, rfl⟩ := Option.map_eq_some_iff.mp hScope
    exact hResolves e ((container?_eq_some_iff h.unique).mp he).1 x hx

/-- What a scope finds is not a container that is outside of it. -/
theorem ne_of_node? (hContent : ∀ n ∈ s.nodes, n.id ≠ id) {other : String}
    (hSome : (s.node? other).isSome) : other ≠ id := by
  obtain ⟨n, hn⟩ := Option.isSome_iff_exists.mp hSome
  rintro rfl
  have hId := List.find?_some hn
  rw [decide_eq_true_eq] at hId
  exact hContent n (List.mem_of_find?_eq_some hn) hId

/-- No connection ends at an id that no node has. -/
theorem ends_ne (h : g.Sound) (hNew : ∀ n ∈ g.allNodes, n.id ≠ id)
    (hScope : g.scope? scope = some s) {x : Connection} (hx : x ∈ s.connections) :
    x.source.node ≠ id ∧ x.target.node ≠ id := by
  have hContent : ∀ n ∈ s.nodes, n.id ≠ id := fun n hn => hNew n (mem_allNodes_of_scope? hScope hn)
  obtain ⟨hSource, hTarget⟩ := h.isSome_node? hScope hx
  exact ⟨ne_of_node? hContent hSource, ne_of_node? hContent hTarget⟩

/-- No mapping leads to an id that no node has. -/
theorem child_ne (h : g.Sound) (hNew : ∀ n ∈ g.allNodes, n.id ≠ id) {e : Container Node}
    (he : .graph e ∈ g.allNodes) {key : String} {m : PortMapping}
    (hm : e.boundary.mappings[key]? = some m) : m.child ≠ id := by
  obtain ⟨p, hp⟩ := Option.isSome_iff_exists.mp ((h.containers e he).mappings key m hm)
  obtain ⟨child, hChild, -⟩ := Option.bind_eq_some_iff.mp hp
  exact ne_of_node? (fun n hn => hNew n (mem_allNodes_of_mem_inside he hn))
    (Option.isSome_iff_exists.mpr ⟨child, hChild⟩)

/-- The nodes of a scope have it as their parent. -/
theorem parent_eq (h : g.Sound) (hScope : g.scope? scope = some s) :
    ∀ n ∈ s.nodes, n.core.parent = scope := by
  cases scope with
  | none =>
    cases hScope
    exact h.parents
  | some outer =>
    obtain ⟨e, he, rfl⟩ := Option.map_eq_some_iff.mp hScope
    obtain ⟨hMem, rfl⟩ := (container?_eq_some_iff h.unique).mp he
    exact (h.containers e hMem).parents

end FlowGraph.Sound

/-! ## A valid graph -/

namespace FlowGraph

/-- A code node with one input and one output. -/
def stage (id : String) (parent : Option String) : Node :=
  .code { CodeNode.of id id "Stage" .origin with
    core := { NodeCore.of id id "Stage" .origin with parent }
    inputs := [Port.of id "in" .input .any]
    outputs := [Port.of id "out" .output .any] }

/-- A connection from the output of one node to the input of another. -/
def wire (id a b : String) (scope : ScopeId) : Connection :=
  { Connection.of id ⟨a, Port.idOf a "out"⟩ ⟨b, Port.idOf b "in"⟩ with scope }

/-- Three stages in a row, of which the first and the last are led to from outside. -/
def line : Container Node where
  core := NodeCore.of "line" "Line" Container.kind .origin
  boundary :=
    { inputs := [⟨Port.of "line" "in" .input .any, ⟨"source", "source.out"⟩, ⟨"mill", "mill.in"⟩⟩]
      outputs := [⟨Port.of "line" "out" .output .any, ⟨"pack", "pack.out"⟩, ⟨"sink", "sink.in"⟩⟩]
      mappings := ((∅ : StringMap PortMapping).insert "in" ⟨"mill", "in"⟩).insert "out"
        ⟨"pack", "out"⟩ }
  inside :=
    { nodes := [stage "mill" (some "line"), stage "drill" (some "line"),
        stage "pack" (some "line")]
      connections := [wire "mill-drill" "mill" "drill" (some "line"),
        wire "drill-pack" "drill" "pack" (some "line")] }

/-- A graph to try theorems on: a line between a source and a sink. -/
def plant : FlowGraph :=
  { FlowGraph.of "plant" "Plant" "1" with
    root :=
      { nodes := [stage "source" none, .graph line, stage "sink" none]
        connections := [wire "source-line" "source" "line" none,
          wire "line-sink" "line" "sink" none] } }

/-- The plant is valid. -/
theorem plant_valid : plant.validate.success = true := by
  decide +kernel

/-- The ports of the plant are sorted by direction. -/
theorem plant_sortsPorts : ∀ n ∈ plant.allNodes, n.SortsPorts := by
  decide +kernel

end FlowGraph

end FlowNest
