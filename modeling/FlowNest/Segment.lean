import FlowNest.Graph

/-!
# FlowNest — segments of a connection

A connection may end at the boundary of a container, inside of which its data
goes on to a child. Seen as a whole it is then a chain of segments, one for each
scope that it passes through, from source to target; each two neighbours meet at
a port of a boundary.

The way down from an endpoint takes one hop for each container. Where ids are
not unique it can come back to an endpoint; the hop that does so is the last.

* `FlowGraph.descend`  — the hops down from an endpoint;
* `FlowGraph.segments` — the chain of a connection.
-/

namespace FlowNest

/-- The part of a connection that is seen in one scope. -/
structure Segment where
  id : String
  source : Endpoint
  target : Endpoint
  scope : ScopeId
  connection : String
deriving DecidableEq

def Segment.visibleIn (s : Segment) (scope : ScopeId) : Bool :=
  s.scope = scope

/-- A step over the boundary of a container, from its port to that of a child. -/
structure Hop where
  outer : Endpoint
  inner : Endpoint
deriving DecidableEq

namespace FlowGraph

/-- Where the boundary port at an endpoint leads, if there is one that does. -/
def step? (g : FlowGraph) (e : Endpoint) : Option Endpoint := do
  let c ← g.container? e.node
  let (child, port) ← c.resolve? e.port
  return ⟨child.id, port.id⟩

/-- The endpoints of all nodes. -/
def endpoints (g : FlowGraph) : List Endpoint :=
  g.allNodes.flatMap fun n => n.ports.map fun p => ⟨n.id, p.id⟩

/-- A hop leads to one of the endpoints in the mappings of the graph, of which there are finitely
many. -/
theorem mem_endpoints_of_step? {g : FlowGraph} {e next : Endpoint}
    (h : g.step? e = some next) : next ∈ g.endpoints := by
  simp only [step?, container?, Container.resolve?, Container.target?, Scope.node?,
    Option.bind_eq_bind, Option.bind_eq_some_iff, Option.pure_def, Option.some.injEq] at h
  obtain ⟨c, ⟨n, hn, hc⟩, -, ⟨p, -, m, -, child, hchild, port, hport, rfl⟩, rfl⟩ := h
  cases n with
  | code _ => cases hc
  | graph g' =>
    cases hc
    -- the child stands below a container that was found, so it is among all nodes
    have hgraph := Forest.mem_preorder_of_find? _ hn
    have hmem := Forest.mem_preorder_child (List.mem_of_find?_eq_some hchild) _ hgraph
    exact List.mem_flatMap.2 ⟨child, hmem,
      List.mem_map.2 ⟨port, Node.mem_ports_of_portNamed? hport, rfl⟩⟩

/-- A list has fewer members outside a larger set. -/
theorem length_filter_not_mem_cons_lt {α : Type} [DecidableEq α] {l visited : List α} {x : α}
    (hx : x ∈ l) (hnew : x ∉ visited) :
    (l.filter (· ∉ x :: visited)).length < (l.filter (· ∉ visited)).length := by
  have h : l.filter (· ∉ x :: visited) = (l.filter (· ∉ visited)).filter (· ≠ x) := by
    rw [List.filter_filter]
    refine List.filter_congr fun y _ => ?_
    by_cases hy : y = x <;> simp [hy]
  rw [h, List.length_filter_lt_length_iff_exists]
  exact ⟨x, List.mem_filter.2 ⟨hx, by simpa using hnew⟩, by simp⟩

/-- The hops down from an endpoint, past those visited on the way to it. -/
def descendFrom (g : FlowGraph) (visited : List Endpoint) (e : Endpoint) : List Hop :=
  match _h : g.step? e with
  | none => []
  | some next =>
    ⟨e, next⟩ :: if next ∈ visited then [] else g.descendFrom (next :: visited) next
termination_by (g.endpoints.filter (· ∉ visited)).length
decreasing_by exact length_filter_not_mem_cons_lt (mem_endpoints_of_step? ‹_›) ‹_›

/-- The hops down from an endpoint. -/
def descend (g : FlowGraph) (e : Endpoint) : List Hop :=
  g.descendFrom [e] e

/-- The chain of a connection, from its source to its target. -/
def segments (g : FlowGraph) (c : Connection) : List Segment :=
  -- data leaves the innermost scope first, so the way down to the source is reversed
  let up := (g.descend c.source).reverse.map fun hop =>
    (hop.inner, hop.outer, some hop.outer.node)
  let down := (g.descend c.target).map fun hop =>
    (hop.outer, hop.inner, some hop.outer.node)
  (up ++ (c.source, c.target, c.scope) :: down).mapIdx fun i (source, target, scope) =>
    { id := c.id ++ "#" ++ toString i, source, target, scope, connection := c.id }

end FlowGraph

end FlowNest
