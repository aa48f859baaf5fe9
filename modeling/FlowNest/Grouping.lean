import FlowNest.Graph
import FlowNest.Grouping.Enclosing
import FlowNest.Grouping.Layout
import FlowNest.Settings

/-!
# FlowNest — grouping and ungrouping

Grouping moves nodes of one scope into a new container that stands in their
place; ungrouping puts what is inside a container back into the scope around it.
Both keep every connection that crosses the container's boundary alive, and the
ports of an enclosing container that lead to the nodes involved.

The id of a new container is given by the caller, who makes it a fresh one.

* `Scope.group`, `Scope.collapse`   — the new container, and the scope with it;
* `Scope.expand`                    — the scope with a container's inside again;
* `FlowGraph.group`, `FlowGraph.ungroup` — both for a graph, at any depth.
-/

namespace FlowNest

namespace Scope

/-! ## Grouping in a scope -/

/-- A new container for the nodes with the ids. -/
def group (s : Scope Node) (ids : List String) (id name : String) (settings : Settings) :
    Except GroupingError (Container Node) := do
  let selected := s.nodes.filter (·.id ∈ ids)
  match selected with
  -- ids count once however often they are given
  | [] | [_] => throw (.tooFewNodes ids.eraseDups.length selected.length)
  | first :: _ =>
    let position ← (centroid selected).mapError .construction
    let children ← (moveToMargin settings.margin selected).mapError .construction
    let boundary ← s.boundary id ids
    let core := { NodeCore.of id name Container.kind position with
      parent := first.core.parent
      control := settings.control }
    let inner := s.connections.filter (·.relation ids = .inside)
    return { Container.of core ⟨children, inner.map (·.inScope (some id))⟩ with boundary }

/-- The nodes with a container in the place of the first of those grouped. -/
def collapseNodes (ids : List String) (c : Container Node) : List Node → List Node
  | [] => []
  | n :: rest =>
    -- the first selected node gives its place to the container, the others leave theirs
    if n.id ∈ ids then .graph c :: rest.filter (·.id ∉ ids)
    else n :: collapseNodes ids c rest

/-- An inner endpoint seen from outside: the port of the container that bridges
it, or itself if there is none. -/
def throughBoundary (c : Container Node) (direction : Direction) (e : Endpoint) : Endpoint :=
  match c.boundary.portFor? direction e with
  | some p => ⟨c.core.id, p.port.id⟩
  | none => e

/-- A connection of the scope after the grouping; `none` for one that has moved
inside. -/
def redirect? (ids : List String) (c : Container Node) (x : Connection) : Option Connection :=
  match x.relation ids with
  | .inside => none
  | .outside => some x
  | .leaving => some { x with source := throughBoundary c .output x.source }
  | .entering => some { x with target := throughBoundary c .input x.target }

/-- The scope with the nodes of the ids grouped in a container. -/
def collapse (s : Scope Node) (ids : List String) (c : Container Node) : Scope Node where
  nodes := collapseNodes ids c s.nodes
  connections := s.connections.filterMap (redirect? ids c)

/-! ## Ungrouping in a scope -/

/-- An endpoint at a container seen from inside; `none` if it leads nowhere. -/
def throughMapping? (c : Container Node) (e : Endpoint) : Option Endpoint :=
  if e.node = c.core.id then
    (c.resolve? e.port).map fun (child, port) => ⟨child.id, port.id⟩
  else some e

/-- A connection after the ungrouping; `none` for one that cannot be restored. -/
def restore? (c : Container Node) (x : Connection) : Option Connection := do
  let source ← throughMapping? c x.source
  let target ← throughMapping? c x.target
  return { x with source, target }

/-- The scope, which is `scope` in the graph, with what is inside a container in
the container's place. -/
def expand (s : Scope Node) (c : Container Node) (scope : ScopeId) : Scope Node where
  nodes := s.nodes.flatMap fun n =>
    if n.id = c.core.id then c.inside.nodes.map (·.withParent scope) else [n]
  connections := s.connections.filterMap (restore? c) ++
    c.inside.connections.map (·.inScope scope)

end Scope

/-! ## In a graph -/

namespace FlowGraph

/-- Groups the nodes with the ids, which stand in one scope, in a new container. -/
def group (g : FlowGraph) (ids : List String) (id name : String) (settings : Settings) :
    Except GroupingError FlowGraph := do
  match ids.filterMap g.scopeOf? with
  | [] => throw (.tooFewNodes ids.length 0)
  | scope :: rest =>
    if rest.any (· ≠ scope) then throw .mixedScopes
    match scope with
    | none =>
      let c ← g.root.group ids id name settings
      return { g with root := g.root.collapse ids c }
    | some outer =>
      let some enclosing := g.container? outer | throw (.nodeNotFound outer)
      let c ← enclosing.inside.group ids id name settings
      -- the new container may get more ports here, so the scope is collapsed afterwards
      let (c, boundary) ← enclosing.routeThrough c ids
      let inside := enclosing.inside.collapse ids c
      let some g := g.putContainer? { enclosing with boundary, inside }
        | throw (.nodeNotFound outer)
      return g

/-- Ungroups the container with the id. -/
def ungroup (g : FlowGraph) (id : String) : Except GroupingError FlowGraph := do
  let some node := g.find? id | throw (.nodeNotFound id)
  let some c := node.graph? | throw (.notAContainer id)
  let some scope := g.scopeOf? id | throw (.nodeNotFound id)
  match scope with
  | none => return { g with root := g.root.expand c none }
  | some outer =>
    let some enclosing := g.container? outer | throw (.nodeNotFound id)
    -- the enclosing ports are led past the container before it goes
    let boundary := enclosing.routeAround c
    let inside := enclosing.inside.expand c scope
    let some g := g.putContainer? { enclosing with boundary, inside } | throw (.nodeNotFound id)
    return g

end FlowGraph

end FlowNest
