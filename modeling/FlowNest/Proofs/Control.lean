import FlowNest.Controller
import FlowNest.Proofs.WellMade

/-!
# FlowNest — control changes nothing that is seen

A state or a configuration that is given to a node, and what is pushed down with
it, is written into the cores of nodes and touches neither ids and names nor
parents, boundaries and connections. So a graph *at rest*, with each node idle and
under standard control, is the same after it. Nodes then look the same from outside
and inside, and with them the whole graph.

* `Node.Alike`                     — two nodes that look the same, as do all below;
* `Forest.atRest_push`             — a push leaves nodes that are the same at rest;
* `Node.alike_of_atRest`           — and these look the same;
* `FlowGraph.WellMade.of_atRest`   — all such graphs are well-made, if one is.
-/

namespace FlowNest

/-- Two nodes that the scope around them sees as one, with the same outlines below. -/
structure Node.Alike (n m : Node) : Prop where
  face : n.face = m.face
  outlines : n.outlines = m.outlines

/-- The core differs from another in nothing that is seen. -/
structure NodeCore.Alike (a b : NodeCore) : Prop where
  id : a.id = b.id
  name : a.name = b.name
  kind : a.kind = b.kind
  parent : a.parent = b.parent

/-! ## Forests -/

namespace Forest

variable {nodes nodes' : List Node}

/-- Lists of nodes that are alike have the same faces. -/
theorem map_face_of_alike (h : List.Forall₂ Node.Alike nodes' nodes) :
    nodes'.map Node.face = nodes.map Node.face := by
  induction h with
  | nil => rfl
  | cons hAlike _ ih => rw [List.map_cons, List.map_cons, hAlike.face, ih]

/-- Lists of nodes that are alike have the same outlines, at every depth. -/
theorem outlines_of_alike (h : List.Forall₂ Node.Alike nodes' nodes) :
    Forest.outlines nodes' = Forest.outlines nodes := by
  rw [outlines_eq_flatMap, outlines_eq_flatMap]
  induction h with
  | nil => rfl
  | cons hAlike _ ih => rw [List.flatMap_cons, List.flatMap_cons, hAlike.outlines, ih]

end Forest

/-- Containers whose cores and children look the same do so themselves. -/
theorem Node.alike_graph {core core' : NodeCore} {boundary : Boundary} {nodes nodes' : List Node}
    {connections : List Connection} (hCore : core'.Alike core)
    (hNodes : List.Forall₂ Node.Alike nodes' nodes) :
    (Node.graph ⟨core', boundary, ⟨nodes', connections⟩⟩).Alike
      (.graph ⟨core, boundary, ⟨nodes, connections⟩⟩) := by
  obtain ⟨hId, hName, hKind, hParent⟩ := hCore
  -- a plan holds the faces of the children, and they are the same
  have hFaces := Forest.map_face_of_alike hNodes
  have hBelow := Forest.outlines_of_alike hNodes
  constructor
  · simp only [face, id, Node.core, inputPorts, outputPorts, hId, hParent]
  · have hOutline : (Node.graph ⟨core', boundary, ⟨nodes', connections⟩⟩).outline =
        (Node.graph ⟨core, boundary, ⟨nodes, connections⟩⟩).outline := by
      simp only [outline, plan?, id, Node.core, inputPorts, outputPorts, hId, hName, hKind, hFaces]
    rw [outlines, outlines, preorder_graph, preorder_graph, List.map_cons, List.map_cons, hOutline]
    exact congrArg (_ :: ·) hBelow

/-- Code nodes are alike if their cores are, and all else is the same. -/
theorem Node.alike_code {core : NodeCore} {c : CodeNode} (hCore : core.Alike c.core) :
    (Node.code { c with core }).Alike (.code c) := by
  obtain ⟨hId, hName, hKind, hParent⟩ := hCore
  constructor
  · simp only [face, id, Node.core, inputPorts, outputPorts, hId, hParent]
  · simp only [outlines, preorder, List.map_cons, List.map_nil, outline, plan?, id, Node.core,
      inputPorts, outputPorts, hId, hName, hKind]

/-! ## At rest -/

/-- The core of an idle node under standard control. -/
def NodeCore.atRest (core : NodeCore) : NodeCore :=
  { core with state := .idle, control := .standard }

mutual

/-- The node with its own core and all those below it at rest. -/
def Node.atRest : Node → Node
  | .code c => .code { c with core := c.core.atRest }
  | .graph ⟨core, boundary, ⟨nodes, connections⟩⟩ =>
    .graph ⟨core.atRest, boundary, ⟨Forest.atRest nodes, connections⟩⟩

def Forest.atRest : List Node → List Node
  | [] => []
  | n :: rest => n.atRest :: Forest.atRest rest

end

/-- A container is at rest when its core and all below it are. -/
theorem Node.atRest_graph (c : Container Node) :
    (Node.graph c).atRest =
      .graph ⟨c.core.atRest, c.boundary, ⟨Forest.atRest c.inside.nodes, c.inside.connections⟩⟩ := by
  obtain ⟨core, boundary, nodes, connections⟩ := c
  rfl

/-- Of a list of nodes, each is put at rest on its own. -/
theorem Forest.atRest_eq_map (nodes : List Node) : Forest.atRest nodes = nodes.map Node.atRest := by
  induction nodes with
  | nil => rfl
  | cons n rest ih => rw [Forest.atRest, ih, List.map_cons]

/-- A core at rest differs in state and settings alone. -/
theorem NodeCore.alike_atRest (core : NodeCore) : core.atRest.Alike core :=
  ⟨rfl, rfl, rfl, rfl⟩

mutual

/-- A node is alike to itself at rest. -/
theorem Node.alike_atRest : ∀ n : Node, n.atRest.Alike n
  | .code c => Node.alike_code c.core.alike_atRest
  | .graph ⟨core, _, ⟨nodes, _⟩⟩ => Node.alike_graph core.alike_atRest (Forest.alike_atRest nodes)

/-- Nodes are alike to themselves at rest, one by one. -/
theorem Forest.alike_atRest :
    ∀ nodes : List Node, List.Forall₂ Node.Alike (Forest.atRest nodes) nodes
  | [] => .nil
  | n :: rest => .cons n.alike_atRest (Forest.alike_atRest rest)

end

/-- Nodes that are the same at rest look the same. -/
theorem Node.alike_of_atRest {n m : Node} (h : n.atRest = m.atRest) : n.Alike m where
  face := by rw [← n.alike_atRest.face, h, m.alike_atRest.face]
  outlines := by rw [← n.alike_atRest.outlines, h, m.alike_atRest.outlines]

/-- Nodes that are the same at rest are alike, as both are alike to that. -/
theorem Forest.alike_of_atRest {nodes nodes' : List Node}
    (h : Forest.atRest nodes' = Forest.atRest nodes) : List.Forall₂ Node.Alike nodes' nodes := by
  rw [atRest_eq_map, atRest_eq_map, ← List.forall₂_eq_eq_eq, List.forall₂_map_left_iff,
    List.forall₂_map_right_iff] at h
  exact h.imp fun _ _ => Node.alike_of_atRest

/-! ## Pushes -/

/-- A core that is the same at rest leaves the node the same at rest. -/
theorem Node.atRest_withCore {n : Node} {core : NodeCore} (h : core.atRest = n.core.atRest) :
    (n.withCore core).atRest = n.atRest := by
  cases n with
  | code c => rw [withCore, atRest, atRest, h]; rfl
  | graph g => rw [withCore, atRest_graph, atRest_graph, h]; rfl

mutual

/-- A push that changes state and settings alone changes nothing at rest. -/
theorem Node.atRest_push {f : NodeCore → NodeCore} (hf : ∀ core, (f core).atRest = core.atRest) :
    ∀ n : Node, (n.push f).atRest = n.atRest
  | .code c => by rw [Node.push, Node.atRest, Node.atRest, hf]
  | .graph ⟨core, _, ⟨nodes, _⟩⟩ => by
    rw [Node.push, Node.atRest, Node.atRest, hf, Forest.atRest_push hf nodes]

/-- A push leaves the nodes of a forest as they are at rest, whether it reaches them or not. -/
theorem Forest.atRest_push {f : NodeCore → NodeCore} (hf : ∀ core, (f core).atRest = core.atRest) :
    ∀ nodes : List Node, Forest.atRest (Forest.push f nodes) = Forest.atRest nodes
  | [] => rfl
  | n :: rest => by
    rw [Forest.push, Forest.atRest, Forest.atRest, Forest.atRest_push hf rest]
    split
    -- an independent node is not reached
    · rfl
    · rw [Node.atRest_push hf n]

end

/-- The same holds of a push to what is below a node. -/
theorem Node.atRest_pushBelow {f : NodeCore → NodeCore} (hf : ∀ core, (f core).atRest = core.atRest)
    (n : Node) : (n.pushBelow f).atRest = n.atRest := by
  cases n with
  | code c => rfl
  | graph g => rw [pushBelow, atRest_graph, atRest_graph, Forest.atRest_push hf]

/-- A state that is set, and maybe pushed, is not seen at rest. -/
theorem Node.atRest_withState (n : Node) (state : ExecutionState) (propagate : Bool) :
    (n.withState state propagate).atRest = n.atRest := by
  have hOwn : (n.withCore { n.core with state }).atRest = n.atRest := atRest_withCore rfl
  rw [withState]
  cases propagate with
  | false => exact hOwn
  | true =>
    rw [if_pos rfl, atRest_pushBelow (by intro _; rfl), hOwn]

/-- Settings that are set, and maybe pushed, are not seen at rest. -/
theorem Node.atRest_withControl (n : Node) (control : ControlConfig) (propagate : Bool) :
    (n.withControl control propagate).atRest = n.atRest := by
  have hOwn : (n.withCore { n.core with control }).atRest = n.atRest := atRest_withCore rfl
  rw [withControl]
  cases propagate with
  | false => exact hOwn
  | true =>
    rw [if_pos rfl, atRest_pushBelow (by intro _; rfl), hOwn]

/-! ## Edits of one node -/

mutual

/-- An edit that is not seen at rest is not seen where one node of a tree is edited. -/
theorem Node.atRest_of_update? {id : String} {f : Node → Node}
    (hf : ∀ n, (f n).atRest = n.atRest) :
    ∀ {n n' : Node}, n.update? id f = some n' → n'.atRest = n.atRest
  | .code c, n', h => by
    obtain ⟨-, h⟩ := Option.ite_none_right_eq_some.mp h
    cases h
    exact hf _
  | .graph ⟨core, boundary, ⟨nodes, connections⟩⟩, n', h => by
    rw [Node.update?] at h
    -- the edited node looks the same at rest, and all around it stays
    split at h
    · cases h
      exact hf _
    · obtain ⟨nodes', hNodes, rfl⟩ := Option.map_eq_some_iff.mp h
      rw [Node.atRest, Node.atRest, Forest.atRest_of_update? hf hNodes]

/-- The way down to the node that is replaced is built anew, and is the same at rest. -/
theorem Forest.atRest_of_update? {id : String} {f : Node → Node}
    (hf : ∀ n, (f n).atRest = n.atRest) :
    ∀ {nodes nodes' : List Node}, Forest.update? id f nodes = some nodes' →
      Forest.atRest nodes' = Forest.atRest nodes
  | [], _, h => by cases h
  | n :: rest, nodes', h => by
    rw [Forest.update?] at h
    split at h
    · next n' hn =>
      cases h
      rw [Forest.atRest, Forest.atRest, Node.atRest_of_update? hf hn]
    · obtain ⟨rest', hRest, rfl⟩ := Option.map_eq_some_iff.mp h
      rw [Forest.atRest, Forest.atRest, Forest.atRest_of_update? hf hRest]

end

/-! ## Graphs -/

namespace FlowGraph

variable {g g' : FlowGraph} {id : String}

/-- The graph with all its nodes at rest. -/
def atRest (g : FlowGraph) : FlowGraph :=
  g.withNodes (Forest.atRest g.root.nodes)

/-- An edit that is not seen at rest is not seen where all roots are edited. -/
theorem atRest_mapRoots {f : Node → Node} (hf : ∀ n, (f n).atRest = n.atRest) (g : FlowGraph) :
    (g.mapRoots f).atRest = g.atRest := by
  have hNodes : Forest.atRest (g.root.nodes.map f) = Forest.atRest g.root.nodes := by
    rw [Forest.atRest_eq_map, Forest.atRest_eq_map, List.map_map]
    exact List.map_congr_left fun n _ => hf n
  exact congrArg g.withNodes hNodes

/-- An edit that is not seen at rest is not seen where one node of a graph is edited. -/
theorem atRest_of_edit {f : Node → Node} (hf : ∀ n, (f n).atRest = n.atRest)
    (h : g.edit id f = .ok g') : g'.atRest = g.atRest := by
  rw [edit, update?] at h
  cases hUpdate : Forest.update? id f g.root.nodes with
  | none =>
    rw [hUpdate] at h
    cases h
  | some nodes =>
    rw [hUpdate] at h
    cases h
    exact congrArg g.withNodes (Forest.atRest_of_update? hf hUpdate)

/-- A command for all nodes changes nothing at rest. -/
theorem atRest_withState (g : FlowGraph) (state : ExecutionState) :
    (g.withState state).atRest = g.atRest :=
  g.atRest_mapRoots fun n => n.atRest_withState state true

/-- Settings for all nodes change nothing at rest. -/
theorem atRest_withControl (g : FlowGraph) (control : ControlConfig) :
    (g.withControl control).atRest = g.atRest :=
  g.atRest_mapRoots fun n => n.atRest_withControl _ true

/-- A state for one node changes nothing at rest. -/
theorem atRest_of_setNodeState {state : ExecutionState} (h : g.setNodeState id state = .ok g') :
    g'.atRest = g.atRest :=
  atRest_of_edit (fun n => n.atRest_withState state true) h

/-- Settings for one node change nothing at rest. -/
theorem atRest_of_setNodeControl {control : ControlConfig}
    (h : g.setNodeControl id control = .ok g') : g'.atRest = g.atRest :=
  atRest_of_edit (fun n => n.atRest_withControl control true) h

/-- Graphs that are the same at rest have the same outlines. -/
theorem outlines_of_atRest (h : g'.atRest = g.atRest) : g'.outlines = g.outlines :=
  Forest.outlines_of_alike (Forest.alike_of_atRest (congrArg (·.root.nodes) h))

/-- A graph that is the same at rest as one that is well-made is so, too. -/
theorem WellMade.of_atRest (hg : g.WellMade) (h : g'.atRest = g.atRest) : g'.WellMade := by
  have hId : g'.atRest.id = g.atRest.id := by rw [h]
  have hName : g'.atRest.name = g.atRest.name := by rw [h]
  have hConnections : g'.atRest.root.connections = g.atRest.root.connections := by rw [h]
  have hNodes := Forest.alike_of_atRest (congrArg (·.root.nodes) h)
  exact hg.congr hId hName (outlines_of_atRest h) (Forest.map_face_of_alike hNodes) hConnections

end FlowGraph

end FlowNest
