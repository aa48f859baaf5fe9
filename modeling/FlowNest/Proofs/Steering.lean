import FlowNest.Proofs.Control

/-!
# FlowNest — steering a graph

A graph under control is steered by operations: commands and configurations for all of
it, states and configurations for single nodes. They write states and control settings
and nothing else, so the graph *at rest*, with each node idle and under standard control,
is the same after any number of them. Validation and the segments of connections do not
read what they write.

No rule is needed for this. The graph may break all of them, and ids may repeat.

* `FlowGraph.issues_atRest`      — validation finds the same at rest;
* `FlowGraph.segments_congr`     — connections lead the same way where outlines are the same;
* `Controller.atRest_apply`      — an operation keeps the graph as it is at rest;
* `Controller.steer_keeps`       — so do all operations, one after the other.
-/

namespace FlowNest

/-! ## What validation reads -/

/-- The outline of a node is the first of those of its tree. -/
theorem Node.head?_outlines (n : Node) : n.outlines.head? = some n.outline := by
  cases n with
  | code c => rfl
  | graph g => rw [outlines, preorder_graph]; rfl

theorem Node.Alike.outline {n m : Node} (h : n.Alike m) : n.outline = m.outline := by
  have hHead := congrArg List.head? h.outlines
  rw [head?_outlines, head?_outlines] at hHead
  exact Option.some.inj hHead

/-- The rules for a node itself are about its outline. -/
theorem Node.ownIssues_congr {n m : Node} (h : n.outline = m.outline) :
    n.ownIssues = m.ownIssues := by
  have hId := id_congr h
  have hName : n.core.name = m.core.name := congrArg Outline.name h
  have hKind : n.core.kind = m.core.kind := congrArg Outline.kind h
  rw [ownIssues, ownIssues, hId, hName, hKind, ports_congr h]

namespace Container

variable {c k : Container Node}

theorem parentIssues_congr (hId : c.core.id = k.core.id)
    (hBelow : c.descendantIds = k.descendantIds) {n m : Node} (h : n.face = m.face) :
    c.parentIssues n = k.parentIssues m := by
  have hChild : n.id = m.id := congrArg Face.id h
  have hParent : n.core.parent = m.core.parent := congrArg Face.parent h
  rw [parentIssues, parentIssues, hId, hBelow, hChild, hParent]

theorem flatMap_parentIssues_congr (hId : c.core.id = k.core.id)
    (hBelow : c.descendantIds = k.descendantIds) {nodes nodes' : List Node}
    (h : List.Forall₂ Node.Alike nodes nodes') :
    nodes.flatMap c.parentIssues = nodes'.flatMap k.parentIssues := by
  induction h with
  | nil => rfl
  | cons hAlike _ ih =>
    rw [List.flatMap_cons, List.flatMap_cons, ih, parentIssues_congr hId hBelow hAlike.face]

/-- The rules for a connection inside are about the container's id and the faces of its
children. -/
theorem connectionIssues_congr (hId : c.core.id = k.core.id)
    (hFaces : c.inside.nodes.map Node.face = k.inside.nodes.map Node.face) :
    c.connectionIssues = k.connectionIssues := by
  have hNode : ∀ id, (c.inside.node? id).isNone = (k.inside.node? id).isNone := by
    intro id
    rw [← Option.isNone_map (f := Node.face), Scope.node?_face, hFaces, ← Scope.node?_face,
      Option.isNone_map]
  funext x
  simp only [connectionIssues, hNode, hId, Scope.port?_congr hFaces]

/-- The rules for a container are about its boundary, its connections and how its children
look. -/
theorem issues_of_alike (hId : c.core.id = k.core.id) (hBoundary : c.boundary = k.boundary)
    (hConnections : c.inside.connections = k.inside.connections)
    (hNodes : List.Forall₂ Node.Alike c.inside.nodes k.inside.nodes) : c.issues = k.issues := by
  -- the checks read faces, ids and connections, none of which steering changes
  have hFaces := Forest.map_face_of_alike hNodes
  have hBelow : c.descendantIds = k.descendantIds := by
    have h := congrArg (List.map Outline.id) (Forest.outlines_of_alike hNodes)
    rwa [Forest.outlines, Forest.outlines, List.map_map, List.map_map] at h
  have hEmpty : c.inside.nodes.isEmpty = k.inside.nodes.isEmpty := by
    rw [← List.isEmpty_map (f := Node.face), hFaces, List.isEmpty_map]
  have hMapped : c.mapped? = k.mapped? := by
    funext name m
    rw [mapped?_eq_face, mapped?_eq_face, hFaces, hBoundary]
  rw [issues, issues, mappingIssues, mappingIssues, boundaryIssues, boundaryIssues, hEmpty, hId,
    hBelow, flatMap_parentIssues_congr hId hBelow hNodes, hMapped, hBoundary, hConnections,
    connectionIssues_congr hId hFaces]

end Container

/-! ## At rest -/

mutual

theorem Node.issues_atRest : ∀ n : Node, n.atRest.issues = n.issues
  | .code c => Node.ownIssues_congr (Node.code c).alike_atRest.outline
  | .graph ⟨core, boundary, ⟨nodes, connections⟩⟩ => by
    have hOwn := Node.ownIssues_congr
      (Node.graph ⟨core, boundary, ⟨nodes, connections⟩⟩).alike_atRest.outline
    have hInside := Container.issues_of_alike
      (c := ⟨core.atRest, boundary, ⟨Forest.atRest nodes, connections⟩⟩)
      (k := ⟨core, boundary, ⟨nodes, connections⟩⟩) rfl rfl rfl (Forest.alike_atRest nodes)
    rw [Node.atRest] at hOwn ⊢
    rw [Node.issues, Node.issues, hOwn, hInside, Forest.issues_atRest .child nodes]

/-- Validation finds the same in nodes at rest. -/
theorem Forest.issues_atRest (place : String → Place) :
    ∀ nodes : List Node, Forest.issues place (Forest.atRest nodes) = Forest.issues place nodes
  | [] => rfl
  | n :: rest => by
    have hId : n.atRest.id = n.id := congrArg Face.id n.alike_atRest.face
    rw [Forest.atRest, Forest.issues, Forest.issues, Node.issues_atRest n,
      Forest.issues_atRest place rest, hId]

end

/-! ## Graphs -/

namespace FlowGraph

variable {g k : FlowGraph}

theorem rootParentIssues_congr {n m : Node} (h : n.face = m.face) :
    rootParentIssues n = rootParentIssues m := by
  have hId : n.id = m.id := congrArg Face.id h
  have hParent : n.core.parent = m.core.parent := congrArg Face.parent h
  rw [rootParentIssues, rootParentIssues, hId, hParent]

theorem issues_atRest (g : FlowGraph) : g.atRest.issues = g.issues := by
  -- a graph at rest is node by node like the one it came from
  have hRoot := Forest.alike_atRest g.root.nodes
  have hIds : g.atRest.allNodes.map (·.id) = g.allNodes.map (·.id) := by
    have hOutlines : g.atRest.outlines = g.outlines := Forest.outlines_of_alike hRoot
    rw [← map_id_outlines, ← map_id_outlines, hOutlines]
  have hParents : (Forest.atRest g.root.nodes).flatMap rootParentIssues =
      g.root.nodes.flatMap rootParentIssues := by
    rw [Forest.atRest_eq_map, List.flatMap_map]
    exact List.flatMap_congr fun n _ => rootParentIssues_congr n.alike_atRest.face
  have hConnections : g.atRest.connectionIssues = g.connectionIssues := by
    have hPort : g.atRest.root.port? = g.root.port? :=
      Scope.port?_congr (Forest.map_face_of_alike hRoot)
    funext x
    rw [connectionIssues, connectionIssues, hPort]
  have hNodes := Forest.issues_atRest .node g.root.nodes
  rw [issues, issues, hIds, hConnections]
  show _ ++ (Forest.atRest g.root.nodes).flatMap rootParentIssues ++ _ ++
    Forest.issues .node (Forest.atRest g.root.nodes) = _
  rw [hParents, hNodes]
  rfl

theorem find?_outline (g : FlowGraph) (id : String) :
    (g.find? id).map Node.outline = g.outlines.find? (·.id = id) := by
  rw [find?, Forest.find?_eq_preorder, outlines, Forest.outlines, List.find?_map]
  rfl

/-- The way inwards is found by outlines. -/
theorem step?_congr (h : g.outlines = k.outlines) : g.step? = k.step? := by
  funext e
  have hFind : (k.find? e.node).map Node.outline = (g.find? e.node).map Node.outline := by
    rw [find?_outline, find?_outline, h]
  rw [step?_eq, step?_eq]
  -- a node and its outline are found or missed together
  cases hg : g.find? e.node with
  | none =>
    rw [hg] at hFind
    rw [Option.map_eq_none_iff.mp hFind]
  | some n =>
    rw [hg] at hFind
    obtain ⟨m, hm, hOutline⟩ := Option.map_eq_some_iff.mp hFind
    rw [hm]
    exact congrFun (Node.lead?_congr hOutline.symm) e.port

/-- Graphs with the same steps inwards have the same ways, whatever their ids. -/
theorem descendFrom_eq_of_step? (h : g.step? = k.step?) (visited : List Endpoint) (e : Endpoint) :
    g.descendFrom visited e = k.descendFrom visited e := by
  fun_induction descendFrom g visited e with
  | case1 visited e hStop =>
    rw [h] at hStop
    rw [descendFrom_of_stop hStop]
  | case2 visited e next hStep ih =>
    rw [h] at hStep
    rw [descendFrom_of_step? hStep]
    -- both ways are cut at the same endpoint, or go on
    split
    · rfl
    · next hNew => rw [ih hNew]

theorem segments_congr (h : g.outlines = k.outlines) (x : Connection) :
    g.segments x = k.segments x := by
  have hStep := step?_congr h
  rw [segments, segments, descend, descend, descend, descend, descendFrom_eq_of_step? hStep,
    descendFrom_eq_of_step? hStep]

/-- What validation finds in a graph is found in it at rest. -/
theorem validate_of_atRest (h : k.atRest = g.atRest) : k.validate = g.validate := by
  rw [validate, validate, ← k.issues_atRest, h, g.issues_atRest]

end FlowGraph

/-! ## Operations -/

/-- An operation of a controller. -/
inductive Operation where
  | command (command : Command)
  | control (control : ControlConfig)
  | nodeState (id : String) (state : ExecutionState)
  | nodeControl (id : String) (control : ControlConfig)

namespace Controller

variable {ρ : Type} [RuntimeRegistry ρ]

/-- The controller after an operation. One for a node that is not there fails and leaves
the graph as it is. -/
def apply (c : Controller ρ) : Operation → Controller ρ
  | .command command => c.command command
  | .control control => { c with graph := c.graph.withControl control }
  | .nodeState id state =>
    { c with graph := (c.graph.setNodeState id state).toOption.getD c.graph }
  | .nodeControl id control =>
    { c with graph := (c.graph.setNodeControl id control).toOption.getD c.graph }

/-- The controller after all the operations, one after the other. -/
def steer (c : Controller ρ) (operations : List Operation) : Controller ρ :=
  operations.foldl apply c

/-- An edit of one node leaves the graph at rest if it does so where it succeeds. -/
theorem atRest_of_toOption {g : FlowGraph} {edited : Except ControlError FlowGraph}
    (h : ∀ k, edited = .ok k → k.atRest = g.atRest) :
    (edited.toOption.getD g).atRest = g.atRest := by
  cases edited with
  | error _ => rfl
  | ok k => exact h k rfl

theorem atRest_apply (c : Controller ρ) (operation : Operation) :
    (c.apply operation).graph.atRest = c.graph.atRest := by
  cases operation with
  | command command => exact c.graph.atRest_withState command.state
  | control control => exact c.graph.atRest_withControl control
  | nodeState id state => exact atRest_of_toOption fun _ => FlowGraph.atRest_of_setNodeState
  | nodeControl id control => exact atRest_of_toOption fun _ => FlowGraph.atRest_of_setNodeControl

theorem atRest_steer (c : Controller ρ) (operations : List Operation) :
    (c.steer operations).graph.atRest = c.graph.atRest := by
  induction operations generalizing c with
  | nil => rfl
  | cons operation rest ih => exact (ih (c.apply operation)).trans (c.atRest_apply operation)

/-- Any operations, one after the other, leave the graph as it is at rest. Validation finds
the same, issue by issue, and every connection has the same segments. -/
theorem steer_keeps (c : Controller ρ) (operations : List Operation) :
    (c.steer operations).graph.atRest = c.graph.atRest ∧
      (c.steer operations).graph.validate = c.graph.validate ∧
      ∀ x, (c.steer operations).graph.segments x = c.graph.segments x := by
  have hRest := c.atRest_steer operations
  exact ⟨hRest, FlowGraph.validate_of_atRest hRest,
    FlowGraph.segments_congr (FlowGraph.outlines_of_atRest hRest)⟩

end Controller

end FlowNest
