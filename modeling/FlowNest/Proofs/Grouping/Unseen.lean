import Mathlib.Data.List.Find
import FlowNest.Proofs.EditAt
import FlowNest.Proofs.Grouping.Collapse
import FlowNest.Proofs.Grouping.Routing

/-!
# FlowNest — what a grouping does not look at

Of the nodes in a scope, a grouping sees the faces and the places on the canvas. What else is
edited in them beforehand may as well be edited afterwards: the grouping fails in the same way,
or makes the same container, with the edited nodes inside.

* `Node.Unseen`                       — edits that a grouping does not notice;
* `Scope.group_mapNodes`              — the container of edited nodes;
* `Scope.map_collapseNodes`           — the scope around it;
* `Container.routeThrough_mapInside`  — the ports led through it.
-/

namespace FlowNest

/-- An edit of a node that leaves its face and its place, and may come before or after the node
is moved and given a parent. -/
structure Node.Unseen (φ : Node → Node) (n : Node) : Prop where
  face : (φ n).face = n.face
  position : (φ n).core.position = n.core.position
  placed : ∀ position, φ (n.withPosition position) = (φ n).withPosition position
  adopted : ∀ position parent, φ ((n.withPosition position).withParent parent) =
    ((φ n).withPosition position).withParent parent

/-- An edit that is not seen keeps the id. -/
theorem Node.Unseen.id {φ : Node → Node} {n : Node} (h : Node.Unseen φ n) : (φ n).id = n.id :=
  congrArg Face.id h.face

/-! ## Places -/

section Layout

variable {φ : Node → Node} {nodes : List Node} (hφ : ∀ n ∈ nodes, Node.Unseen φ n)

include hφ

/-- The nodes stand where they stood. -/
theorem map_position_map (k : Position → Float) :
    (nodes.map φ).map (fun n => k n.core.position) = nodes.map fun n => k n.core.position := by
  rw [List.map_map]
  exact List.map_congr_left fun n hn => congrArg k (hφ n hn).position

/-- The middle of the nodes is where it was. -/
theorem centroid_map : centroid (nodes.map φ) = centroid nodes := by
  rw [centroid, centroid, map_position_map hφ, map_position_map hφ]

/-- The nodes are moved to the margin as they would have been, and fail where they would have
failed. -/
theorem moveToMargin_map (margin : Float) :
    moveToMargin margin (nodes.map φ) = (moveToMargin margin nodes).map (List.map φ) := by
  rw [moveToMargin, moveToMargin, map_position_map hφ, map_position_map hφ]
  refine mapM_map fun n hn => ?_
  rw [(hφ n hn).position]
  -- either there is a place for the node, and it is moved, or there is none
  cases Position.of _ _ with
  | error err => rfl
  | ok position => exact congrArg Except.ok ((hφ n hn).placed position).symm

end Layout

/-! ## The boundary -/

namespace Scope

/-- The boundary of a grouping depends on the ports of a scope and its connections. -/
theorem boundary_congr {s t : Scope Node} (hPorts : s.port? = t.port?)
    (hConnections : s.connections = t.connections) : s.boundary = t.boundary := by
  -- of the nodes the boundary reads the ports alone, through `port?`
  have hOuter : s.outerPort = t.outerPort := by
    funext x
    rw [outerPort, outerPort, hPorts]
  have hCrossings : s.crossings = t.crossings := by
    funext ids
    rw [crossings, crossings, hConnections]
    refine List.filterMap_congr fun x _ => ?_
    rw [crossing?, crossing?, hPorts]
  have hLeader : s.addLeader = t.addLeader := by
    funext owner crossings b leader
    rw [addLeader, addLeader, hOuter]
  have hLeaders : ∀ owner crossings b leaders,
      s.addLeaders owner crossings b leaders = t.addLeaders owner crossings b leaders := by
    intro owner crossings b leaders
    induction leaders generalizing b with
    | nil => rfl
    | cons leader rest ih =>
      rw [addLeaders, addLeaders, hLeader]
      cases t.addLeader owner crossings b leader with
      | error fault => rfl
      | ok b => exact ih b
  funext owner ids
  rw [boundary, boundary, hCrossings, hLeaders]

/-! ## The container -/

variable {φ : Node → Node} {s : Scope Node} {ids : List String}

/-- The same nodes are selected. -/
theorem map_filter_mem (hφ : ∀ n ∈ s.nodes, Node.Unseen φ n) :
    (s.nodes.map φ).filter (·.id ∈ ids) = (s.nodes.filter (·.id ∈ ids)).map φ := by
  rw [List.filter_map]
  refine congrArg (List.map φ) (List.filter_congr fun n hn => ?_)
  rw [Function.comp_apply, (hφ n hn).id]

/-- Ports are found as before. -/
theorem port?_mapNodes (hφ : ∀ n ∈ s.nodes, Node.Unseen φ n) : (s.mapNodes φ).port? = s.port? := by
  refine port?_congr ?_
  rw [mapNodes, List.map_map]
  exact List.map_congr_left fun n hn => (hφ n hn).face

/-- The new container is the one from before, with its children edited. -/
theorem containerFor_mapNodes {first : Node} {nodes moved : List Node}
    (hFirst : Node.Unseen φ first) (hMoved : List.Forall₂ Node.Moved nodes moved)
    (hφ : ∀ n ∈ nodes, Node.Unseen φ n) {id name : String} {settings : Settings}
    {position : Position} {b : Boundary} :
    (s.mapNodes φ).containerFor ids id name settings (φ first) position (moved.map φ) b =
      (s.containerFor ids id name settings first position moved b).mapInside φ := by
  have hParent : (φ first).core.parent = first.core.parent := congrArg Face.parent hFirst.face
  -- placing and adopting a node commute with an unseen edit
  have hNodes : (moved.map φ).map (·.withParent (some id)) =
      (moved.map (·.withParent (some id))).map φ := by
    rw [List.map_map, List.map_map]
    refine List.map_congr_left fun m hm => ?_
    obtain ⟨n, hn, place, rfl⟩ := exists_of_mem_forall₂ hMoved hm
    rw [Function.comp_apply, Function.comp_apply, (hφ n hn).placed, (hφ n hn).adopted]
  show Container.mk _ b ⟨(moved.map φ).map (·.withParent (some id)), _⟩ =
    Container.mk _ b ⟨(moved.map (·.withParent (some id))).map φ, _⟩
  rw [hNodes, hParent]
  rfl

/-- Edited nodes are grouped as they are without the edit, and the container has the edited
nodes inside; or they are not grouped, for the same reason. -/
theorem group_mapNodes (hφ : ∀ n ∈ s.nodes, Node.Unseen φ n) (id name : String)
    (settings : Settings) : (s.mapNodes φ).group ids id name settings =
      (s.group ids id name settings).map (·.mapInside φ) := by
  have hSelected : (s.mapNodes φ).nodes.filter (·.id ∈ ids) =
      (s.nodes.filter (·.id ∈ ids)).map φ := map_filter_mem hφ
  -- with fewer than two selected nodes both sides fail alike
  cases hCases : s.nodes.filter (·.id ∈ ids) with
  | nil =>
    rw [group, group, hSelected, hCases]
    rfl
  | cons first others =>
    cases others with
    | nil =>
      rw [group, group, hSelected, hCases]
      rfl
    | cons second rest =>
      have hUnseen : ∀ n ∈ s.nodes.filter (·.id ∈ ids), Node.Unseen φ n :=
        fun n hn => hφ n (List.mem_of_mem_filter hn)
      have hFirst : Node.Unseen φ first := hUnseen first (hCases ▸ List.mem_cons_self)
      rw [group_of_selected (hSelected.trans (congrArg _ hCases)), group_of_selected hCases,
        hSelected, centroid_map hUnseen, moveToMargin_map hUnseen,
        boundary_congr (port?_mapNodes hφ) rfl]
      cases centroid (s.nodes.filter (·.id ∈ ids)) with
      | error err => rfl
      | ok position =>
        cases hMoved : moveToMargin settings.margin (s.nodes.filter (·.id ∈ ids)) with
        | error err => rfl
        | ok moved =>
          cases s.boundary id ids with
          | error err => rfl
          | ok b =>
            have hPlaced := moveToMargin_eq_ok hMoved
            exact congrArg Except.ok (containerFor_mapNodes hFirst hPlaced hUnseen)

/-! ## The scope around it -/

/-- The nodes around the new container are those from before, edited. -/
theorem map_collapseNodes {c c' : Container Node} {nodes : List Node}
    (hφ : ∀ n ∈ nodes, (φ n).id = n.id) (hc : φ (.graph c) = .graph c') :
    (collapseNodes ids c nodes).map φ = collapseNodes ids c' (nodes.map φ) := by
  induction nodes with
  | nil => rfl
  | cons n rest ih =>
    obtain ⟨hFirst, hRest⟩ := List.forall_mem_cons.mp hφ
    rw [collapseNodes, List.map_cons, collapseNodes, hFirst]
    -- the container takes the place of the first selected node, and the others are dropped
    split
    · rw [List.map_cons, hc, List.filter_map]
      refine congrArg (fun others : List Node => Node.graph c' :: others.map φ) ?_
      refine List.filter_congr fun m hm => ?_
      rw [Function.comp_apply, hRest m hm]
    · rw [List.map_cons, ih hRest]

/-- Edits that go on through the new container may be made before the grouping or afterwards. -/
theorem collapse_mapNodes {c : Container Node} (hφ : ∀ n ∈ s.nodes, (φ n).id = n.id)
    (hc : φ (.graph c) = .graph (c.mapInside φ)) :
    (s.mapNodes φ).collapse ids (c.mapInside φ) = (s.collapse ids c).mapNodes φ := by
  show Scope.mk (collapseNodes ids (c.mapInside φ) (s.nodes.map φ)) _ =
    Scope.mk ((collapseNodes ids c s.nodes).map φ) _
  rw [map_collapseNodes hφ hc]
  rfl

end Scope

/-! ## The container around it -/

namespace Container

variable {φ : Node → Node} {c : Container Node}

/-- The same child is found, edited. -/
theorem node?_mapInside (hφ : ∀ n ∈ c.inside.nodes, (φ n).face = n.face) (id : String) :
    (c.mapInside φ).inside.node? id = (c.inside.node? id).map φ := by
  show (c.inside.nodes.map φ).find? (·.id = id) = _
  rw [List.find?_map]
  refine congrArg (Option.map φ) (List.find?_congr fun n hn => ?_)
  have hId : (φ n).id = n.id := congrArg Face.id (hφ n hn)
  rw [Function.comp_apply, hId]

/-- A mapping leads to the same port, at the edited child. -/
theorem target?_mapInside (hφ : ∀ n ∈ c.inside.nodes, (φ n).face = n.face) (m : PortMapping)
    (d : Direction) :
    (c.mapInside φ).target? m d = (c.target? m d).map fun (n, p) => (φ n, p) := by
  rw [target?, target?, node?_mapInside hφ]
  cases hChild : c.inside.node? m.child with
  | none => rfl
  | some child =>
    have hFace : (φ child).portNamed? m.portName d = child.portNamed? m.portName d := by
      rw [← Node.portNamed?_face, hφ child (List.mem_of_find?_eq_some hChild), Node.portNamed?_face]
    simp only [Option.map_some, Option.bind_eq_bind, Option.bind_some, hFace]
    cases child.portNamed? m.portName d <;> rfl

/-- A port is led through the container as before. -/
theorem throughStep_mapInside (hφ : ∀ n ∈ c.inside.nodes, (φ n).face = n.face)
    (enclosing : String) (ids : List String) :
    (c.mapInside φ).throughStep enclosing ids = c.throughStep enclosing ids := by
  funext r p
  rw [throughStep, throughStep]
  cases r.mappings[p.port.name]? with
  | none => rfl
  | some m =>
    -- the step sees the inside only through the targets of mappings
    simp only [target?_mapInside hφ]
    cases c.target? m p.port.direction with
    | none => rfl
    | some found => rfl

/-- Ports are led through a container by the faces of the nodes inside. -/
theorem routeThrough_mapInside {e e' : Container Node} {ids : List String}
    (hφ : ∀ n ∈ c.inside.nodes, (φ n).face = n.face) (hId : e'.core.id = e.core.id)
    (hBoundary : e'.boundary = e.boundary) :
    e'.routeThrough (c.mapInside φ) ids =
      (e.routeThrough c ids).map fun (c', outside) => (c'.mapInside φ, outside) := by
  rw [routeThrough, routeThrough, throughStep_mapInside hφ, hId, hBoundary]
  -- both sides take the inputs from one state on, and then the outputs
  let step := c.throughStep e.core.id ids
  show (passPorts step ⟨c.boundary, e.boundary.mappings⟩ e.boundary.inputs >>= _) =
    Except.map _ (passPorts step ⟨c.boundary, e.boundary.mappings⟩ e.boundary.inputs >>= _)
  cases passPorts step ⟨c.boundary, e.boundary.mappings⟩ e.boundary.inputs with
  | error err => rfl
  | ok taken =>
    show (passPorts step taken.1 e.boundary.outputs >>= _) =
      Except.map _ (passPorts step taken.1 e.boundary.outputs >>= _)
    cases passPorts step taken.1 e.boundary.outputs <;> rfl

end Container

end FlowNest
