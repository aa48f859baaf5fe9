import FlowNest.Grouping
import FlowNest.Proofs.Grouping.Crossing

/-!
# FlowNest — a scope with some of its nodes in a container

Grouping takes the selected nodes of a scope, moved on the canvas but otherwise
as they are, and the connections among them into a new container, which stands
in the scope in their place.

* `Scope.group_spec`                 — what the new container is;
* `Container.Takes.port?_inside`     — inside are the ports of the selected nodes;
* `Scope.Tidy.port?_collapse`        — outside are the ports of the others and of
  the container;
* `Scope.collapseNodes_split`        — where the container stands;
* `Scope.outlines_collapse`          — nothing below is lost or changed.
-/

namespace FlowNest

/-! ## Nodes with another core -/

namespace Node

/-- A core with the same id, name and kind leaves all outlines of the tree as they are. -/
theorem outlines_withCore {n : Node} {core : NodeCore} (hId : core.id = n.id)
    (hName : core.name = n.core.name) (hKind : core.kind = n.core.kind) :
    (n.withCore core).outlines = n.outlines := by
  have hOutline := outline_withCore hId hName hKind
  cases n with
  | code c => exact congrArg (fun o => [o]) hOutline
  | graph g =>
    show (Node.graph { g with core }).preorder.map outline = (Node.graph g).preorder.map outline
    rw [preorder_graph, preorder_graph, List.map_cons, List.map_cons]
    exact congrArg (· :: _) hOutline

@[simp] theorem outlines_withParent (n : Node) (parent : Option String) :
    (n.withParent parent).outlines = n.outlines :=
  outlines_withCore rfl rfl rfl

@[simp] theorem outlines_withPosition (n : Node) (position : Position) :
    (n.withPosition position).outlines = n.outlines :=
  outlines_withCore rfl rfl rfl

/-- `m` is the node at another place. -/
def Moved (n m : Node) : Prop :=
  ∃ position, m = n.withPosition position

end Node

/-- Moving the nodes of a forest and giving them a parent keeps all outlines. -/
theorem Forest.outlines_moved {nodes moved : List Node} (h : List.Forall₂ Node.Moved nodes moved)
    (parent : Option String) :
    Forest.outlines (moved.map (·.withParent parent)) = Forest.outlines nodes := by
  rw [Forest.outlines_eq_flatMap, Forest.outlines_eq_flatMap, List.flatMap_map,
    List.flatMap_def, List.flatMap_def]
  refine congrArg List.flatten (map_eq_of_forall₂ h ?_)
  rintro n m ⟨position, rfl⟩
  simp

/-! ## The new container -/

/-- Nodes that are moved to the margin are the nodes from before, moved. -/
theorem moveToMargin_eq_ok {margin : Float} {nodes moved : List Node}
    (h : moveToMargin margin nodes = .ok moved) : List.Forall₂ Node.Moved nodes moved := by
  refine (forall₂_of_mapM h).imp ?_
  intro n m hm
  obtain ⟨position, -, hm⟩ := bind_eq_ok.mp hm
  cases hm
  exact ⟨position, rfl⟩

/-- What is inside the container are the nodes of the scope with the ids, and the
connections among them. -/
structure Container.Takes (c : Container Node) (s : Scope Node) (ids : List String) : Prop where
  selected : ∃ n ∈ s.nodes, n.id ∈ ids
  parent : ∃ n ∈ s.nodes, c.core.parent = n.core.parent
  nodes : ∃ moved, List.Forall₂ Node.Moved (s.nodes.filter (·.id ∈ ids)) moved ∧
    c.inside.nodes = moved.map (·.withParent (some c.core.id))
  connections : c.inside.connections =
    (s.connections.filter (·.relation ids = .inside)).map (·.inScope (some c.core.id))

/-- The container for nodes that have been moved; it is where `first` among them was. -/
def Scope.containerFor (s : Scope Node) (ids : List String) (id name : String)
    (settings : Settings) (first : Node) (position : Position) (moved : List Node)
    (boundary : Boundary) : Container Node :=
  { Container.of
      { NodeCore.of id name Container.kind position with
        parent := first.core.parent
        control := settings.control }
      ⟨moved, (s.connections.filter (·.relation ids = .inside)).map (·.inScope (some id))⟩ with
    boundary }

/-- Two nodes or more are grouped if there are places for them and ports can be made. -/
theorem Scope.group_of_selected {s : Scope Node} {ids : List String} {first second : Node}
    {rest : List Node} (h : s.nodes.filter (·.id ∈ ids) = first :: second :: rest)
    (id name : String) (settings : Settings) :
    s.group ids id name settings = (do
      let position ← (centroid (s.nodes.filter (·.id ∈ ids))).mapError .construction
      let moved ← (moveToMargin settings.margin (s.nodes.filter (·.id ∈ ids))).mapError
        .construction
      let boundary ← s.boundary id ids
      return s.containerFor ids id name settings first position moved boundary) := by
  rw [group, h]
  rfl

/-- A grouping that succeeds has made this container. -/
theorem Scope.exists_containerFor {s : Scope Node} {ids : List String} {id name : String}
    {settings : Settings} {c : Container Node} (h : s.group ids id name settings = .ok c) :
    ∃ first ∈ s.nodes.filter (·.id ∈ ids), ∃ position moved boundary,
      List.Forall₂ Node.Moved (s.nodes.filter (·.id ∈ ids)) moved ∧
      s.boundary id ids = .ok boundary ∧
      c = s.containerFor ids id name settings first position moved boundary := by
  rw [group] at h
  -- a selection of fewer than two nodes is refused
  split at h
  · cases h
  · cases h
  · next first second rest hSelected =>
    obtain ⟨position, -, h⟩ := bind_eq_ok.mp h
    obtain ⟨moved, hMoved, h⟩ := bind_eq_ok.mp h
    obtain ⟨boundary, hBoundary, h⟩ := bind_eq_ok.mp h
    cases h
    exact ⟨first, hSelected ▸ List.mem_cons_self, position, moved, boundary,
      moveToMargin_eq_ok (mapError_eq_ok hMoved), hBoundary, rfl⟩

/-- A container that is made of a selection has the id and name that were asked for, takes the
selection, and has the boundary that is made for it. -/
theorem Scope.group_spec {s : Scope Node} {ids : List String} {id name : String}
    {settings : Settings} {c : Container Node} (h : s.group ids id name settings = .ok c) :
    c.core.id = id ∧ c.core.name = name ∧ c.core.kind = Container.kind ∧ c.Takes s ids ∧
      s.boundary id ids = .ok c.boundary := by
  obtain ⟨first, hFirst, position, moved, boundary, hMoved, hBoundary, rfl⟩ :=
    exists_containerFor h
  obtain ⟨hMem, hId⟩ := List.mem_filter.mp hFirst
  exact ⟨rfl, rfl, rfl, ⟨⟨first, hMem, of_decide_eq_true hId⟩, ⟨first, hMem, rfl⟩,
    ⟨moved, hMoved, rfl⟩, rfl⟩, hBoundary⟩

namespace Container.Takes

variable {c : Container Node} {s : Scope Node} {ids : List String}

/-- The children have the outlines of the selected nodes, at every depth. -/
theorem outlines (h : c.Takes s ids) :
    Forest.outlines c.inside.nodes = Forest.outlines (s.nodes.filter (·.id ∈ ids)) := by
  obtain ⟨moved, hMoved, hNodes⟩ := h.nodes
  rw [hNodes, Forest.outlines_moved hMoved]

/-- The children have the outlines of the selected nodes, in their order. -/
theorem map_outline (h : c.Takes s ids) :
    c.inside.nodes.map Node.outline = (s.nodes.filter (·.id ∈ ids)).map Node.outline := by
  obtain ⟨moved, hMoved, hNodes⟩ := h.nodes
  rw [hNodes, List.map_map]
  refine map_eq_of_forall₂ hMoved ?_
  rintro n m ⟨position, rfl⟩
  simp

/-- The children have the ids of the selected nodes, in their order. -/
theorem map_id (h : c.Takes s ids) :
    c.inside.nodes.map (·.id) = (s.nodes.filter (·.id ∈ ids)).map (·.id) := by
  have hIds := congrArg (List.map Outline.id) h.map_outline
  rwa [List.map_map, List.map_map] at hIds

/-- The children have the container as their parent. -/
theorem parents (h : c.Takes s ids) : ∀ n ∈ c.inside.nodes, n.core.parent = some c.core.id := by
  intro n hn
  obtain ⟨moved, -, hNodes⟩ := h.nodes
  rw [hNodes] at hn
  obtain ⟨m, -, rfl⟩ := List.mem_map.mp hn
  exact m.parent_withParent _

/-- The nodes inside are those selected, as far as outlines tell. -/
theorem mem_inside (h : c.Takes s ids) {n : Node} (hn : n ∈ c.inside.nodes) :
    ∃ m ∈ s.nodes, m.id ∈ ids ∧ m.outline = n.outline := by
  have hMem : n.outline ∈ (s.nodes.filter (·.id ∈ ids)).map Node.outline :=
    h.map_outline ▸ List.mem_map_of_mem hn
  obtain ⟨m, hm, hOutline⟩ := List.mem_map.mp hMem
  obtain ⟨hMem, hId⟩ := List.mem_filter.mp hm
  exact ⟨m, hMem, by simpa using hId, hOutline⟩

/-- Each selected node has a child with its outline. -/
theorem exists_inside (h : c.Takes s ids) {m : Node} (hm : m ∈ s.nodes) (hId : m.id ∈ ids) :
    ∃ n ∈ c.inside.nodes, m.outline = n.outline := by
  have hMem : m.outline ∈ c.inside.nodes.map Node.outline := by
    rw [h.map_outline]
    exact List.mem_map_of_mem (List.mem_filter.mpr ⟨hm, by simpa using hId⟩)
  obtain ⟨n, hn, hOutline⟩ := List.mem_map.mp hMem
  exact ⟨n, hn, hOutline.symm⟩

/-- The inside of the container is tidy if the scope was. -/
theorem tidy_inside (h : c.Takes s ids) (hs : s.Tidy) : c.inside.Tidy where
  ids := by
    rw [h.map_id]
    exact hs.ids.sublist (List.filter_sublist.map _)
  ports := by
    intro n hn
    obtain ⟨m, hm, -, hOutline⟩ := h.mem_inside hn
    exact (hs.ports m hm).congr hOutline

/-- The ports inside are those of the selected nodes. -/
theorem port?_inside (h : c.Takes s ids) (hs : s.Tidy) {e : Endpoint} {p : Port} :
    c.inside.port? e = some p ↔ e.node ∈ ids ∧ s.port? e = some p := by
  rw [(h.tidy_inside hs).port?_eq_some_iff, hs.port?_eq_some_iff]
  constructor
  · rintro ⟨n, hn, hId, hp, hPort⟩
    obtain ⟨m, hm, hmId, hOutline⟩ := h.mem_inside hn
    have hSame := Node.id_congr hOutline
    exact ⟨hId ▸ hSame ▸ hmId, m, hm, hSame.trans hId, Node.ports_congr hOutline ▸ hp, hPort⟩
  · rintro ⟨hIds, m, hm, hId, hp, hPort⟩
    obtain ⟨n, hn, hOutline⟩ := h.exists_inside hm (hId ▸ hIds)
    exact ⟨n, hn, (Node.id_congr hOutline).symm.trans hId, Node.ports_congr hOutline ▸ hp, hPort⟩

end Container.Takes

/-! ## The scope around it -/

namespace Scope

variable {s : Scope Node} {ids : List String} {c : Container Node}

/-- A container stands where the first selected node stood, and behind it are the others
that are not selected. -/
theorem collapseNodes_split {nodes : List Node} (h : ∃ n ∈ nodes, n.id ∈ ids) :
    ∃ left first right, nodes = left ++ first :: right ∧ (∀ n ∈ left, n.id ∉ ids) ∧
      first.id ∈ ids ∧
      ∀ c, collapseNodes ids c nodes = left ++ .graph c :: right.filter (·.id ∉ ids) := by
  induction nodes with
  | nil => simp at h
  | cons n rest ih =>
    by_cases hn : n.id ∈ ids
    · exact ⟨[], n, rest, rfl, by simp, hn, fun c => if_pos hn⟩
    -- the head is not selected, so the selected node is further on
    · have hRest : ∃ m ∈ rest, m.id ∈ ids := by
        obtain ⟨m, hm, hId⟩ := h
        rcases List.mem_cons.mp hm with rfl | hm
        · exact absurd hId hn
        · exact ⟨m, hm, hId⟩
      obtain ⟨left, first, right, rfl, hLeft, hFirst, hCollapse⟩ := ih hRest
      refine ⟨n :: left, first, right, rfl, List.forall_mem_cons.mpr ⟨hn, hLeft⟩, hFirst, ?_⟩
      intro c
      rw [collapseNodes, if_neg hn, hCollapse]
      rfl

/-- Apart from their order, the nodes are the container and those that were not selected. -/
theorem collapseNodes_perm {nodes : List Node} (h : ∃ n ∈ nodes, n.id ∈ ids) :
    (collapseNodes ids c nodes).Perm (.graph c :: nodes.filter (·.id ∉ ids)) := by
  obtain ⟨left, first, right, rfl, hLeft, hFirst, hCollapse⟩ := collapseNodes_split h
  have hLeft : left.filter (·.id ∉ ids) = left := List.filter_eq_self.mpr (by simpa using hLeft)
  rw [hCollapse, List.filter_append, hLeft, List.filter_cons_of_neg (by simpa using hFirst)]
  exact List.perm_middle

/-- A node afterwards is the container, or one that was not selected. -/
theorem mem_collapse (h : ∃ n ∈ s.nodes, n.id ∈ ids) {m : Node} :
    m ∈ (s.collapse ids c).nodes ↔ m = .graph c ∨ m ∈ s.nodes ∧ m.id ∉ ids := by
  rw [collapse, (collapseNodes_perm h).mem_iff, List.mem_cons, List.mem_filter]
  simp

/-- Together with the container, the scope has the same outlines as before. -/
theorem outlines_collapse (h : c.Takes s ids) :
    (Forest.outlines (s.collapse ids c).nodes).Perm
      ((Node.graph c).outline :: Forest.outlines s.nodes) := by
  refine (Forest.outlines_perm (collapseNodes_perm h.selected)).trans ?_
  -- what is taken in is found inside of the container instead
  rw [Forest.outlines_graph_cons, h.outlines, ← Forest.outlines_append]
  refine (Forest.outlines_perm ?_).cons _
  simpa using List.filter_append_perm (·.id ∈ ids) s.nodes

/-- A scope stays tidy when a new container takes the selection. -/
theorem Tidy.collapse (hs : s.Tidy) (h : c.Takes s ids) (hc : (Node.graph c).TidyPorts)
    (hNew : ∀ n ∈ s.nodes, n.id ≠ c.core.id) : (s.collapse ids c).Tidy where
  ids := by
    rw [Scope.collapse, ((collapseNodes_perm h.selected).map _).nodup_iff, List.map_cons,
      List.nodup_cons]
    -- the id of the container is new, and those that stay were distinct already
    constructor
    · intro hMem
      obtain ⟨n, hn, hId⟩ := List.mem_map.mp hMem
      exact hNew n (List.mem_of_mem_filter hn) hId
    · exact hs.ids.sublist (List.filter_sublist.map _)
  ports := by
    intro n hn
    rcases (mem_collapse h.selected).mp hn with rfl | ⟨hn, -⟩
    · exact hc
    · exact hs.ports n hn

/-- The ports outside are those of the other nodes, and of the container. -/
theorem Tidy.port?_collapse (hs : s.Tidy) (h : c.Takes s ids) (hc : (Node.graph c).TidyPorts)
    (hNew : ∀ n ∈ s.nodes, n.id ≠ c.core.id) {e : Endpoint} {p : Port} :
    (s.collapse ids c).port? e = some p ↔
      (e.node ∉ ids ∧ s.port? e = some p) ∨
        (e.node = c.core.id ∧ p ∈ (Node.graph c).ports ∧ p.id = e.port) := by
  rw [(hs.collapse h hc hNew).port?_eq_some_iff, hs.port?_eq_some_iff]
  -- an end is on the new container or on a node that was not taken
  constructor
  · rintro ⟨n, hn, hId, hp, hPort⟩
    rcases (mem_collapse h.selected).mp hn with rfl | ⟨hn, hOut⟩
    · exact .inr ⟨hId.symm, hp, hPort⟩
    · exact .inl ⟨hId ▸ hOut, n, hn, hId, hp, hPort⟩
  · rintro (⟨hOut, n, hn, hId, hp, hPort⟩ | ⟨hId, hp, hPort⟩)
    · exact ⟨n, (mem_collapse h.selected).mpr (.inr ⟨hn, hId ▸ hOut⟩), hId, hp, hPort⟩
    · exact ⟨.graph c, (mem_collapse h.selected).mpr (.inl rfl), hId.symm, hp, hPort⟩

end Scope

end FlowNest
