import FlowNest.Proofs.Descent

/-!
# FlowNest — two graphs that differ by one container

A graph is *folded* from another when some of the nodes of one scope stand in a
container of their own there. Both graphs have the same nodes but for that
container, and the same connections outside of the scope and the container. All
this can be read off the outlines of the two graphs, so it does not matter how
deep the scope lies.

* `FlowGraph.placedConnections` — all connections of a graph with their scopes;
* `Folding.of_root`, `Folding.of_inside` — a folding in the root or in a container;
* `Folding.bottom`              — ways inwards end where they ended;
* `Folding.bottom_own`          — also those that start at the container itself.
-/

namespace FlowNest

/-! ## Connections in their scopes -/

/-- The connections inside a node, each with the scope it stands in. -/
def Node.wires : Node → List (ScopeId × Connection)
  | .code _ => []
  | .graph c => c.inside.connections.map (some c.core.id, ·)

/-- The connections inside of what an outline is of. -/
def Outline.wires (o : Outline) : List (ScopeId × Connection) :=
  match o.plan with
  | none => []
  | some plan => plan.connections.map (some o.id, ·)

/-- The connections inside a node are in its outline. -/
theorem Node.wires_outline (n : Node) : n.outline.wires = n.wires := by
  cases n <;> rfl

/-- The connections in an outline are placed in its node. -/
theorem Outline.scope_of_mem_wires {o : Outline} {x : ScopeId × Connection} (hx : x ∈ o.wires) :
    x.1 = some o.id := by
  rw [wires] at hx
  split at hx
  · cases hx
  · obtain ⟨_, -, rfl⟩ := List.mem_map.mp hx
    rfl

namespace FlowGraph

variable {g k : FlowGraph}

/-- All connections of a graph, each with the scope it stands in. -/
def placedConnections (g : FlowGraph) : List (ScopeId × Connection) :=
  g.root.connections.map (none, ·) ++ g.allNodes.flatMap Node.wires

/-- The connections of a graph are those at the root and those in the outlines. -/
theorem placedConnections_eq (g : FlowGraph) :
    g.placedConnections = g.root.connections.map (none, ·) ++ g.outlines.flatMap Outline.wires := by
  rw [placedConnections, outlines, Forest.outlines, List.flatMap_map]
  simp only [Node.wires_outline]
  rfl

/-- Each node has its outline among those of the graph. -/
theorem mem_outlines {n : Node} (hn : n ∈ g.allNodes) : n.outline ∈ g.outlines :=
  List.mem_map_of_mem hn

/-- Each outline of a graph is that of one of its nodes. -/
theorem exists_of_mem_outlines {o : Outline} (ho : o ∈ g.outlines) :
    ∃ n ∈ g.allNodes, n.outline = o :=
  List.mem_map.mp ho

end FlowGraph

/-! ## Foldings -/

/-- `folded` is `flat` with the container `c` more, in the scope `scope`, which has
the content `s` in `flat` and `t` in `folded`. -/
structure Folding (flat folded : FlowGraph) (c : Container Node) (scope : ScopeId)
    (s t : Scope Node) : Prop where
  flatIds : flat.UniqueIds
  foldedIds : folded.UniqueIds
  shells : (folded.outlines.map Outline.shell).Perm
    ((Node.graph c).outline.shell :: flat.outlines.map Outline.shell)
  own : ∀ portId, folded.step? ⟨c.core.id, portId⟩ = c.lead? portId
  passes : ∀ n ∈ flat.allNodes, ∃ m ∈ folded.allNodes, m.id = n.id ∧ n.PassesThrough m c
  wires : ∃ rest,
    flat.placedConnections.Perm (s.connections.map (scope, ·) ++ rest) ∧
      folded.placedConnections.Perm (t.connections.map (scope, ·) ++
        (c.inside.connections.map (some c.core.id, ·) ++ rest)) ∧
      ∀ x ∈ rest, x.1 ≠ scope ∧ x.1 ≠ some c.core.id

namespace Folding

variable {flat folded : FlowGraph} {c : Container Node}

section Outlines

variable {os os' : List Outline} (hUnique : folded.UniqueIds)
  (hFlat : flat.outlines.Perm os) (hFolded : folded.outlines.Perm ((Node.graph c).outline :: os'))
  (hShells : os'.map Outline.shell = os.map Outline.shell)

include hFolded hShells

include hUnique in
/-- With unique ids, the container has none of the ids of the other outlines. -/
theorem nodup_of_outlines : (c.core.id :: os.map (·.id)).Nodup := by
  have hPerm := hFolded.map Outline.id
  have hIds := congrArg (List.map Outline.id) hShells
  rw [List.map_map, List.map_map] at hIds
  change os'.map Outline.id = os.map Outline.id at hIds
  rw [FlowGraph.map_id_outlines, List.map_cons, hIds] at hPerm
  exact hPerm.nodup_iff.mp hUnique

include hUnique hFlat in
/-- What outlines say about a folding but for its connections. -/
theorem of_outlines {scope : ScopeId} {s t : Scope Node}
    (hPasses : ∀ o ∈ os, o ∈ os' ∨ ∃ n m : Node, n.outline = o ∧ m.outline ∈ os' ∧ m.id = n.id ∧
      n.PassesThrough m c)
    (hWires : ∃ rest,
      flat.placedConnections.Perm (s.connections.map (scope, ·) ++ rest) ∧
        folded.placedConnections.Perm (t.connections.map (scope, ·) ++
          (c.inside.connections.map (some c.core.id, ·) ++ rest)) ∧
        ∀ x ∈ rest, x.1 ≠ scope ∧ x.1 ≠ some c.core.id) :
    Folding flat folded c scope s t where
  flatIds := by
    have hNodup := (List.nodup_cons.mp (nodup_of_outlines hUnique hFolded hShells)).2
    have hPerm := hFlat.map Outline.id
    rw [FlowGraph.map_id_outlines] at hPerm
    exact hPerm.nodup_iff.mpr hNodup
  foldedIds := hUnique
  shells := by
    have hPerm := hFolded.map Outline.shell
    rw [List.map_cons, hShells] at hPerm
    exact hPerm.trans ((hFlat.map Outline.shell).symm.cons _)
  own := by
    intro portId
    obtain ⟨m, hm, hOutline⟩ :=
      FlowGraph.exists_of_mem_outlines (hFolded.mem_iff.mpr List.mem_cons_self)
    rw [show c.core.id = m.id from (Node.id_congr hOutline).symm,
      FlowGraph.step?_eq_lead? hUnique hm, Node.lead?_congr hOutline]
    rfl
  passes := by
    intro n hn
    have hInFolded : ∀ o ∈ os', ∃ m ∈ folded.allNodes, m.outline = o := fun o ho =>
      FlowGraph.exists_of_mem_outlines (hFolded.mem_iff.mpr (List.mem_cons_of_mem _ ho))
    -- a node keeps its outline, or is the container around the scope
    rcases hPasses _ (hFlat.mem_iff.mp (FlowGraph.mem_outlines hn)) with hSame | hOther
    · obtain ⟨m, hm, hOutline⟩ := hInFolded _ hSame
      exact ⟨m, hm, Node.id_congr hOutline, Node.passesThrough_of_outline hOutline.symm c⟩
    · obtain ⟨a, b, ha, hb, hId, hPass⟩ := hOther
      obtain ⟨m, hm, hOutline⟩ := hInFolded _ hb
      refine ⟨m, hm, (Node.id_congr hOutline).trans (hId.trans (Node.id_congr ha)), ?_⟩
      rw [Node.PassesThrough, ← Node.lead?_congr ha, Node.lead?_congr hOutline]
      exact hPass
  wires := hWires

end Outlines

/-- A folding in the root. -/
theorem of_root (hUnique : folded.UniqueIds)
    (hFolded : folded.outlines.Perm ((Node.graph c).outline :: flat.outlines)) :
    Folding flat folded c none flat.root folded.root := by
  refine of_outlines hUnique (.refl _) hFolded rfl (fun o ho => .inl ho)
    ⟨flat.outlines.flatMap Outline.wires, ?_, ?_, ?_⟩
  · rw [FlowGraph.placedConnections_eq]
  · rw [FlowGraph.placedConnections_eq]
    exact (hFolded.flatMap_right _).append_left _
  · intro x hx
    obtain ⟨o, ho, hx⟩ := List.mem_flatMap.mp hx
    rw [Outline.scope_of_mem_wires hx]
    refine ⟨by simp, ?_⟩
    intro hId
    -- a connection in the container's own scope would make a second node of its id
    have hNodup := nodup_of_outlines hUnique hFolded rfl
    exact (List.nodup_cons.mp hNodup).1 (List.mem_map.mpr ⟨o, ho, Option.some.inj hId⟩)

/-- A folding in the container `e`, which becomes `e'`. -/
theorem of_inside {e e' : Container Node} {os : List Outline} (hUnique : folded.UniqueIds)
    (hFlat : flat.outlines.Perm ((Node.graph e).outline :: os))
    (hFolded : folded.outlines.Perm
      ((Node.graph c).outline :: (Node.graph e').outline :: os))
    (hShell : (Node.graph e').outline.shell = (Node.graph e).outline.shell)
    (hRoot : folded.root.connections = flat.root.connections)
    (hPasses : (Node.graph e).PassesThrough (.graph e') c) :
    Folding flat folded c (some e.core.id) e.inside e'.inside := by
  have hId : e'.core.id = e.core.id := congrArg Outline.id hShell
  have hShells : ((Node.graph e').outline :: os).map Outline.shell =
      ((Node.graph e).outline :: os).map Outline.shell := by
    rw [List.map_cons, List.map_cons, hShell]
  refine of_outlines hUnique hFlat hFolded hShells ?_
    ⟨flat.root.connections.map (none, ·) ++ os.flatMap Outline.wires, ?_, ?_, ?_⟩
  · intro o ho
    rcases List.mem_cons.mp ho with rfl | ho
    · exact .inr ⟨_, _, rfl, List.mem_cons_self, hId, hPasses⟩
    · exact .inl (List.mem_cons_of_mem _ ho)
  · rw [FlowGraph.placedConnections_eq]
    refine ((hFlat.flatMap_right _).append_left _).trans ?_
    rw [List.flatMap_cons]
    exact List.perm_append_comm_assoc _ _ _
  · rw [FlowGraph.placedConnections_eq, hRoot]
    refine ((hFolded.flatMap_right _).append_left _).trans ?_
    rw [List.flatMap_cons, List.flatMap_cons, Node.wires_outline, Node.wires_outline, Node.wires,
      Node.wires, hId]
    -- the connections of the root come behind those of the two containers
    refine (List.perm_append_comm_assoc _ _ _).trans ?_
    refine (List.Perm.append_left _ (List.perm_append_comm_assoc _ _ _)).trans ?_
    exact List.perm_append_comm_assoc _ _ _
  · intro x hx
    have hNodup := nodup_of_outlines hUnique hFolded hShells
    rw [List.map_cons, List.nodup_cons, List.nodup_cons, List.mem_cons, not_or] at hNodup
    rcases List.mem_append.mp hx with hx | hx
    · obtain ⟨_, -, rfl⟩ := List.mem_map.mp hx
      simp
    · obtain ⟨o, ho, hx⟩ := List.mem_flatMap.mp hx
      rw [Outline.scope_of_mem_wires hx]
      constructor
      · intro hSame
        exact hNodup.2.1 (List.mem_map.mpr ⟨o, ho, Option.some.inj hSame⟩)
      · intro hSame
        exact hNodup.1.2 (List.mem_map.mpr ⟨o, ho, Option.some.inj hSame⟩)

/-! ## Nodes -/

variable {scope : ScopeId} {s t : Scope Node}

/-- Folded, a graph has one id more, that of the container. -/
theorem ids (h : Folding flat folded c scope s t) :
    (folded.allNodes.map (·.id)).Perm (c.core.id :: flat.allNodes.map (·.id)) := by
  have hPerm := h.shells.map Outline.id
  rwa [List.map_cons, List.map_map, List.map_map,
    show Outline.id ∘ Outline.shell = Outline.id from rfl, FlowGraph.map_id_outlines,
    FlowGraph.map_id_outlines] at hPerm

/-- What can be told from shells holds of all nodes of both graphs, if it holds of
the container. -/
theorem forall_folded {P : Node → Prop} (h : Folding flat folded c scope s t)
    (hShell : ∀ n m : Node, n.outline.shell = m.outline.shell → P n → P m)
    (hFlat : ∀ n ∈ flat.allNodes, P n) (hc : P (.graph c)) : ∀ n ∈ folded.allNodes, P n := by
  intro n hn
  have hMem := h.shells.mem_iff.mp (List.mem_map_of_mem (FlowGraph.mem_outlines hn))
  rcases List.mem_cons.mp hMem with hOwn | hMem
  · exact hShell _ _ hOwn.symm hc
  · obtain ⟨o, ho, hSame⟩ := List.mem_map.mp hMem
    obtain ⟨m, hm, rfl⟩ := FlowGraph.exists_of_mem_outlines ho
    exact hShell _ _ hSame (hFlat m hm)

/-- What holds of all nodes of the folded graph, and is decided by shells, holds of all nodes of
the flat one. -/
theorem forall_flat {P : Node → Prop} (h : Folding flat folded c scope s t)
    (hShell : ∀ n m : Node, n.outline.shell = m.outline.shell → P n → P m)
    (hFolded : ∀ n ∈ folded.allNodes, P n) : ∀ n ∈ flat.allNodes, P n := by
  intro n hn
  have hMem := h.shells.mem_iff.mpr
    (List.mem_cons_of_mem _ (List.mem_map_of_mem (FlowGraph.mem_outlines hn)))
  obtain ⟨o, ho, hSame⟩ := List.mem_map.mp hMem
  obtain ⟨m, hm, rfl⟩ := FlowGraph.exists_of_mem_outlines ho
  exact hShell _ _ hSame (hFolded m hm)

/-! ## Ways inwards -/

/-- No node of the flat graph has the id of the container. -/
theorem id_ne (h : Folding flat folded c scope s t) {n : Node} (hn : n ∈ flat.allNodes) :
    n.id ≠ c.core.id := by
  have hNodup := (h.ids.nodup_iff.mp h.foldedIds)
  intro hId
  exact (List.nodup_cons.mp hNodup).1 (hId ▸ List.mem_map_of_mem hn)

/-- The container of a folding is interposed. -/
theorem interposes (h : Folding flat folded c scope s t) :
    flat.Interposes folded c.core.id := by
  refine FlowGraph.interposes_of_counterparts h.flatIds h.foldedIds h.own (fun n => h.id_ne)
    h.passes ?_
  intro m hm hId
  have hMem : m.id ∈ c.core.id :: flat.allNodes.map (·.id) :=
    h.ids.mem_iff.mp (List.mem_map_of_mem hm)
  rcases List.mem_cons.mp hMem with hOwn | hMem
  · exact absurd hOwn hId
  · exact List.mem_map.mp hMem

/-- Both graphs have the same bottoms. -/
theorem bottom (h : Folding flat folded c scope s t) {e : Endpoint} (hNode : e.node ≠ c.core.id) :
    folded.bottom e = flat.bottom e :=
  h.interposes.bottom h.flatIds h.foldedIds hNode

/-- From the container it goes on where its port leads. -/
theorem bottom_own (h : Folding flat folded c scope s t) {portId : String} {next : Endpoint}
    (hLead : c.lead? portId = some next) :
    folded.bottom ⟨c.core.id, portId⟩ = flat.bottom next := by
  have hStep : folded.step? ⟨c.core.id, portId⟩ = some next := (h.own portId).trans hLead
  rw [FlowGraph.bottom_of_step? h.foldedIds hStep]
  refine h.bottom ?_
  -- a hop leads to a node that stands deeper
  intro hNode
  have hLt := FlowGraph.weight_lt_of_step? h.foldedIds hStep
  rw [hNode] at hLt
  exact Nat.lt_irrefl _ hLt

end Folding

end FlowNest
