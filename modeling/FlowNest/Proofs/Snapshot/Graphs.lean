import FlowNest.Proofs.Snapshot.Parts

/-!
# FlowNest — whole graphs, written and read

The nodes of a graph, with all below them, and the graph itself are read as they were
written, as far as a snapshot keeps them. The reader of nodes is given more steps than the
text nests, and every container takes one of them.

* `readNode_toJson`, `settles_readNode`   — nodes;
* `readGraph_toJson`, `settles_readGraph` — graphs.
-/

namespace FlowNest

open FlowNest.Json (Draft str)
open FlowNest.Json.Draft (ofJson)
open Snapshot

variable {d : Draft} {r : Record}

/-! ## Cores -/

/-- A core is read from the entries that it was written to. -/
theorem coreParts_written (c : NodeCore) :
    coreParts readCoreState (.written c.entries) = .ok c := by
  have hKeys : coreNames.Nodup := by decide
  -- one part for each field, in the order in which they are written
  refine Part.seq_of_ok (Part.seq_of_ok (Part.seq_of_ok (Part.seq_of_ok (Part.seq_of_ok
    (Part.seq_of_ok (Part.seq_of_ok (Part.seq_of_ok (Part.map_of_ok ?_) ?_) ?_) ?_) ?_) ?_) ?_)
    ?_) ?_
  · exact Record.field_written hKeys rfl rfl
  · exact Record.field_written hKeys rfl rfl
  · exact Record.field_written hKeys rfl rfl
  · exact Record.field_written hKeys rfl (readPosition_toJson c.position)
  · exact optional_written_str hKeys rfl
  · exact Record.field_written hKeys rfl (readMap_ofJson c.configuration fun _ => rfl)
  · exact optional_written_str hKeys rfl
  · exact Record.field_written hKeys rfl (readCoreState_toJson c.state)
  · exact Record.field_written hKeys rfl (readControl_toJson c.control)

/-- A text is written as it was found. -/
theorem settles_readString : Settles readString str id := by
  intro d s h
  refine ⟨rfl, ?_⟩
  unfold readString at h
  split at h
  · cases h
    exact .refl _
  · cases h

/-- The entries of a core that was read from inside a draft are inside it again. -/
theorem inside_of_coreParts {c : NodeCore} (hr : r.Within d)
    (h : coreParts readCoreState r = .ok c) : ∀ e ∈ c.entries, (ofJson e.2).Inside d := by
  unfold coreParts at h
  simp only [Part.seq_eq_ok, Part.map_eq_ok] at h
  -- position, configuration and settings are more than texts, and settle on their own
  obtain ⟨_, control, ⟨_, state, ⟨_, parent, ⟨_, configuration, ⟨_, description, ⟨_, position,
    ⟨_, kind, ⟨_, name, ⟨id, -, rfl⟩, -, rfl⟩, -, rfl⟩, hPosition, rfl⟩, -, rfl⟩, hMap, rfl⟩,
    -, rfl⟩, -, rfl⟩, hControl, rfl⟩ := h
  obtain ⟨p, hp, hPosition⟩ := hr.of_field hPosition
  obtain ⟨m, hm, hMap⟩ := hr.of_field hMap
  obtain ⟨k, hk, hControl⟩ := hr.of_field hControl
  simp only [NodeCore.entries, List.forall_mem_cons]
  exact ⟨inside_str hr.depth _, inside_str hr.depth _, inside_str hr.depth _,
    (settles_readPosition p _ hPosition).2.inside hp,
    inside_ofOption hr.depth fun s _ => inside_str hr.depth s,
    (settles_readString.map m _ hMap).2.inside hm,
    inside_ofOption hr.depth fun s _ => inside_str hr.depth s, inside_str hr.depth _,
    (settles_readControl k _ hControl).2.inside hk, List.forall_mem_nil _⟩

section

variable {α β : Type} {names : List String} {own : Record → Snapshot.Part α}
  {build : NodeCore → α → β}

/-- A node is read from its own fields behind those of its core, if the names of the two differ.
-/
theorem readWithCore_ofJson {core : NodeCore} {fields : List (String × Json)} {a : α}
    (hOwn : own (.written (core.entries ++ fields)) = .ok a)
    (hCore : core.entries.all (·.1 ∉ names)) (hFields : fields.all (·.1 ∈ names)) :
    readWithCore names own build (ofJson (.obj (core.entries ++ fields))) = .ok (build core a) := by
  -- the core is read from what the node itself has no use for
  have hOthers : (core.entries ++ fields).filter (·.1 ∉ names) = core.entries := by
    rw [List.filter_append, List.filter_eq_self.mpr (List.all_eq_true.mp hCore),
      List.filter_eq_nil_iff.mpr fun e he => by simpa using List.all_eq_true.mp hFields e he,
      List.append_nil]
  refine bind_eq_ok.mpr ⟨a, ?_, bind_eq_ok.mpr ⟨core, ?_, rfl⟩⟩
  · show (Record.strict (.written _) names *> own (.written _)).result = _
    rw [Record.strict_written, hOwn]
    rfl
  · show (coreParts readCoreState ((Record.written _).others names)).result = _
    rw [Record.others_written, hOthers, coreParts_written]
    rfl

/-- What was read as a node was read from a record within the draft, and the entries of its core
are inside again. -/
theorem within_of_readWithCore {b : β} (h : readWithCore names own build d = .ok b) :
    ∃ (r : Record) (a : α) (core : NodeCore), r.Within d ∧ own r = .ok a ∧
      (∀ e ∈ core.entries, (ofJson e.2).Inside d) ∧ build core a = b := by
  unfold readWithCore at h
  split at h
  · next entries =>
    obtain ⟨a, ha, h⟩ := bind_eq_ok.mp h
    obtain ⟨core, hCore, h⟩ := bind_eq_ok.mp h
    cases h
    obtain ⟨-, ha⟩ := Part.seqRight_eq_ok.mp (Part.result_eq_ok.mp ha)
    -- the record is the object itself, so all in it is one level further in
    have hr : Record.Within ⟨entries, false⟩ (.obj entries) :=
      ⟨Nat.succ_pos _, fun e he => Draft.inside_obj he⟩
    exact ⟨_, a, core, hr, ha,
      inside_of_coreParts (hr.others names) (Part.result_eq_ok.mp hCore), rfl⟩
  · cases h

end

/-! ## Code nodes -/

/-- A code node is read as it was written, without what it has during a run. -/
theorem readCodeNode_toJson (c : CodeNode) : readCodeNode (ofJson c.toJson) = .ok c.kept := by
  have hKeys : (coreNames ++ ["input_ports", "output_ports"]).Nodup := by decide
  refine readWithCore_ofJson (a := (c.inputs.map Port.kept, c.outputs.map Port.kept)) ?_ rfl rfl
  refine Part.seq_of_ok (Part.map_of_ok ?_) ?_
  · exact Record.field_written hKeys rfl (readList_ofJson fun p _ => readPort_toJson p)
  · exact Record.field_written hKeys rfl (readList_ofJson fun p _ => readPort_toJson p)

/-- A code node that was read has nothing of a run, and settles as its ports do. -/
theorem settles_readCodeNode : Settles readCodeNode CodeNode.toJson CodeNode.kept := by
  intro d c h
  obtain ⟨r, _, core, hr, hOwn, hCore, rfl⟩ := within_of_readWithCore h
  simp only [Part.seq_eq_ok, Part.map_eq_ok] at hOwn
  obtain ⟨_, outputs, ⟨inputs, hInputs, rfl⟩, hOutputs, rfl⟩ := hOwn
  -- each part was read from a draft inside the object
  obtain ⟨i, hi, hInputs⟩ := hr.of_field hInputs
  obtain ⟨o, ho, hOutputs⟩ := hr.of_field hOutputs
  obtain ⟨hInputs, hInputsWritten⟩ := settles_readPort.list i inputs hInputs
  obtain ⟨hOutputs, hOutputsWritten⟩ := settles_readPort.list o outputs hOutputs
  constructor
  · simp only [CodeNode.kept, hInputs, hOutputs]
  · refine Draft.noWorse_ofEntries hr.depth (List.forall_mem_append.mpr ⟨hCore, ?_⟩)
    simp only [List.forall_mem_cons]
    exact ⟨hInputsWritten.inside hi, hOutputsWritten.inside ho, List.forall_mem_nil _⟩

/-! ## Containers -/

/-- Of a list of nodes, each is written on its own. -/
theorem Forest.toJson_eq_map (nodes : List Node) : Forest.toJson nodes = nodes.map Node.toJson := by
  induction nodes with
  | nil => rfl
  | cons n nodes ih => rw [Forest.toJson, ih, List.map_cons]

/-- The container with its children in JSON. -/
def Container.withJson (g : Container Node) : Container Json :=
  ⟨g.core, g.boundary, ⟨g.inside.nodes.map Node.toJson, g.inside.connections⟩⟩

/-- A container is written over its kind, with its children written before it. -/
theorem Node.toJson_graph (g : Container Node) :
    (Node.graph g).toJson = .obj [("Graph", g.withJson.toJson)] := by
  obtain ⟨core, boundary, nodes, connections⟩ := g
  rw [Node.toJson, Forest.toJson_eq_map]
  rfl

variable {read : Reader Node}

/-- A container is read as it was written, if its children are. -/
theorem readContainer_toJson (g : Container Node)
    (h : ∀ n ∈ g.inside.nodes, read (ofJson n.toJson) = .ok n.kept) :
    readContainer read (ofJson g.withJson.toJson) = .ok g.kept := by
  -- no field of a container is named like one of its core, so each is read back as it was written
  have hKeys : (coreNames ++ ["input_ports", "output_ports", "child_nodes",
    "internal_connections", "port_mappings"]).Nodup := by decide
  refine readWithCore_ofJson (a := (g.boundary.kept, g.kept.inside)) ?_ rfl rfl
  refine Part.seq_of_ok (a := g.boundary.mappings) (Part.seq_of_ok (a := g.inside.connections)
    (Part.seq_of_ok (a := g.inside.nodes.map Node.kept)
      (Part.seq_of_ok (a := g.boundary.kept.outputs)
        (Part.map_of_ok (a := g.boundary.kept.inputs) ?_) ?_) ?_) ?_) ?_
  · exact Record.field_written hKeys rfl (readList_ofJson fun p _ => readBoundaryPort_toJson p)
  · exact Record.field_written hKeys rfl (readList_ofJson fun p _ => readBoundaryPort_toJson p)
  · exact Record.field_written hKeys rfl (readList_ofJson h)
  · exact Record.field_written hKeys rfl (readList_ofJson_self readConnection_toJson)
  · exact Record.field_written hKeys rfl (readMap_ofJson _ readMapping_toJson)

/-- A container settles if its children do. -/
theorem settles_readContainer (hNodes : Settles read Node.toJson Node.kept) {g : Container Node}
    (h : readContainer read d = .ok g) : g.kept = g ∧ (ofJson g.withJson.toJson).NoWorse d := by
  obtain ⟨r, _, core, hr, hOwn, hCore, rfl⟩ := within_of_readWithCore h
  simp only [Part.seq_eq_ok, Part.map_eq_ok] at hOwn
  obtain ⟨_, mappings, ⟨_, connections, ⟨_, nodes, ⟨_, outputs, ⟨inputs, hInputs, rfl⟩, hOutputs,
    rfl⟩, hChildren, rfl⟩, hConnections, rfl⟩, hMappings, rfl⟩ := hOwn
  -- each part was read from a draft inside the object
  obtain ⟨i, hi, hInputs⟩ := hr.of_field hInputs
  obtain ⟨o, ho, hOutputs⟩ := hr.of_field hOutputs
  obtain ⟨n, hn, hChildren⟩ := hr.of_field hChildren
  obtain ⟨c, hc, hConnections⟩ := hr.of_field hConnections
  obtain ⟨m, hm, hMappings⟩ := hr.of_field hMappings
  obtain ⟨hInputs, hInputsWritten⟩ := settles_readBoundaryPort.list i inputs hInputs
  obtain ⟨hOutputs, hOutputsWritten⟩ := settles_readBoundaryPort.list o outputs hOutputs
  obtain ⟨hChildren, hChildrenWritten⟩ := hNodes.list n nodes hChildren
  obtain ⟨-, hConnectionsWritten⟩ := settles_readConnection.list c connections hConnections
  obtain ⟨-, hMappingsWritten⟩ := settles_readMapping.map m mappings hMappings
  -- what was read is kept as it is, and what is written is no deeper than the draft
  constructor
  · simp only [Container.kept, Boundary.kept, hInputs, hOutputs, hChildren]
  · refine Draft.noWorse_ofEntries hr.depth (List.forall_mem_append.mpr ⟨hCore, ?_⟩)
    simp only [List.forall_mem_cons]
    exact ⟨hInputsWritten.inside hi, hOutputsWritten.inside ho, hChildrenWritten.inside hn,
      hConnectionsWritten.inside hc, hMappingsWritten.inside hm, List.forall_mem_nil _⟩

/-! ## Nodes -/

/-- A child is written inside its container. -/
theorem inside_of_mem_nodes {g : Container Node} {n : Node} (h : n ∈ g.inside.nodes) :
    (ofJson n.toJson).Inside (ofJson (Node.graph g).toJson) := by
  have hChildren : (ofJson n.toJson).Inside (ofJson (.arr g.withJson.inside.nodes)) :=
    Draft.inside_ofItems (List.mem_map_of_mem h)
  have hContainer : (ofJson (.arr g.withJson.inside.nodes)).Inside (ofJson g.withJson.toJson) :=
    Draft.inside_ofEntries (e := ("child_nodes", _)) (List.mem_append_right _ (by simp))
  rw [Node.toJson_graph]
  exact hChildren.trans (hContainer.trans
    (Draft.inside_ofEntries (e := ("Graph", _)) List.mem_cons_self))

/-- One step more than the node nests is enough. -/
theorem readNodeWithin_toJson (n : Node) : ∀ fuel, (ofJson n.toJson).depth < fuel →
    readNodeWithin fuel (ofJson n.toJson) = .ok n.kept := by
  induction n using Node.induct with
  | code c =>
    intro fuel h
    obtain ⟨fuel, rfl⟩ : ∃ k, fuel = k + 1 := Nat.exists_eq_add_of_le' (by omega)
    show (do
      let n ← (readCodeNode (ofJson c.toJson)).map Node.code
      if ([] : List (Option String × Draft)).isEmpty then return n else .error .malformed) = _
    rw [readCodeNode_toJson]
    rfl
  | graph g ih =>
    intro fuel h
    obtain ⟨fuel, rfl⟩ : ∃ k, fuel = k + 1 := Nat.exists_eq_add_of_le' (by omega)
    -- a child nests less deep than its container, so one step less is enough
    have hNodes : ∀ n ∈ g.inside.nodes, readNodeWithin fuel (ofJson n.toJson) = .ok n.kept := by
      intro n hn
      have hInside := (inside_of_mem_nodes hn).depth
      exact ih n hn fuel (by omega)
    rw [Node.toJson_graph, Node.kept_graph]
    show (do
      let n ← (readContainer (readNodeWithin fuel) (ofJson g.withJson.toJson)).map Node.graph
      if ([] : List (Option String × Draft)).isEmpty then return n else .error .malformed) = _
    rw [readContainer_toJson g hNodes]
    rfl

/-- A node is read as it was written, as far as a snapshot keeps it. -/
theorem readNode_toJson (n : Node) : readNode (ofJson n.toJson) = .ok n.kept :=
  readNodeWithin_toJson n _ (Nat.lt_succ_self _)

/-- Nodes settle, in however many steps they were read. -/
theorem settles_readNodeWithin (fuel : Nat) :
    Settles (readNodeWithin fuel) Node.toJson Node.kept := by
  induction fuel with
  | zero =>
    intro d n h
    cases h
  | succ fuel ih =>
    -- the children of a container have been read in one step less
    intro d n h
    unfold readNodeWithin at h
    split at h
    · contradiction
    · next k kind e rest hFuel =>
      obtain rfl : fuel = k := by omega
      have hInside : e.Inside (.obj ((some kind, e) :: rest)) :=
        Draft.inside_obj (e := (some kind, e)) List.mem_cons_self
      -- the node is what the entry holds
      have hLast (m : Node) (h : (if rest.isEmpty then Except.ok m
          else Except.error ReadError.malformed) = Except.ok n) : m = n := by
        split at h
        · exact Except.ok.inj h
        · cases h
      dsimp only at h
      split at h
      · obtain ⟨m, hRead, h⟩ := bind_eq_ok.mp h
        obtain ⟨c, hc, rfl⟩ := FlowNest.map_eq_ok.mp hRead
        obtain rfl := hLast _ h
        obtain ⟨hKept, hWritten⟩ := settles_readCodeNode e c hc
        refine ⟨congrArg Node.code hKept, Draft.noWorse_ofEntries (Nat.succ_pos _) ?_⟩
        exact List.forall_mem_singleton.mpr (hWritten.inside hInside)
      · split at h
        · obtain ⟨m, hRead, h⟩ := bind_eq_ok.mp h
          obtain ⟨g, hg, rfl⟩ := FlowNest.map_eq_ok.mp hRead
          obtain rfl := hLast _ h
          obtain ⟨hKept, hWritten⟩ := settles_readContainer ih hg
          rw [Node.kept_graph, hKept, Node.toJson_graph]
          refine ⟨rfl, Draft.noWorse_ofEntries (Nat.succ_pos _) ?_⟩
          exact List.forall_mem_singleton.mpr (hWritten.inside hInside)
        · cases h
    · cases h

/-- A node that was read is kept as it is, and written no worse than it was found. -/
theorem settles_readNode : Settles readNode Node.toJson Node.kept :=
  fun d n h => settles_readNodeWithin _ d n h

/-! ## Graphs -/

/-- A graph is read as it was written, as far as a snapshot keeps it. -/
theorem readGraph_toJson (g : FlowGraph) : readGraph (ofJson g.toJson) = .ok g.kept := by
  have hKeys : ["id", "name", "version", "root_nodes", "connections", "metadata",
    "target_platforms"].Nodup := by decide
  refine readRecord_ofJson _ (Part.seq_of_ok (a := g.platforms) (Part.seq_of_ok (a := g.metadata)
    (Part.seq_of_ok (a := g.root.connections) (Part.seq_of_ok (a := Forest.kept g.root.nodes)
      (Part.seq_of_ok (a := g.version) (Part.seq_of_ok (a := g.name)
        (Part.map_of_ok (a := g.id) ?_) ?_) ?_) ?_) ?_) ?_) ?_)
  · exact Record.field_written hKeys rfl rfl
  · exact Record.field_written hKeys rfl rfl
  · exact Record.field_written hKeys rfl rfl
  · rw [Forest.kept_eq_map]
    refine Record.field_written hKeys (j := .arr (g.root.nodes.map Node.toJson)) ?_
      (readList_ofJson fun n _ => readNode_toJson n)
    -- the writer goes down the forest by its own recursion, which is a map over the roots
    rw [← Forest.toJson_eq_map]
    rfl
  · exact Record.field_written hKeys rfl (readList_ofJson_self readConnection_toJson)
  · exact Record.field_written hKeys rfl (readMap_ofJson _ fun _ => rfl)
  · exact Record.field_written hKeys rfl (readList_ofJson_self fun _ => rfl)

/-- A graph that was read is kept as it is, and written no worse than it was found. -/
theorem settles_readGraph : Settles readGraph FlowGraph.toJson FlowGraph.kept := by
  intro d g h
  obtain ⟨r, hr, h⟩ := within_of_readRecord h
  simp only [Part.seq_eq_ok, Part.map_eq_ok] at h
  obtain ⟨_, platforms, ⟨_, metadata, ⟨_, connections, ⟨_, nodes, ⟨_, version, ⟨_, name,
    ⟨id, -, rfl⟩, -, rfl⟩, -, rfl⟩, hNodes, rfl⟩, hConnections, rfl⟩, hMetadata, rfl⟩,
    hPlatforms, rfl⟩ := h
  obtain ⟨n, hn, hNodes⟩ := hr.of_field hNodes
  obtain ⟨c, hc, hConnections⟩ := hr.of_field hConnections
  obtain ⟨m, hm, hMetadata⟩ := hr.of_field hMetadata
  obtain ⟨p, hp, hPlatforms⟩ := hr.of_field hPlatforms
  obtain ⟨hNodes, hNodesWritten⟩ := settles_readNode.list n nodes hNodes
  obtain ⟨-, hConnectionsWritten⟩ := settles_readConnection.list c connections hConnections
  obtain ⟨-, hMetadataWritten⟩ := settles_readString.map m metadata hMetadata
  obtain ⟨-, hPlatformsWritten⟩ := settles_readString.list p platforms hPlatforms
  -- keeping drops default values of ports and what a run leaves, so it changes the nodes only
  constructor
  · simp only [FlowGraph.kept, FlowGraph.withNodes, Forest.kept_eq_map, hNodes]
  · refine Draft.noWorse_ofEntries hr.depth ?_
    simp only [List.forall_mem_cons, Forest.toJson_eq_map]
    exact ⟨inside_str hr.depth _, inside_str hr.depth _, inside_str hr.depth _,
      hNodesWritten.inside hn, hConnectionsWritten.inside hc, hMetadataWritten.inside hm,
      hPlatformsWritten.inside hp, List.forall_mem_nil _⟩

end FlowNest
