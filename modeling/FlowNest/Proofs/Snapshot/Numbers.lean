import FlowNest.Proofs.Snapshot.Graphs
import FlowNest.Proofs.Walks

/-!
# FlowNest — the numbers in a snapshot

Positions are finite, and settings and capacities are machine words, so all that a graph is
written with are numbers that JSON has, as long as the defaults of its ports keep to those.

* `FlowGraph.HasExactDefaults` — the defaults of all ports do;
* `FlowGraph.exact_toJson`     — then so does the whole graph.
-/

namespace FlowNest

open FlowNest.Json.Draft (ofJson)

namespace Json

/-- An array can be written exactly when its items can. -/
theorem exact_arr {items : List Json} :
    (ofJson (.arr items)).Exact ↔ ∀ j ∈ items, (ofJson j).Exact := by
  rw [ofJson, Draft.ofItems_eq_map]
  exact Draft.exactItems_iff.trans List.forall_mem_map

/-- An object can be written exactly when its values can. -/
theorem exact_obj {entries : List (String × Json)} :
    (ofJson (.obj entries)).Exact ↔ ∀ e ∈ entries, (ofJson e.2).Exact := by
  rw [ofJson, Draft.ofEntries_eq_map]
  exact Draft.exactEntries_iff.trans List.forall_mem_map

section

variable {α : Type} {f : α → Json}

/-- What is written item by item can be written if each item can. -/
theorem exact_map {items : List α} (h : ∀ a ∈ items, (ofJson (f a)).Exact) :
    (ofJson (.arr (items.map f))).Exact :=
  exact_arr.mpr (List.forall_mem_map.mpr h)

/-- A map can be written if its values can; its keys are texts. -/
theorem exact_ofMap {m : StringMap α} (h : ∀ a, (ofJson (f a)).Exact) :
    (ofJson (.ofMap f m)).Exact :=
  exact_obj.mpr (List.forall_mem_map.mpr fun e _ => h e.2)

/-- What may be missing can be written if it can where it is there. -/
theorem exact_ofOption {a : Option α}
    (h : ∀ b ∈ a, (ofJson (f b)).Exact) : (ofJson (.ofOption f a)).Exact := by
  cases a with
  | none => trivial
  | some b => exact h b rfl

end

/-- A natural number below the bound of 64 bits can be written. -/
theorem exact_ofNat {n : Nat} (h : n < UInt64.size) : (ofJson (.ofNat n)).Exact := by
  change -(_ : Int) ≤ (n : Int) ∧ (n : Int) < _
  omega

end Json

open Json

/-! ## Fields -/

/-- The coordinates of a position are finite, by its own check. -/
theorem Position.exact_toJson (p : Position) : (ofJson p.toJson).Exact := by
  have hAxes := p.onCanvas
  unfold onAxis at hAxes
  simp only [Bool.and_eq_true] at hAxes
  refine exact_obj.mpr ?_
  simp only [List.forall_mem_cons]
  exact ⟨hAxes.1.1, hAxes.2.1, List.forall_mem_nil _⟩

/-- The numbers in settings are machine words. -/
theorem ControlConfig.exact_toJson (c : ControlConfig) : (ofJson c.toJson).Exact := by
  have hSize := c.pauseBufferSize.toNat_lt_size
  refine exact_obj.mpr ?_
  simp only [List.forall_mem_cons]
  exact ⟨exact_ofNat (Nat.lt_trans hSize (by decide)),
    exact_ofNat c.speedAttenuationMs.toNat_lt_size, trivial, trivial, List.forall_mem_nil _⟩

/-- A port has no numbers but in its default. -/
theorem Port.exact_toJson {p : Port} (h : ∀ c ∈ p.defaultValue, (ofJson c.json).Exact) :
    (ofJson p.toJson).Exact := by
  refine exact_obj.mpr ?_
  simp only [List.forall_mem_cons]
  exact ⟨trivial, trivial, trivial, trivial, trivial, exact_ofOption h, trivial,
    List.forall_mem_nil _⟩

/-- A boundary port has no numbers but in its port. -/
theorem BoundaryPort.exact_toJson {p : BoundaryPort}
    (h : ∀ c ∈ p.port.defaultValue, (ofJson c.json).Exact) : (ofJson p.toJson).Exact := by
  refine exact_obj.mpr ?_
  simp only [List.forall_mem_cons]
  exact ⟨Port.exact_toJson h, trivial, trivial, trivial, trivial, List.forall_mem_nil _⟩

/-- A mapping has no numbers at all. -/
theorem PortMapping.exact_toJson (m : PortMapping) : (ofJson m.toJson).Exact :=
  ⟨trivial, trivial, trivial⟩

/-- The only number of a connection is its capacity, a machine word. -/
theorem Connection.exact_toJson (c : Connection) : (ofJson c.toJson).Exact := by
  refine exact_obj.mpr ?_
  simp only [List.forall_mem_cons]
  exact ⟨trivial, trivial, trivial, trivial, trivial, exact_ofNat c.capacity.toNat_lt_size,
    exact_ofOption fun _ _ => trivial, exact_ofOption fun _ _ => trivial, List.forall_mem_nil _⟩

/-- The numbers in a core are those of its position and of its settings. -/
theorem NodeCore.exact_entries (c : NodeCore) : ∀ e ∈ c.entries, (ofJson e.2).Exact := by
  simp only [NodeCore.entries, List.forall_mem_cons]
  exact ⟨trivial, trivial, trivial, c.position.exact_toJson, exact_ofOption fun _ _ => trivial,
    exact_ofMap fun _ => trivial, exact_ofOption fun _ _ => trivial, trivial,
    c.control.exact_toJson, List.forall_mem_nil _⟩

/-! ## Nodes -/

/-- The numbers in the defaults of the node's own ports are such as JSON has. -/
def Node.HasExactDefaults (n : Node) : Prop :=
  ∀ p ∈ n.ports, ∀ c ∈ p.defaultValue, (ofJson c.json).Exact

instance : DecidablePred Node.HasExactDefaults := fun n =>
  inferInstanceAs (Decidable (∀ p ∈ n.ports, ∀ c ∈ p.defaultValue, (ofJson c.json).Exact))

/-- A code node can be written if the defaults of its ports can. -/
theorem CodeNode.exact_toJson {c : CodeNode} (h : (Node.code c).HasExactDefaults) :
    (ofJson c.toJson).Exact := by
  obtain ⟨hInputs, hOutputs⟩ := List.forall_mem_append.mp h
  refine exact_obj.mpr (List.forall_mem_append.mpr ⟨c.core.exact_entries, ?_⟩)
  simp only [List.forall_mem_cons]
  exact ⟨exact_map fun p hp => Port.exact_toJson (hInputs p hp),
    exact_map fun p hp => Port.exact_toJson (hOutputs p hp), List.forall_mem_nil _⟩

/-- A container can be written if the defaults of its boundary ports can, and all its children. -/
theorem Container.exact_toJson {g : Container Node} (h : (Node.graph g).HasExactDefaults)
    (hNodes : ∀ n ∈ g.inside.nodes, (ofJson n.toJson).Exact) :
    (ofJson g.withJson.toJson).Exact := by
  obtain ⟨hInputs, hOutputs⟩ := List.forall_mem_append.mp h
  refine exact_obj.mpr (List.forall_mem_append.mpr ⟨g.core.exact_entries, ?_⟩)
  simp only [List.forall_mem_cons]
  -- the ports of a container are those that its boundary ports bridge to
  refine ⟨exact_map fun p hp => BoundaryPort.exact_toJson ?_,
    exact_map fun p hp => BoundaryPort.exact_toJson ?_, exact_map hNodes,
    exact_map fun c _ => c.exact_toJson, exact_ofMap PortMapping.exact_toJson,
    List.forall_mem_nil _⟩
  · exact hInputs p.port (List.mem_map_of_mem hp)
  · exact hOutputs p.port (List.mem_map_of_mem hp)

/-- A node can be written if this holds of the defaults of all nodes in it. -/
theorem Node.exact_toJson (n : Node) (h : ∀ m ∈ n.preorder, m.HasExactDefaults) :
    (ofJson n.toJson).Exact := by
  induction n using Node.induct with
  | code c => exact ⟨CodeNode.exact_toJson (h _ (Node.mem_preorder_self _)), trivial⟩
  | graph g ih =>
    rw [Node.preorder_graph] at h
    obtain ⟨hSelf, hBelow⟩ := List.forall_mem_cons.mp h
    rw [Node.toJson_graph]
    refine ⟨Container.exact_toJson hSelf fun n hn => ih n hn fun m hm => hBelow m ?_, trivial⟩
    exact Forest.mem_preorder_of_tree hn hm

/-! ## Graphs -/

namespace FlowGraph

/-- The numbers in the defaults of all ports, boundary ports included, are such as JSON has:
whole ones of 64 bits and finite ones. -/
def HasExactDefaults (g : FlowGraph) : Prop :=
  ∀ n ∈ g.allNodes, n.HasExactDefaults

instance : DecidablePred HasExactDefaults := fun g =>
  inferInstanceAs (Decidable (∀ n ∈ g.allNodes, n.HasExactDefaults))

/-- All numbers that a graph is written with are such as JSON has. -/
theorem exact_toJson {g : FlowGraph} (h : g.HasExactDefaults) : (ofJson g.toJson).Exact := by
  refine exact_obj.mpr ?_
  simp only [List.forall_mem_cons, Forest.toJson_eq_map]
  refine ⟨trivial, trivial, trivial, exact_map fun n hn => n.exact_toJson fun m hm => ?_,
    exact_map fun c _ => c.exact_toJson, exact_ofMap fun _ => trivial,
    exact_map fun _ _ => trivial, List.forall_mem_nil _⟩
  exact h m (Forest.mem_preorder_of_tree hn hm)

end FlowGraph

end FlowNest
