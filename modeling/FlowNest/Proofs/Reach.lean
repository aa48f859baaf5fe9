import FlowNest.Controller
import FlowNest.Proofs.Control
import FlowNest.Proofs.Walks

/-!
# FlowNest — how far a push reaches

A push that starts from a node reaches the node itself, independent or not. From a
container it reaches the children that are not independent, and goes on from there. What
it reaches is edited, and all the rest stays.

* `Node.Reaches`              — a push from one node reaches another;
* `Node.push_mem_preorder`    — each node that is reached stands, edited, in the tree
  that was pushed to;
* `Node.reached_or_mem_of_mem_push` — and what else stands there stood there before;
* `FlowGraph.find?_withState` — what becomes of the node with an id in a graph that is
  given a command.
-/

namespace FlowNest

/-- A push from the first node reaches the second. -/
inductive Node.Reaches : Node → Node → Prop where
  | self (n : Node) : n.Reaches n
  | child {g : Container Node} {n m : Node} (hChild : n ∈ g.inside.nodes)
      (hDependent : n.independent = false) (hReaches : n.Reaches m) : (Node.graph g).Reaches m

/-- What a push reaches is in the tree. -/
theorem Node.Reaches.mem_preorder {n m : Node} (h : n.Reaches m) : m ∈ n.preorder := by
  induction h with
  | self n => exact n.mem_preorder_self
  | child hChild _ _ ih => exact mem_preorder_of_child hChild ih

/-! ## Pushes -/

variable {f : NodeCore → NodeCore}

/-- A push goes through a container to the children that are not independent. -/
theorem Node.push_graph (g : Container Node) :
    (Node.graph g).push f =
      .graph { g with core := f g.core, inside :=
        { g.inside with nodes := Forest.push f g.inside.nodes } } := by
  obtain ⟨core, boundary, nodes, connections⟩ := g
  rfl

/-- A push edits the core at the top. -/
theorem Node.core_push (n : Node) : (n.push f).core = f n.core := by
  cases n with
  | code c => rfl
  | graph g => rw [push_graph]; rfl

/-- A container passes a push on to its children, one by one. -/
theorem Forest.push_eq_map (nodes : List Node) :
    Forest.push f nodes = nodes.map fun n => if n.independent then n else n.push f := by
  induction nodes with
  | nil => rfl
  | cons n rest ih => rw [Forest.push, List.map_cons, ih]

/-- A state that is given with propagation is pushed. -/
theorem Node.withState_eq_push (n : Node) (state : ExecutionState) :
    n.withState state true = n.push fun core => { core with state } := by
  cases n with
  | code c => rfl
  | graph g => rw [push_graph]; rfl

/-- What a push reaches is edited where it stands. -/
theorem Node.push_mem_preorder {n m : Node} (h : n.Reaches m) : m.push f ∈ (n.push f).preorder := by
  induction h with
  | self n => exact (n.push f).mem_preorder_self
  | @child g n m hChild hDependent _ ih =>
    rw [push_graph]
    refine mem_preorder_of_child ?_ ih
    rw [Forest.push_eq_map]
    exact List.mem_map.mpr ⟨n, hChild, by rw [hDependent]; rfl⟩

/-- What stands in a tree after a push was reached and edited, or stood there before. -/
theorem Node.reached_or_mem_of_mem_push {m' : Node} (n : Node) (h : m' ∈ (n.push f).preorder) :
    (∃ m, n.Reaches m ∧ m' = m.push f) ∨ m' ∈ n.preorder := by
  induction n using Node.induct with
  | code c => exact .inl ⟨.code c, .self _, List.mem_singleton.mp h⟩
  | graph g ih =>
    rw [push_graph, preorder_graph] at h
    rcases List.mem_cons.mp h with rfl | h
    · exact .inl ⟨.graph g, .self _, (push_graph g).symm⟩
    · rw [Forest.push_eq_map] at h
      obtain ⟨k, hk, hm'⟩ := Forest.mem_preorder_iff.mp h
      obtain ⟨child, hChild, rfl⟩ := List.mem_map.mp hk
      -- an independent child is left as it was, with all below it
      cases hIndependent : child.independent with
      | true =>
        rw [hIndependent] at hm'
        exact .inr (mem_preorder_of_child hChild hm')
      | false =>
        rw [hIndependent] at hm'
        rcases ih child hChild hm' with ⟨m, hReaches, rfl⟩ | hm
        · exact .inl ⟨m, .child hChild hIndependent hReaches, rfl⟩
        · exact .inr (mem_preorder_of_child hChild hm)

/-! ## Graphs -/

namespace FlowGraph

variable {g : FlowGraph}

/-- A command to a graph reaches the node: it stands at the root, or neither it nor a
node around it is independent, but for the one at the root. -/
def Reaches (g : FlowGraph) (n : Node) : Prop :=
  ∃ root ∈ g.root.nodes, root.Reaches n

/-- What a push to the roots reaches is in the graph. -/
theorem Reaches.mem_allNodes {n : Node} (h : g.Reaches n) : n ∈ g.allNodes := by
  obtain ⟨root, hRoot, hReaches⟩ := h
  exact Forest.mem_preorder_of_tree hRoot hReaches.mem_preorder

/-- After a command the nodes are those of the roots, pushed. -/
theorem allNodes_withState (g : FlowGraph) (state : ExecutionState) :
    (g.withState state).allNodes =
      g.root.nodes.flatMap fun root => (root.push fun core => { core with state }).preorder := by
  show Forest.preorder (g.root.nodes.map _) = _
  rw [Forest.preorder_eq_flatMap, List.flatMap_map]
  exact List.flatMap_congr fun root _ => by rw [Node.withState_eq_push]

/-- A command changes no id. -/
theorem map_id_withState (g : FlowGraph) (state : ExecutionState) :
    (g.withState state).allNodes.map (·.id) = g.allNodes.map (·.id) := by
  have hOutlines := outlines_of_atRest (g.atRest_withState state)
  rw [← map_id_outlines, hOutlines, map_id_outlines]

/-- A command keeps ids unique. -/
theorem UniqueIds.withState (hUnique : g.UniqueIds) (state : ExecutionState) :
    (g.withState state).UniqueIds := by
  rw [UniqueIds, map_id_withState]
  exact hUnique

/-- With a command, the node of an id takes its state if it is reached, and stays as it
is if not. -/
theorem find?_withState (hUnique : g.UniqueIds) (state : ExecutionState) {id : String} {n : Node}
    (hFind : g.find? id = some n) :
    (g.Reaches n ∧ (g.withState state).find? id =
      some (n.push fun core => { core with state })) ∨
    (¬ g.Reaches n ∧ (g.withState state).find? id = some n) := by
  have hUnique' := hUnique.withState state
  obtain ⟨hMem, rfl⟩ := (find?_eq_some_iff hUnique).mp hFind
  by_cases hReached : g.Reaches n
  · refine .inl ⟨hReached, (find?_eq_some_iff hUnique').mpr ⟨?_, ?_⟩⟩
    · obtain ⟨root, hRoot, hReaches⟩ := hReached
      rw [allNodes_withState]
      exact List.mem_flatMap.mpr ⟨root, hRoot, Node.push_mem_preorder hReaches⟩
    · rw [Node.id, Node.core_push, Node.id]
  · refine .inr ⟨hReached, ?_⟩
    -- the ids are the same, so there is a node with this one, and it was not reached either
    have hId : n.id ∈ (g.withState state).allNodes.map (·.id) := by
      rw [map_id_withState]
      exact List.mem_map.mpr ⟨n, hMem, rfl⟩
    obtain ⟨n', hMem', hId'⟩ := List.mem_map.mp hId
    have hSame : n' = n := by
      have hPlace := hMem'
      rw [allNodes_withState] at hPlace
      obtain ⟨root, hRoot, hn'⟩ := List.mem_flatMap.mp hPlace
      rcases Node.reached_or_mem_of_mem_push root hn' with ⟨m, hReaches, rfl⟩ | hOld
      · have hm : g.Reaches m := ⟨root, hRoot, hReaches⟩
        have hIdm : m.id = n.id := by
          rw [← hId', Node.id, Node.id, Node.core_push]
        exact absurd (hUnique.eq_of_id_eq hm.mem_allNodes hMem hIdm ▸ hm) hReached
      · exact hUnique.eq_of_id_eq (Forest.mem_preorder_of_tree hRoot hOld) hMem hId'
    exact (find?_eq_some_iff hUnique').mpr ⟨hSame ▸ hMem', rfl⟩

end FlowGraph

end FlowNest
