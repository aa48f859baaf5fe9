import FlowNest.Proofs.Walks

/-!
# FlowNest — edits of the nodes with an id

Replacement looks for the first node with an id, edits it and leaves the others. Where no
two nodes have one id there are no others: replacement is then an edit of each tree by
itself, which comes to the node with the id wherever it stands.

* `Node.editAt`               — edits each node of a tree that has the id;
* `Node.editAt_comm`          — edits at two ids may be made in any order;
* `Forest.update?_eq_editAt`  — replacement is such an edit, where ids are unique;
* `FlowGraph.update?_eq_some` — so it is in a graph.
-/

namespace FlowNest

/-- The scope with its nodes edited. -/
def Scope.mapNodes (φ : Node → Node) (s : Scope Node) : Scope Node :=
  { s with nodes := s.nodes.map φ }

/-- The container with the nodes inside edited. -/
def Container.mapInside (φ : Node → Node) (c : Container Node) : Container Node :=
  { c with inside := c.inside.mapNodes φ }

/-- The node with the nodes inside of it edited, if it is a container. -/
def Node.mapInside (φ : Node → Node) : Node → Node
  | .code c => .code c
  | .graph c => .graph (c.mapInside φ)

@[simp] theorem Node.core_mapInside (φ : Node → Node) (n : Node) :
    (n.mapInside φ).core = n.core := by
  cases n <;> rfl

mutual

/-- Edits the nodes with the id, and leaves alone what is below them. -/
def Node.editAt (id : String) (f : Node → Node) : Node → Node
  | .code c => if c.core.id = id then f (.code c) else .code c
  | .graph ⟨core, boundary, ⟨nodes, connections⟩⟩ =>
    if core.id = id then f (.graph ⟨core, boundary, ⟨nodes, connections⟩⟩)
    else .graph ⟨core, boundary, ⟨Forest.editAt id f nodes, connections⟩⟩

def Forest.editAt (id : String) (f : Node → Node) : List Node → List Node
  | [] => []
  | n :: rest => n.editAt id f :: Forest.editAt id f rest

end

section EditAt

variable {id : String} {f : Node → Node}

/-- Of a list of nodes, each is searched for the id on its own. -/
theorem Forest.editAt_eq_map (nodes : List Node) :
    Forest.editAt id f nodes = nodes.map (·.editAt id f) := by
  induction nodes with
  | nil => rfl
  | cons n rest ih => rw [Forest.editAt, ih, List.map_cons]

/-- A node with the id is edited itself. -/
theorem Node.editAt_self {n : Node} (h : n.id = id) : n.editAt id f = f n := by
  cases n with
  | code c => exact if_pos h
  | graph c => exact if_pos h

/-- A code node with another id is left alone. -/
theorem Node.editAt_code {c : CodeNode} (h : c.core.id ≠ id) :
    (Node.code c).editAt id f = .code c :=
  if_neg h

/-- A container with another id is searched inside. -/
theorem Node.editAt_graph {c : Container Node} (h : c.core.id ≠ id) :
    (Node.graph c).editAt id f = .graph (c.mapInside (·.editAt id f)) := by
  obtain ⟨core, boundary, nodes, connections⟩ := c
  rw [editAt, if_neg h, Forest.editAt_eq_map]
  rfl

/-- A scope is left alone where all nodes are. -/
theorem Scope.mapNodes_eq_self {φ : Node → Node} {s : Scope Node} (h : ∀ n ∈ s.nodes, φ n = n) :
    s.mapNodes φ = s := by
  rw [mapNodes, List.map_congr_left h, List.map_id']

/-- What is edited of a node with another id is below it. -/
theorem Node.editAt_of_ne {n : Node} (h : n.id ≠ id) :
    n.editAt id f = n.mapInside (·.editAt id f) := by
  cases n with
  | code c => exact editAt_code h
  | graph c => exact editAt_graph h

/-- A tree without the id is left alone. -/
theorem Node.editAt_eq_self {n : Node} (h : ∀ m ∈ n.preorder, m.id ≠ id) : n.editAt id f = n := by
  induction n using Node.induct with
  | code c => exact editAt_code (h _ (Node.mem_preorder_self _))
  | graph c ih =>
    rw [editAt_graph (h _ (Node.mem_preorder_self _)), Container.mapInside,
      Scope.mapNodes_eq_self]
    exact fun n hn => ih n hn fun m hm => h m (mem_preorder_of_child hn hm)

/-- Where no node has the id nothing is edited. -/
theorem Forest.editAt_eq_self {nodes : List Node} (h : ∀ m ∈ Forest.preorder nodes, m.id ≠ id) :
    Forest.editAt id f nodes = nodes := by
  rw [editAt_eq_map, List.map_congr_left (g := fun n => n), List.map_id']
  exact fun n hn => Node.editAt_eq_self fun m hm => h m (mem_preorder_of_tree hn hm)

end EditAt

/-! ## Edits at two ids -/

section TwoEdits

variable {a b : String} {f h : Node → Node} (hIds : a ≠ b)

include hIds

/-- Edits at two ids commute at a node with one of them, if its own edit commutes with the one
below it. -/
theorem Node.editAt_editAt_of_id {n : Node} (hId : n.id = a) (hEdited : (f n).id = a)
    (hBelow : f (n.mapInside (·.editAt b h)) = (f n).mapInside (·.editAt b h)) :
    (n.editAt a f).editAt b h = (n.editAt b h).editAt a f := by
  have hOther : n.id ≠ b := hId ▸ hIds
  have hOther' : (f n).id ≠ b := hEdited ▸ hIds
  have hStays : (n.mapInside (·.editAt b h)).id = a := by rw [id, core_mapInside]; exact hId
  rw [editAt_self hId, editAt_of_ne hOther', editAt_of_ne hOther, editAt_self hStays, hBelow]

/-- Edits of the nodes with two ids may be made in any order, if what becomes of a node with
either id does not depend on when the nodes inside are edited. -/
theorem Node.editAt_comm
    (hf : ∀ n : Node, n.id = a → (f n).id = a ∧
      f (n.mapInside (·.editAt b h)) = (f n).mapInside (·.editAt b h))
    (hh : ∀ n : Node, n.id = b → (h n).id = b ∧
      h (n.mapInside (·.editAt a f)) = (h n).mapInside (·.editAt a f)) (n : Node) :
    (n.editAt a f).editAt b h = (n.editAt b h).editAt a f := by
  have hEither : ∀ m : Node, m.id = a ∨ m.id = b →
      (m.editAt a f).editAt b h = (m.editAt b h).editAt a f := by
    rintro m (ha | hb)
    · exact editAt_editAt_of_id hIds ha (hf m ha).1 (hf m ha).2
    · exact (editAt_editAt_of_id hIds.symm hb (hh m hb).1 (hh m hb).2).symm
  induction n using induct with
  | code c =>
    by_cases hId : c.core.id = a ∨ c.core.id = b
    · exact hEither _ hId
    obtain ⟨ha, hb⟩ := not_or.mp hId
    rw [editAt_code ha, editAt_code hb, editAt_code ha]
  | graph c ih =>
    by_cases hId : c.core.id = a ∨ c.core.id = b
    · exact hEither _ hId
    obtain ⟨ha, hb⟩ := not_or.mp hId
    -- neither edit is made here, so both go on to the nodes inside
    have hInside : (c.inside.nodes.map (·.editAt a f)).map (·.editAt b h) =
        (c.inside.nodes.map (·.editAt b h)).map (·.editAt a f) := by
      rw [List.map_map, List.map_map]
      exact List.map_congr_left ih
    rw [editAt_graph ha, editAt_graph hb, editAt_graph (c := c.mapInside _) hb,
      editAt_graph (c := c.mapInside _) ha]
    exact congrArg (fun nodes => Node.graph { c with inside := { c.inside with nodes } }) hInside

end TwoEdits

/-! ## Replacement -/

section Replacement

variable {id : String} {f : Node → Node}

mutual

/-- With unique ids, to replace the first node of an id is to edit the node at that id. -/
theorem Node.update?_eq_editAt :
    ∀ {n n' : Node}, (n.preorder.map (·.id)).Nodup → n.update? id f = some n' →
      n' = n.editAt id f
  | .code c, n', _, h => by
    obtain ⟨hId, h⟩ := Option.ite_none_right_eq_some.mp h
    cases h
    exact (Node.editAt_self (n := .code c) hId).symm
  | .graph ⟨core, boundary, ⟨nodes, connections⟩⟩, n', hIds, h => by
    rw [Node.update?] at h
    rw [Node.editAt]
    split at h
    · next hId =>
      cases h
      rw [if_pos hId]
    · next hId =>
      obtain ⟨nodes', hNodes, rfl⟩ := Option.map_eq_some_iff.mp h
      -- ids are unique below as well, where the node to edit now is
      rw [Node.preorder, List.map_cons] at hIds
      rw [if_neg hId, Forest.update?_eq_editAt (List.nodup_cons.mp hIds).2 hNodes]

/-- Where ids are unique, replacement edits the nodes with the id. -/
theorem Forest.update?_eq_editAt :
    ∀ {nodes nodes' : List Node}, ((Forest.preorder nodes).map (·.id)).Nodup →
      Forest.update? id f nodes = some nodes' → nodes' = Forest.editAt id f nodes
  | [], _, _, h => by cases h
  | n :: rest, nodes', hIds, h => by
    rw [Forest.preorder, List.map_append] at hIds
    obtain ⟨hFirst, hRest, hApart⟩ := List.nodup_append.mp hIds
    rw [Forest.update?] at h
    rw [Forest.editAt]
    split at h
    · next n' hn =>
      cases h
      -- the node is in the first tree, so no other tree has the id
      have hSome : (n.find? id).isSome := by rw [← Node.isSome_update? id f, hn]; rfl
      obtain ⟨m, hm⟩ := Option.isSome_iff_exists.mp hSome
      have hId := Node.id_of_find? hm
      have hOther : ∀ k ∈ Forest.preorder rest, k.id ≠ id := by
        intro k hk hSame
        exact hApart m.id (List.mem_map_of_mem (Node.mem_preorder_of_find? n hm)) k.id
          (List.mem_map_of_mem hk) (hId.trans hSame.symm)
      rw [Node.update?_eq_editAt hFirst hn, Forest.editAt_eq_self hOther]
    · next hn =>
      obtain ⟨rest', hRest', rfl⟩ := Option.map_eq_some_iff.mp h
      have hNone : n.find? id = none := by
        rw [← Option.not_isSome_iff_eq_none, ← Node.isSome_update? id f, hn]
        simp
      have hOther : ∀ k ∈ n.preorder, k.id ≠ id := by
        rw [Node.find?_eq_preorder, List.find?_eq_none] at hNone
        simpa using hNone
      rw [Node.editAt_eq_self hOther, Forest.update?_eq_editAt hRest hRest']

end

end Replacement

/-- A node that is there is edited in its place. -/
theorem FlowGraph.update?_eq_some {g : FlowGraph} (hUnique : g.UniqueIds) {id : String} {n : Node}
    (hFind : g.find? id = some n) (f : Node → Node) :
    g.update? id f = some (g.withNodes (Forest.editAt id f g.root.nodes)) := by
  have hSome : (Forest.update? id f g.root.nodes).isSome := by
    rw [Forest.isSome_update?]
    exact Option.isSome_of_eq_some hFind
  obtain ⟨nodes, hNodes⟩ := Option.isSome_iff_exists.mp hSome
  rw [update?, hNodes, Forest.update?_eq_editAt hUnique hNodes]
  rfl

end FlowNest
