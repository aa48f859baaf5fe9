import FlowNest.Node

/-!
# FlowNest — walking and editing forests of nodes

The nodes of a scope, with all that their containers hold, are a forest. Every
walk goes through it in the same order, a node before its children and a
container's children before the next node. Ids need not be unique: each walk
takes the first node with the id, and all walks take the same one.

* `Forest.preorder`  — all nodes in that order;
* `Forest.find?`     — the first node with an id;
* `Forest.scopeOf?`  — the scope it stands in;
* `Forest.update?`   — the forest with that node replaced.
-/

namespace FlowNest

/-! ## All nodes -/

mutual

/-- A node, then all below it. -/
def Node.preorder : Node → List Node
  | .code c => [.code c]
  | .graph ⟨core, boundary, ⟨nodes, connections⟩⟩ =>
    .graph ⟨core, boundary, ⟨nodes, connections⟩⟩ :: Forest.preorder nodes

def Forest.preorder : List Node → List Node
  | [] => []
  | n :: rest => n.preorder ++ Forest.preorder rest

end

/-- The ids of all nodes below a container. -/
def Container.descendantIds (g : Container Node) : List String :=
  (Forest.preorder g.inside.nodes).map (·.id)

/-! ## Search -/

mutual

/-- The first node with the id, among a node and all below it. -/
def Node.find? (id : String) : Node → Option Node
  | .code c => if c.core.id = id then some (.code c) else none
  | .graph ⟨core, boundary, ⟨nodes, connections⟩⟩ =>
    if core.id = id then some (.graph ⟨core, boundary, ⟨nodes, connections⟩⟩)
    else Forest.find? id nodes

def Forest.find? (id : String) : List Node → Option Node
  | [] => none
  | n :: rest =>
    match n.find? id with
    | some found => some found
    | none => Forest.find? id rest

end

mutual

/-- The scope of the first node with the id, for a node that stands in `scope`. -/
def Node.scopeOf? (id : String) (scope : ScopeId) : Node → Option ScopeId
  | .code c => if c.core.id = id then some scope else none
  | .graph ⟨core, _, ⟨nodes, _⟩⟩ =>
    if core.id = id then some scope else Forest.scopeOf? id (some core.id) nodes

def Forest.scopeOf? (id : String) (scope : ScopeId) : List Node → Option ScopeId
  | [] => none
  | n :: rest =>
    match n.scopeOf? id scope with
    | some found => some found
    | none => Forest.scopeOf? id scope rest

end

/-! ## Replacement -/

mutual

/-- Replaces the first node with the id by its image; `none` if there is none. -/
def Node.update? (id : String) (f : Node → Node) : Node → Option Node
  | .code c => if c.core.id = id then some (f (.code c)) else none
  | .graph ⟨core, boundary, ⟨nodes, connections⟩⟩ =>
    if core.id = id then some (f (.graph ⟨core, boundary, ⟨nodes, connections⟩⟩))
    else (Forest.update? id f nodes).map fun nodes =>
      .graph ⟨core, boundary, ⟨nodes, connections⟩⟩

def Forest.update? (id : String) (f : Node → Node) : List Node → Option (List Node)
  | [] => none
  | n :: rest =>
    match n.update? id f with
    | some updated => some (updated :: rest)
    | none => (Forest.update? id f rest).map (n :: ·)

end

/-! ## Containers -/

/-- In pre-order a container comes before all that is inside. -/
theorem Node.preorder_graph (g : Container Node) :
    (Node.graph g).preorder = .graph g :: Forest.preorder g.inside.nodes := by
  obtain ⟨core, boundary, nodes, connections⟩ := g
  rfl

/-- A container is found before anything inside it. -/
theorem Node.find?_graph (id : String) (g : Container Node) :
    (Node.graph g).find? id =
      if g.core.id = id then some (.graph g) else Forest.find? id g.inside.nodes := by
  obtain ⟨core, boundary, nodes, connections⟩ := g
  rfl

/-- What is not the container itself is in its scope, or deeper. -/
theorem Node.scopeOf?_graph (id : String) (scope : ScopeId) (g : Container Node) :
    (Node.graph g).scopeOf? id scope =
      if g.core.id = id then some scope
      else Forest.scopeOf? id (some g.core.id) g.inside.nodes := by
  obtain ⟨core, boundary, nodes, connections⟩ := g
  rfl

/-- A container is replaced itself, or else the first node of that id inside. -/
theorem Node.update?_graph (id : String) (f : Node → Node) (g : Container Node) :
    (Node.graph g).update? id f =
      if g.core.id = id then some (f (.graph g))
      else (Forest.update? id f g.inside.nodes).map fun nodes =>
        .graph { g with inside := { g.inside with nodes } } := by
  obtain ⟨core, boundary, nodes, connections⟩ := g
  rfl

/-! ## Membership -/

mutual

/-- Only what is there is found. -/
theorem Node.mem_preorder_of_find? {id : String} {m : Node} :
    ∀ n : Node, n.find? id = some m → m ∈ n.preorder
  | .code c, h => by
    simp only [Node.find?] at h
    split at h <;> simp_all [Node.preorder]
  | .graph ⟨core, boundary, ⟨nodes, connections⟩⟩, h => by
    simp only [Node.find?] at h
    split at h
    · simp_all [Node.preorder]
    · exact List.mem_cons_of_mem _ (Forest.mem_preorder_of_find? nodes h)

/-- Only what is in one of the trees is found in them. -/
theorem Forest.mem_preorder_of_find? {id : String} {m : Node} :
    ∀ nodes : List Node, Forest.find? id nodes = some m → m ∈ Forest.preorder nodes
  | [], h => by cases h
  | n :: rest, h => by
    simp only [Forest.find?] at h
    refine List.mem_append.2 ?_
    split at h
    · next found hfound => cases h; exact .inl (Node.mem_preorder_of_find? n hfound)
    · exact .inr (Forest.mem_preorder_of_find? rest h)

end

/-- A node is the first one of its own tree. -/
theorem Node.mem_preorder_self (n : Node) : n ∈ n.preorder := by
  cases n with
  | code c => simp [Node.preorder]
  | graph g => simp [Node.preorder_graph]

/-- The roots are among all nodes. -/
theorem Forest.mem_preorder_of_mem {n : Node} :
    ∀ {nodes : List Node}, n ∈ nodes → n ∈ Forest.preorder nodes
  | m :: rest, h => by
    refine List.mem_append.2 ?_
    rcases List.mem_cons.1 h with rfl | h
    · exact .inl n.mem_preorder_self
    · exact .inr (Forest.mem_preorder_of_mem h)

mutual

/-- With a container, its children are among the nodes. -/
theorem Node.mem_preorder_child {g : Container Node} {child : Node}
    (hchild : child ∈ g.inside.nodes) :
    ∀ n : Node, .graph g ∈ n.preorder → child ∈ n.preorder
  | .code c, h => by simp [Node.preorder] at h
  | .graph ⟨core, boundary, ⟨nodes, connections⟩⟩, h => by
    refine List.mem_cons_of_mem _ ?_
    rcases List.mem_cons.1 h with h | h
    · cases h; exact Forest.mem_preorder_of_mem hchild
    · exact Forest.mem_preorder_child hchild nodes h

/-- A container that is there brings its children with it. -/
theorem Forest.mem_preorder_child {g : Container Node} {child : Node}
    (hchild : child ∈ g.inside.nodes) :
    ∀ nodes : List Node, .graph g ∈ Forest.preorder nodes → child ∈ Forest.preorder nodes
  | [], h => by cases h
  | n :: rest, h => by
    refine List.mem_append.2 ?_
    rcases List.mem_append.1 h with h | h
    · exact .inl (Node.mem_preorder_child hchild n h)
    · exact .inr (Forest.mem_preorder_child hchild rest h)

end

end FlowNest
