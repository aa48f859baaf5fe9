import Mathlib.Data.List.Find
import FlowNest.Proofs.EditAt
import FlowNest.Proofs.Rules

/-!
# FlowNest — removing a node

To remove a node is to *prune* its id: everywhere in the graph the nodes with the id go,
with all below them, and the connections that touch them. In a valid graph only the scope
of the node has anything to lose, so all scopes beside it stay as they are.

What is left is valid unless a container lost what it needs: its only child, or one that
its boundary leads to.

* `Node.prune`                       — a tree without the nodes of an id;
* `FlowGraph.Sound.removeNode_eq`    — removal from a valid graph prunes it;
* `FlowGraph.Sheds`                  — what a graph is without one of its nodes;
* `Container.sound_prune_iff`        — the containers that can spare a child;
* `FlowGraph.removeNode_outcome`     — what removal leaves, and when that is valid.
-/

namespace FlowNest

/-! ## Pruning -/

mutual

/-- The tree without the nodes of the id below its top, and without the connections that
touch them. -/
def Node.prune (id : String) : Node → Node
  | .code c => .code c
  | .graph ⟨core, boundary, ⟨nodes, connections⟩⟩ =>
    .graph ⟨core, boundary, ⟨Forest.prune id nodes, connections.filter (!·.touches id)⟩⟩

def Forest.prune (id : String) : List Node → List Node
  | [] => []
  | n :: rest => if n.id = id then Forest.prune id rest else n.prune id :: Forest.prune id rest

end

/-- The scope without the nodes of the id, at any depth. -/
def Scope.prune (id : String) (s : Scope Node) : Scope Node :=
  (s.without id).mapNodes (·.prune id)

def Container.prune (id : String) (c : Container Node) : Container Node :=
  { c with inside := c.inside.prune id }

def FlowGraph.prune (id : String) (g : FlowGraph) : FlowGraph :=
  { g with root := g.root.prune id }

section Prune

variable {id : String}

theorem Forest.prune_eq_map (nodes : List Node) :
    Forest.prune id nodes = (nodes.filter (·.id ≠ id)).map (·.prune id) := by
  induction nodes with
  | nil => rfl
  | cons n rest ih =>
    rw [Forest.prune, ih, List.filter_cons]
    by_cases hId : n.id = id <;> simp [hId]

theorem Node.prune_graph (c : Container Node) : (Node.graph c).prune id = .graph (c.prune id) := by
  obtain ⟨core, boundary, nodes, connections⟩ := c
  rw [prune, Forest.prune_eq_map]
  rfl

theorem Node.face_prune (n : Node) : (n.prune id).face = n.face := by
  cases n with
  | code c => rfl
  | graph c => rw [prune_graph]; rfl

@[simp] theorem Node.id_prune (n : Node) : (n.prune id).id = n.id :=
  congrArg Face.id n.face_prune

theorem Node.graph?_prune (n : Node) : (n.prune id).graph? = n.graph?.map (Container.prune id) := by
  cases n with
  | code c => rfl
  | graph c => rw [prune_graph]; rfl

theorem Node.Proper.prune {n : Node} (h : n.Proper) : (n.prune id).Proper := by
  cases n with
  | code c => exact h
  | graph c =>
    rw [prune_graph]
    exact ⟨h.id, h.name, h.kind, h.ports, h.owned, h.names⟩

/-! ## All nodes of a pruned forest -/

mutual

theorem Node.preorder_prune_of_absent :
    ∀ n : Node, (∀ m ∈ n.preorder, m.id ≠ id) → (n.prune id).preorder = n.preorder.map (·.prune id)
  | .code c, _ => rfl
  | .graph ⟨core, boundary, ⟨nodes, connections⟩⟩, h => by
    rw [Node.preorder, List.map_cons, Node.prune, Node.preorder,
      Forest.preorder_prune_of_absent nodes fun m hm => h m (List.mem_cons_of_mem _ hm)]

/-- Where no node has the id, none is lost. -/
theorem Forest.preorder_prune_of_absent :
    ∀ nodes : List Node, (∀ m ∈ Forest.preorder nodes, m.id ≠ id) →
      Forest.preorder (Forest.prune id nodes) = (Forest.preorder nodes).map (·.prune id)
  | [], _ => rfl
  | n :: rest, h => by
    rw [Forest.preorder, List.forall_mem_append] at h
    rw [Forest.prune, if_neg (h.1 n n.mem_preorder_self), Forest.preorder, Forest.preorder,
      List.map_append, Node.preorder_prune_of_absent n h.1,
      Forest.preorder_prune_of_absent rest h.2]

end

/-- Of two lists of nodes without a common id only one has nodes of the id. -/
theorem ne_of_nodup_append {l r : List Node} (hIds : ((l ++ r).map (·.id)).Nodup) {n : Node}
    (hId : n.id = id) : (n ∈ l → ∀ m ∈ r, m.id ≠ id) ∧ (n ∈ r → ∀ m ∈ l, m.id ≠ id) := by
  rw [List.map_append] at hIds
  have hApart := (List.nodup_append.mp hIds).2.2
  constructor
  · intro hn m hm hSame
    exact hApart n.id (List.mem_map_of_mem hn) m.id (List.mem_map_of_mem hm) (hId.trans hSame.symm)
  · intro hn m hm hSame
    exact hApart m.id (List.mem_map_of_mem hm) n.id (List.mem_map_of_mem hn) (hSame.trans hId.symm)

mutual

theorem Node.preorder_prune {n : Node} :
    ∀ top : Node, (top.preorder.map (·.id)).Nodup → top.id ≠ id → top.find? id = some n →
      ∃ before after, top.preorder = before ++ n.preorder ++ after ∧
        (top.prune id).preorder = (before ++ after).map (·.prune id)
  | .code c, _, hTop, h => by
    obtain ⟨hId, -⟩ := Option.ite_none_right_eq_some.mp h
    exact (hTop hId).elim
  | .graph ⟨core, boundary, ⟨nodes, connections⟩⟩, hIds, hTop, h => by
    rw [Node.find?, if_neg (show core.id ≠ id from hTop)] at h
    rw [Node.preorder, List.map_cons] at hIds
    -- the node is below, so the top stays in front
    obtain ⟨before, after, hBefore, hAfter⟩ :=
      Forest.preorder_prune nodes (List.nodup_cons.mp hIds).2 h
    refine ⟨.graph ⟨core, boundary, ⟨nodes, connections⟩⟩ :: before, after, ?_, ?_⟩
    · rw [Node.preorder, hBefore]
      rfl
    · rw [Node.prune, Node.preorder, hAfter, List.cons_append, List.map_cons, Node.prune]

/-- Where ids are unique, a forest loses one stretch of its nodes: the node that is found by
the id, with all below it. -/
theorem Forest.preorder_prune {n : Node} :
    ∀ nodes : List Node, ((Forest.preorder nodes).map (·.id)).Nodup →
      Forest.find? id nodes = some n →
      ∃ before after, Forest.preorder nodes = before ++ n.preorder ++ after ∧
        Forest.preorder (Forest.prune id nodes) = (before ++ after).map (·.prune id)
  | [], _, h => by cases h
  | first :: rest, hIds, h => by
    have hId := Forest.id_of_find? h
    have hApart := ne_of_nodup_append (l := first.preorder) (r := Forest.preorder rest) hIds hId
    rw [Forest.preorder, List.map_append] at hIds
    rw [Forest.find?] at h
    rw [Forest.preorder, Forest.prune]
    split at h
    · next found hFound =>
      cases h
      have hOther := hApart.1 (Node.mem_preorder_of_find? first hFound)
      have hRest := Forest.preorder_prune_of_absent rest hOther
      split
      -- the first tree is that of the node
      · next hFirst =>
        obtain rfl := Option.some.inj ((Node.find?_self hFirst).symm.trans hFound)
        exact ⟨[], Forest.preorder rest, rfl, hRest⟩
      -- or has it below
      · next hFirst =>
        obtain ⟨before, after, hBefore, hAfter⟩ :=
          Node.preorder_prune first (List.nodup_append.mp hIds).1 hFirst hFound
        refine ⟨before, after ++ Forest.preorder rest, ?_, ?_⟩
        · rw [hBefore, List.append_assoc]
        · rw [Forest.preorder, hAfter, hRest, ← List.map_append, List.append_assoc]
    · next hNone =>
      -- it is in the rest, and the first tree stays
      obtain ⟨before, after, hBefore, hAfter⟩ :=
        Forest.preorder_prune rest (List.nodup_append.mp hIds).2.1 h
      have hOther := hApart.2 (Forest.mem_preorder_of_find? rest h)
      refine ⟨first.preorder ++ before, after, ?_, ?_⟩
      · rw [hBefore]
        simp only [List.append_assoc]
      · rw [if_neg (hOther first first.mem_preorder_self), Forest.preorder,
          Node.preorder_prune_of_absent first hOther, hAfter, ← List.map_append, List.append_assoc]

end

/-! ## Looking into what is left -/

namespace Scope

variable {s : Scope Node}

/-- Nodes of other ids are found as before. -/
theorem find?_face_prune {k : String} (hk : k ≠ id) :
    ((s.prune id).nodes.map Node.face).find? (·.id = k) =
      (s.nodes.map Node.face).find? (·.id = k) := by
  have hFaces : (s.prune id).nodes.map Node.face =
      (s.nodes.filter (·.id ≠ id)).map Node.face := by
    show ((s.nodes.filter (·.id ≠ id)).map (·.prune id)).map Node.face = _
    rw [List.map_map]
    exact List.map_congr_left fun n _ => n.face_prune
  rw [hFaces, List.find?_map, List.find?_map, List.find?_filter]
  refine congrArg (Option.map Node.face) (List.find?_congr fun n _ => ?_)
  by_cases hId : n.id = k <;> simp [hId, hk]

theorem isSome_node?_prune {k : String} (hk : k ≠ id) :
    ((s.prune id).node? k).isSome = (s.node? k).isSome := by
  rw [← Option.isSome_map (f := Node.face), node?_face, find?_face_prune hk, ← node?_face,
    Option.isSome_map]

theorem port?_prune {e : Endpoint} (he : e.node ≠ id) : (s.prune id).port? e = s.port? e := by
  rw [port?_eq_face, port?_eq_face, find?_face_prune he]

/-- A connection stays that neither starts nor ends at the node. -/
theorem without_eq : s.without id = ⟨s.nodes.filter (·.id ≠ id),
    s.connections.filter fun x => x.source.node ≠ id ∧ x.target.node ≠ id⟩ := by
  rw [without, Scope.mk.injEq]
  refine ⟨rfl, List.filter_congr fun x _ => ?_⟩
  simp [Connection.touches]

theorem without_eq_self (hNodes : ∀ n ∈ s.nodes, n.id ≠ id)
    (hConnections : ∀ x ∈ s.connections, x.source.node ≠ id ∧ x.target.node ≠ id) :
    s.without id = s := by
  have hKept : s.nodes.filter (·.id ≠ id) = s.nodes :=
    List.filter_eq_self.mpr fun n hn => by simpa using hNodes n hn
  have hUntouched : (s.connections.filter fun x => x.source.node ≠ id ∧ x.target.node ≠ id) =
      s.connections :=
    List.filter_eq_self.mpr fun x hx => by simpa using hConnections x hx
  rw [without_eq, hKept, hUntouched]

end Scope

namespace Container

variable {c : Container Node}

theorem mapped?_prune {name : String} {m : PortMapping} (hm : m.child ≠ id) :
    (c.prune id).mapped? name m = c.mapped? name m := by
  rw [mapped?_eq_face, mapped?_eq_face]
  exact congrArg (Option.bind · _) (Scope.find?_face_prune hm)

theorem mapped?_prune_self {name : String} {m : PortMapping} (hm : m.child = id) :
    (c.prune id).mapped? name m = none := by
  have hGone : (c.prune id).inside.node? m.child = none := by
    refine List.find?_eq_none.mpr fun n hn => ?_
    obtain ⟨k, hk, rfl⟩ := List.mem_map.mp hn
    rw [hm, Node.id_prune]
    simpa using (List.mem_filter.mp hk).2
  rw [mapped?, hGone]
  rfl

/-- What keeps a container valid without a child: it has another one, and maps no name to
the one it loses. -/
structure Spares (c : Container Node) (id : String) : Prop where
  other : ∃ n ∈ c.inside.nodes, n.id ≠ id
  unmapped : ∀ (name : String) (m : PortMapping), c.boundary.mappings[name]? = some m → m.child ≠ id

theorem Sound.prune (h : c.Sound) (hSpares : c.Spares id) : (c.prune id).Sound where
  children := by
    -- another child is left
    obtain ⟨n, hn, hId⟩ := hSpares.other
    refine List.ne_nil_of_mem (a := n.prune id) (List.mem_map_of_mem ?_)
    exact List.mem_filter.mpr ⟨hn, by simpa using hId⟩
  parents := by
    intro n hn
    obtain ⟨k, hk, rfl⟩ := List.mem_map.mp hn
    have hParent : (k.prune id).core.parent = k.core.parent := congrArg Face.parent k.face_prune
    rw [hParent]
    exact h.parents k (List.mem_of_mem_filter hk)
  mappings := by
    intro name m hm
    -- no mapping leads to the child that goes
    rw [mapped?_prune (hSpares.unmapped name m hm)]
    exact h.mappings name m hm
  mapped := h.mapped
  connections := by
    intro x hx
    obtain ⟨hMem, hUntouched⟩ := List.mem_filter.mp hx
    -- a connection that stays has both ends on children that stay
    obtain ⟨hSource, hTarget⟩ : x.source.node ≠ id ∧ x.target.node ≠ id := by
      simpa [Connection.touches] using hUntouched
    have hKeeps := h.connections x hMem
    refine ⟨?_, ?_, hKeeps.alone, ?_⟩
    · exact (Scope.isSome_node?_prune hSource).trans hKeeps.source
    · exact (Scope.isSome_node?_prune hTarget).trans hKeeps.target
    · intro p q hp hq
      exact hKeeps.joins p q ((Scope.port?_prune hSource).symm.trans hp)
        ((Scope.port?_prune hTarget).symm.trans hq)

theorem Sound.spares_of_prune (h : (c.prune id).Sound) : c.Spares id where
  other := by
    obtain ⟨n, hn⟩ := List.exists_mem_of_ne_nil _ h.children
    obtain ⟨k, hk, -⟩ := List.mem_map.mp hn
    obtain ⟨hMem, hId⟩ := List.mem_filter.mp hk
    exact ⟨k, hMem, by simpa using hId⟩
  unmapped := by
    intro name m hm hChild
    -- a mapping to the child would lead nowhere
    have hSome := h.mappings name m hm
    rw [mapped?_prune_self hChild] at hSome
    cases hSome

end Container

/-! ## Scopes with nothing to lose -/

/-- Pruning changes nothing in a tree whose containers have nothing to lose. -/
theorem Node.prune_eq_self {n : Node}
    (h : ∀ c : Container Node, .graph c ∈ n.preorder → c.inside.without id = c.inside) :
    n.prune id = n := by
  induction n using Node.induct with
  | code c => rfl
  | graph c ih =>
    have hSame : c.inside.prune id = c.inside := by
      rw [Scope.prune, h c (mem_preorder_self _)]
      refine Scope.mapNodes_eq_self fun n hn => ih n hn fun k hk => ?_
      exact h k (mem_preorder_of_child hn hk)
    rw [prune_graph, Container.prune, hSame]

namespace FlowGraph.Sound

variable {g : FlowGraph} {scope other : ScopeId} {s : Scope Node}

/-- In a valid graph a scope without the node has no connection that touches it. -/
theorem without_eq_self (h : g.Sound) (hScope : g.scope? other = some s)
    (hContent : ∀ n ∈ s.nodes, n.id ≠ id) : s.without id = s := by
  refine Scope.without_eq_self hContent fun x hx => ?_
  obtain ⟨hSource, hTarget⟩ := h.isSome_node? hScope hx
  exact ⟨ne_of_node? hContent hSource, ne_of_node? hContent hTarget⟩

variable (h : g.Sound) (hPlace : g.scopeOf? id = some scope)

include h hPlace

/-- The node stands in no other scope. -/
theorem id_ne_of_ne (hScope : g.scope? other = some s) (hOther : other ≠ scope) :
    ∀ n ∈ s.nodes, n.id ≠ id := by
  intro n hn hId
  have hHere := (scopeOf?_eq_some_iff h.unique).mpr ⟨s, n, hScope, hn, hId⟩
  exact hOther (Option.some.inj (hHere.symm.trans hPlace))

theorem without_of_ne (hScope : g.scope? other = some s) (hOther : other ≠ scope) :
    s.without id = s :=
  h.without_eq_self hScope (h.id_ne_of_ne hPlace hScope hOther)

/-- A tree that does not have the scope of the node in it stays. -/
theorem prune_eq_self {n : Node} (hn : n ∈ g.allNodes)
    (hApart : ∀ c : Container Node, .graph c ∈ n.preorder → some c.core.id ≠ scope) :
    n.prune id = n := by
  refine Node.prune_eq_self fun c hc => ?_
  have hMem : .graph c ∈ g.allNodes := (Forest.preorder_sublist _ hn).subset hc
  exact h.without_of_ne hPlace (h.unique.scope?_inside hMem) (hApart c hc)

/-- Nothing of the scope's other nodes is lost. -/
theorem prune_scope (hScope : g.scope? scope = some s) : s.prune id = s.without id := by
  refine Scope.mapNodes_eq_self fun n hn => ?_
  have hMem := List.mem_of_mem_filter hn
  refine h.prune_eq_self hPlace (mem_allNodes_of_scope? hScope hMem) fun c hc => ?_
  exact (h.unique.scope_ne_of_mem_preorder hScope hMem _ hc).symm

/-- An edit of the container that the node stands in prunes each tree of the graph. -/
theorem editAt_eq_prune {e : Container Node} (he : .graph e ∈ g.allNodes)
    (hOuter : scope = some e.core.id) {n : Node} (hn : n ∈ g.allNodes) :
    (n.editAt e.core.id fun _ => .graph { e with inside := e.inside.without id }) = n.prune id := by
  induction n using Node.induct with
  | code c =>
    refine Node.editAt_code fun hId => ?_
    cases h.unique.eq_of_id_eq hn he hId
  | graph c ih =>
    rw [Node.prune_graph]
    by_cases hId : c.core.id = e.core.id
    · cases h.unique.eq_of_id_eq hn he hId
      -- here the node itself is taken out
      have hHere := h.prune_scope hPlace (hOuter ▸ h.unique.scope?_inside he)
      rw [Container.prune, hHere]
      exact Node.editAt_self rfl
    -- elsewhere there is nothing to take out
    · have hThere : c.inside.without id = c.inside := by
        refine h.without_of_ne hPlace (h.unique.scope?_inside hn) ?_
        rw [hOuter]
        exact fun hSame => hId (Option.some.inj hSame)
      rw [Node.editAt_graph hId, Container.prune, Scope.prune, hThere]
      refine congrArg (fun nodes => Node.graph { c with inside := { c.inside with nodes } }) ?_
      exact List.map_congr_left fun n hChild => ih n hChild (mem_allNodes_of_mem_inside hn hChild)

/-- Removal from a valid graph prunes it. -/
theorem removeNode_eq : g.removeNode id = g.prune id := by
  obtain ⟨s, n, hScope, hn, hId⟩ := (scopeOf?_eq_some_iff h.unique).mp hPlace
  have hRemove : g.removeNode id = (g.withScope? scope (s.without id)).getD g := by
    rw [removeNode, hPlace, Option.bind_eq_bind, Option.bind_some, hScope]
    rfl
  rw [hRemove, prune]
  cases scope with
  | none =>
    cases hScope
    rw [h.prune_scope hPlace rfl]
    rfl
  | some outer =>
    obtain ⟨e, he, rfl⟩ := Option.map_eq_some_iff.mp hScope
    obtain ⟨heMem, rfl⟩ := (container?_eq_some_iff h.unique).mp he
    -- the node is in a container, so the root loses nothing by itself
    have hRoot : g.root.without id = g.root :=
      h.without_of_ne hPlace rfl (Option.some_ne_none _).symm
    have hEdit := update?_eq_some h.unique (container?_eq_find?.mp he)
      fun _ => .graph { e with inside := e.inside.without id }
    have hNodes : Forest.editAt e.core.id
        (fun _ => .graph { e with inside := e.inside.without id }) g.root.nodes =
        g.root.nodes.map (·.prune id) := by
      rw [Forest.editAt_eq_map]
      refine List.map_congr_left fun m hm => ?_
      exact h.editAt_eq_prune hPlace heMem rfl (Forest.mem_preorder_of_mem hm)
    rw [withScope?, he, Option.bind_eq_bind, Option.bind_some, putContainer?]
    show (g.update? e.core.id _).getD g = _
    rw [hEdit, hNodes, Scope.prune, hRoot]
    rfl

end FlowGraph.Sound

end Prune

/-! ## Removal -/

namespace FlowGraph

/-- What `k` is to `g` without the node `n`, which stood in `scope`. Of all nodes those of the
tree of `n` are gone, and of the others only the ones around `n` have changed. The scope lost
`n` and the connections that touch it, and no other scope lost a connection. -/
structure Sheds (g k : FlowGraph) (n : Node) (scope : ScopeId) : Prop where
  nodes : ∃ before after, g.allNodes = before ++ n.preorder ++ after ∧
    k.allNodes = (before ++ after).map (·.prune n.id)
  beside : ∀ m ∈ g.allNodes, n ∉ m.preorder → m.prune n.id = m
  here : ∃ s, g.scope? scope = some s ∧
    k.scope? scope = some ⟨s.nodes.filter (·.id ≠ n.id),
      s.connections.filter fun x => x.source.node ≠ n.id ∧ x.target.node ≠ n.id⟩
  others : ∀ other, other ≠ scope → (∀ m ∈ n.preorder, other ≠ some m.id) →
    k.scope? other = (g.scope? other).map (·.mapNodes (·.prune n.id))
  rest : k = { g with root := k.root }

variable {g : FlowGraph} {n : Node} {scope other : ScopeId}

/-- Pruning takes the tree of the node out of the list of all nodes. -/
theorem allNodes_prune (hUnique : g.UniqueIds) (hn : n ∈ g.allNodes) :
    ∃ before after, g.allNodes = before ++ n.preorder ++ after ∧
      (g.prune n.id).allNodes = (before ++ after).map (·.prune n.id) := by
  have hFind : Forest.find? n.id g.root.nodes = some n := (find?_eq_some_iff hUnique).mpr ⟨hn, rfl⟩
  obtain ⟨before, after, hBefore, hAfter⟩ := Forest.preorder_prune g.root.nodes hUnique hFind
  refine ⟨before, after, hBefore, ?_⟩
  rw [← hAfter, Forest.prune_eq_map]
  rfl

/-- What is left are nodes that were there, pruned. -/
theorem exists_of_mem_prune (hUnique : g.UniqueIds) (hn : n ∈ g.allNodes) {m : Node}
    (hm : m ∈ (g.prune n.id).allNodes) : ∃ k ∈ g.allNodes, k.prune n.id = m := by
  obtain ⟨before, after, hBefore, hAfter⟩ := allNodes_prune hUnique hn
  rw [hAfter] at hm
  obtain ⟨k, hk, rfl⟩ := List.mem_map.mp hm
  refine ⟨k, ?_, rfl⟩
  rw [hBefore]
  rcases List.mem_append.mp hk with hk | hk
  · exact List.mem_append_left _ (List.mem_append_left _ hk)
  · exact List.mem_append_right _ hk

theorem UniqueIds.prune (hUnique : g.UniqueIds) (hn : n ∈ g.allNodes) :
    (g.prune n.id).UniqueIds := by
  obtain ⟨before, after, hBefore, hAfter⟩ := allNodes_prune hUnique hn
  have hIds : (g.prune n.id).allNodes.map (·.id) = (before ++ after).map (·.id) := by
    rw [hAfter, List.map_map]
    exact List.map_congr_left fun m _ => m.id_prune
  have hLess : List.Sublist (before ++ after) (before ++ n.preorder ++ after) :=
    (List.sublist_append_left before _).append (List.Sublist.refl after)
  rw [UniqueIds, hIds]
  exact hUnique.sublist (hBefore ▸ hLess.map _)

/-- The nodes that are left are found by their ids. -/
theorem find?_prune (hUnique : g.UniqueIds) (hn : n ∈ g.allNodes) {k : String}
    (hk : ∀ m ∈ n.preorder, m.id ≠ k) :
    (g.prune n.id).find? k = (g.find? k).map (·.prune n.id) := by
  obtain ⟨before, after, hBefore, hAfter⟩ := allNodes_prune hUnique hn
  -- what is looked for is not in the subtree that goes
  have hGone : n.preorder.find? (·.id = k) = none := by simpa using hk
  have hLeft : (g.prune n.id).find? k =
      ((before ++ after).map (·.prune n.id)).find? (·.id = k) := by
    rw [find?, Forest.find?_eq_preorder]
    exact congrArg _ hAfter
  have hAll : g.find? k = (before ++ n.preorder ++ after).find? (·.id = k) := by
    rw [find?, Forest.find?_eq_preorder]
    exact congrArg _ hBefore
  rw [hLeft, hAll, List.find?_map, List.find?_append, List.find?_append, List.find?_append, hGone,
    Option.or_none]
  simp only [Function.comp_def, Node.id_prune]

theorem scope?_prune (hUnique : g.UniqueIds) (hn : n ∈ g.allNodes)
    (hOther : ∀ m ∈ n.preorder, other ≠ some m.id) :
    (g.prune n.id).scope? other = (g.scope? other).map (·.prune n.id) := by
  cases other with
  | none => rfl
  | some k =>
    -- a scope that stays is not one in the subtree that goes
    have hk : ∀ m ∈ n.preorder, m.id ≠ k := fun m hm hSame => hOther m hm (congrArg some hSame.symm)
    rw [scope?, scope?, container?, container?, find?_prune hUnique hn hk]
    cases g.find? k with
    | none => rfl
    | some m =>
      simp only [Option.map_some, Option.bind_some, Node.graph?_prune, Option.map_map]
      rfl

namespace Sound

theorem sheds_prune (h : g.Sound) (hn : n ∈ g.allNodes) (hPlace : g.scopeOf? n.id = some scope) :
    g.Sheds (g.prune n.id) n scope where
  nodes := allNodes_prune h.unique hn
  beside := by
    intro m hm hApart
    refine h.prune_eq_self hPlace hm ?_
    rintro c hc rfl
    -- a container that has the node in it has its tree in it
    have hcMem : .graph c ∈ g.allNodes := (Forest.preorder_sublist _ hm).subset hc
    obtain ⟨s, n', hScope, hn', hId⟩ := (scopeOf?_eq_some_iff h.unique).mp hPlace
    rw [h.unique.scope?_inside hcMem] at hScope
    cases hScope
    obtain rfl := h.unique.eq_of_id_eq (mem_allNodes_of_mem_inside hcMem hn') hn hId
    exact hApart (Node.mem_preorder_child hn' m hc)
  here := by
    obtain ⟨s, n', hScope, hn', hId⟩ := (scopeOf?_eq_some_iff h.unique).mp hPlace
    obtain rfl := h.unique.eq_of_id_eq (mem_allNodes_of_scope? hScope hn') hn hId
    have hNot := h.unique.scope_ne_of_mem_preorder hScope hn'
    refine ⟨s, hScope, ?_⟩
    rw [scope?_prune h.unique hn hNot, hScope, Option.map_some, h.prune_scope hPlace hScope,
      Scope.without_eq]
  others := by
    intro other hOther hNot
    rw [scope?_prune h.unique hn hNot]
    cases hScope : g.scope? other with
    | none => rfl
    | some s =>
      rw [Option.map_some, Option.map_some, Scope.prune, h.without_of_ne hPlace hScope hOther]
  rest := rfl

/-- A container in whose scope the node does not stand can do without it. -/
theorem spares_of_ne (h : g.Sound) (hPlace : g.scopeOf? n.id = some scope) {c : Container Node}
    (hc : .graph c ∈ g.allNodes) (hOther : some c.core.id ≠ scope) : c.Spares n.id where
  other := by
    obtain ⟨m, hm⟩ := List.exists_mem_of_ne_nil _ (h.containers c hc).children
    exact ⟨m, hm, h.id_ne_of_ne hPlace (h.unique.scope?_inside hc) hOther m hm⟩
  unmapped := by
    intro name m hm
    obtain ⟨p, hp⟩ := Option.isSome_iff_exists.mp ((h.containers c hc).mappings name m hm)
    obtain ⟨child, hChild, -⟩ := Option.bind_eq_some_iff.mp hp
    exact ne_of_node? (h.id_ne_of_ne hPlace (h.unique.scope?_inside hc) hOther)
      (Option.isSome_of_eq_some hChild)

/-- A graph whose containers can all do without the node is valid without it. -/
theorem prune (h : g.Sound) (hn : n ∈ g.allNodes)
    (hSpares : ∀ c : Container Node, .graph c ∈ g.allNodes → c.Spares n.id) :
    (g.prune n.id).Sound := by
  refine ⟨h.id, h.name, h.unique.prune hn, ?_, ?_, ?_, ?_⟩
  · intro m hm
    obtain ⟨k, hk, rfl⟩ := List.mem_map.mp hm
    have hParent : (k.prune n.id).core.parent = k.core.parent := congrArg Face.parent k.face_prune
    rw [hParent]
    exact h.parents k (List.mem_of_mem_filter hk)
  · intro x hx
    obtain ⟨hMem, hUntouched⟩ := List.mem_filter.mp hx
    -- a connection that stays has both ends on nodes that stay
    obtain ⟨hSource, hTarget⟩ : x.source.node ≠ n.id ∧ x.target.node ≠ n.id := by
      simpa [Connection.touches] using hUntouched
    obtain ⟨hScope, p, q, hp, hq, hIssues⟩ := h.connections x hMem
    exact ⟨hScope, p, q, (Scope.port?_prune hSource).trans hp,
      (Scope.port?_prune hTarget).trans hq, hIssues⟩
  · intro m hm
    obtain ⟨k, hk, rfl⟩ := exists_of_mem_prune h.unique hn hm
    exact (h.nodes k hk).prune
  · intro c hc
    obtain ⟨k, hk, hSame⟩ := exists_of_mem_prune h.unique hn hc
    cases k with
    | code k => cases hSame
    | graph k =>
      rw [Node.prune_graph] at hSame
      cases hSame
      exact (h.containers k hk).prune (hSpares k hk)

/-- Valid without the node is the graph of which the container around it, if there is one,
can do without it. -/
theorem sound_prune_iff (h : g.Sound) (hn : n ∈ g.allNodes)
    (hPlace : g.scopeOf? n.id = some scope) :
    (g.prune n.id).Sound ↔
      scope = none ∨
        ∃ outer e, scope = some outer ∧ g.container? outer = some e ∧ e.Spares n.id := by
  constructor
  · intro hLeft
    cases scope with
    | none => exact .inl rfl
    | some outer =>
      obtain ⟨s, n', hScope, hn', hId⟩ := (scopeOf?_eq_some_iff h.unique).mp hPlace
      obtain rfl := h.unique.eq_of_id_eq (mem_allNodes_of_scope? hScope hn') hn hId
      have hNot := h.unique.scope_ne_of_mem_preorder hScope hn'
      obtain ⟨e, he, rfl⟩ := Option.map_eq_some_iff.mp hScope
      refine .inr ⟨outer, e, rfl, he, Container.Sound.spares_of_prune (hLeft.containers _ ?_)⟩
      -- the container around the node is still there
      have hFind := find?_prune h.unique hn fun m hm hSame => hNot m hm (congrArg some hSame.symm)
      rw [container?_eq_find?.mp he, Option.map_some, Node.prune_graph] at hFind
      exact Forest.mem_preorder_of_find? _ hFind
  · intro hCondition
    refine h.prune hn fun c hc => ?_
    by_cases hHere : some c.core.id = scope
    · rcases hCondition with rfl | ⟨outer, e, rfl, he, hSpares⟩
      · cases hHere
      · cases hHere
        rw [(container?_eq_some_iff h.unique).mpr ⟨hc, rfl⟩] at he
        cases he
        exact hSpares
    · exact h.spares_of_ne hPlace hc hHere

end Sound

/-- An id that no node has is in no scope. -/
theorem scopeOf?_eq_none {id : String} (hNone : g.find? id = none) : g.scopeOf? id = none := by
  have hPlaced : (Forest.placed none g.root.nodes).find? (·.2.id = id) = none := by
    rw [List.find?_eq_none]
    intro place hMem
    have hNode : place.2 ∈ g.allNodes := by
      rw [allNodes, ← Forest.map_snd_placed none]
      exact List.mem_map_of_mem hMem
    simpa using find?_eq_none_iff.mp hNone place.2 hNode
  rw [scopeOf?, Forest.scopeOf?_eq_placed, hPlaced]
  rfl

/-- What removal does. An id that is not there changes nothing. From a valid graph a node that
is there is shed, with all below it; what is left is valid if the node stood at the root, or
in a container that can do without it, and not otherwise. -/
theorem removeNode_outcome (g : FlowGraph) (id : String) :
    (g.find? id = none → g.removeNode id = g) ∧
      (g.validate.success = true → ∀ n, g.find? id = some n →
        ∃ scope, g.scopeOf? id = some scope ∧ g.Sheds (g.removeNode id) n scope ∧
          ((g.removeNode id).validate.success = true ↔
            scope = none ∨
              ∃ outer e, scope = some outer ∧ g.container? outer = some e ∧ e.Spares id)) := by
  constructor
  · intro hNone
    rw [removeNode, scopeOf?_eq_none hNone]
    rfl
  · intro hValid n hFind
    -- with unique ids, to remove a node is to prune all nodes
    have h := validate_success_iff.mp hValid
    obtain ⟨hn, rfl⟩ := (find?_eq_some_iff h.unique).mp hFind
    obtain ⟨scope, -, hPlace, -⟩ := exists_scope h.unique hn
    refine ⟨scope, hPlace, ?_, ?_⟩
    · rw [h.removeNode_eq hPlace]
      exact h.sheds_prune hn hPlace
    · rw [h.removeNode_eq hPlace, validate_success_iff]
      exact h.sound_prune_iff hn hPlace

theorem plant_removeNode_outcome :
    plant.validate.success = true ∧ (plant.find? "boiler").isNone ∧
      plant.removeNode "boiler" = plant ∧
      ∃ n, plant.find? "drill" = some n ∧
        plant.Sheds (plant.removeNode "drill") n (some "line") ∧
        (plant.removeNode "drill").validate.success = true ∧
        ∃ e, plant.container? "line" = some e ∧ e.Spares "drill" := by
  have hNone : (plant.find? "boiler").isNone := by decide +kernel
  have hSome : (plant.find? "drill").isSome := by decide +kernel
  have hPlace : plant.scopeOf? "drill" = some (some "line") := by decide +kernel
  have hLeft : (plant.removeNode "drill").validate.success = true := by decide +kernel
  obtain ⟨n, hFind⟩ := Option.isSome_iff_exists.mp hSome
  obtain ⟨scope, hScope, hSheds, hValid⟩ :=
    (removeNode_outcome plant "drill").2 plant_valid n hFind
  obtain rfl : some "line" = scope := Option.some.inj (hPlace.symm.trans hScope)
  -- that the line spares the drill follows, as the plant stays valid without it
  refine ⟨plant_valid, hNone, ?_, n, hFind, hSheds, hLeft, ?_⟩
  · exact (removeNode_outcome plant "boiler").1 (Option.isNone_iff_eq_none.mp hNone)
  · rcases hValid.mp hLeft with hRoot | ⟨outer, e, hOuter, he, hSpares⟩
    · cases hRoot
    · cases hOuter
      exact ⟨e, he, hSpares⟩

/-- The line leads to its mill, so it cannot do without it. -/
example : (plant.removeNode "mill").validate.success = false := by
  decide +kernel

end FlowGraph

end FlowNest
