import FlowNest.Proofs.Grouping.Collapse

/-!
# FlowNest — a scope with the inside of a container in its place

Ungrouping puts the nodes of a container in the container's own place, where the
scope around it is their parent. Ids are unique over the scope and all below it,
so the nodes that come up are none of those that stand there.

* `Scope.expand_nodes`      — the nodes, in their order;
* `Scope.outlines_expand`   — nothing is lost but the container;
* `Scope.port?_expand`      — the ports are those of both scopes;
* `Scope.restore?_eq_some_iff` — how a connection leaves the container's ports.
-/

namespace FlowNest

namespace Scope

variable {s : Scope Node} {c : Container Node} {scope : ScopeId}

/-! ## Nodes -/

/-- Beside a container there are nodes with other ids. -/
theorem id_ne_of_split {l r : List Node} (hNodes : s.nodes = l ++ .graph c :: r)
    (hIds : (s.nodes.map (·.id)).Nodup) :
    (∀ n ∈ l, n.id ≠ c.core.id) ∧ ∀ n ∈ r, n.id ≠ c.core.id := by
  rw [hNodes, List.map_append, List.map_cons, List.nodup_middle, List.nodup_cons, List.mem_append,
    not_or] at hIds
  constructor
  · intro n hn hId
    exact hIds.1.1 (List.mem_map.mpr ⟨n, hn, hId⟩)
  · intro n hn hId
    exact hIds.1.2 (List.mem_map.mpr ⟨n, hn, hId⟩)

/-- The children come where the container was. -/
theorem expand_nodes {l r : List Node} (hNodes : s.nodes = l ++ .graph c :: r)
    (hIds : (s.nodes.map (·.id)).Nodup) :
    (s.expand c scope).nodes = l ++ (c.inside.nodes.map (·.withParent scope) ++ r) := by
  obtain ⟨hLeft, hRight⟩ := id_ne_of_split hNodes hIds
  -- no other node is replaced
  have hOthers : ∀ k : List Node, (∀ n ∈ k, n.id ≠ c.core.id) →
      (k.flatMap fun n => if n.id = c.core.id then c.inside.nodes.map (·.withParent scope)
        else [n]) = k := by
    intro k hk
    rw [List.flatMap_congr fun n hn => if_neg (hk n hn), List.flatMap_singleton']
  show s.nodes.flatMap _ = _
  rw [hNodes, List.flatMap_append, List.flatMap_cons, hOthers l hLeft, hOthers r hRight,
    if_pos (show (Node.graph c).id = c.core.id from rfl)]

section Unique

variable (hUnique : ((Forest.preorder s.nodes).map (·.id)).Nodup) (hc : .graph c ∈ s.nodes)

include hUnique in
/-- Ids that are unique at all depths are unique in the scope. -/
theorem nodup_ids_of_unique : (s.nodes.map (·.id)).Nodup :=
  hUnique.sublist ((Forest.sublist_preorder s.nodes).map _)

include hUnique hc

/-- Apart from their order, the nodes are the children and all others but the container. -/
theorem expand_nodes_perm :
    (s.expand c scope).nodes.Perm
      (c.inside.nodes.map (·.withParent scope) ++ s.nodes.filter (·.id ≠ c.core.id)) := by
  have hIds := nodup_ids_of_unique hUnique
  obtain ⟨l, r, hNodes⟩ := List.append_of_mem hc
  obtain ⟨hLeft, hRight⟩ := id_ne_of_split hNodes hIds
  -- ids are unique, so removing the container leaves both sides of it whole
  have hOthers : ∀ k : List Node, (∀ n ∈ k, n.id ≠ c.core.id) →
      k.filter (·.id ≠ c.core.id) = k := by
    intro k hk
    rw [List.filter_eq_self]
    intro n hn
    exact decide_eq_true (hk n hn)
  rw [expand_nodes hNodes hIds, hNodes, List.filter_append,
    List.filter_cons_of_neg (by simp [Node.id, Node.core]), hOthers l hLeft, hOthers r hRight]
  exact List.perm_append_comm_assoc _ _ _

/-- A node afterwards is a child with its new parent, or one from before. -/
theorem mem_expand {n : Node} :
    n ∈ (s.expand c scope).nodes ↔
      (∃ k ∈ c.inside.nodes, n = k.withParent scope) ∨ n ∈ s.nodes ∧ n.id ≠ c.core.id := by
  rw [(expand_nodes_perm hUnique hc).mem_iff, List.mem_append, List.mem_map, List.mem_filter,
    decide_eq_true_eq]
  refine or_congr_left (exists_congr fun k => and_congr_right fun _ => ?_)
  exact eq_comm

/-- Only the container is gone. -/
theorem outlines_expand :
    (Forest.outlines s.nodes).Perm
      ((Node.graph c).outline :: Forest.outlines (s.expand c scope).nodes) := by
  obtain ⟨l, r, hNodes⟩ := List.append_of_mem hc
  have hInside : Forest.outlines (c.inside.nodes.map (·.withParent scope)) =
      Forest.outlines c.inside.nodes := by
    rw [Forest.outlines_eq_flatMap, Forest.outlines_eq_flatMap, List.flatMap_map]
    simp
  rw [expand_nodes hNodes (nodup_ids_of_unique hUnique), hNodes, Forest.outlines_append,
    Forest.outlines_graph_cons, Forest.outlines_append, Forest.outlines_append, hInside]
  exact List.perm_middle

/-- The ids stay unique, as one of them is gone and no other comes in. -/
theorem unique_expand : ((Forest.preorder (s.expand c scope).nodes).map (·.id)).Nodup := by
  have hPerm : (Forest.outlines s.nodes).Perm
      ((Node.graph c).outline :: Forest.outlines (s.expand c scope).nodes) :=
    outlines_expand hUnique hc
  have hOutlines := hPerm.map Outline.id
  rw [Forest.outlines, Forest.outlines, List.map_cons, List.map_map, List.map_map] at hOutlines
  exact (List.nodup_cons.mp (hOutlines.nodup_iff.mp hUnique)).2

/-! ## Ports -/

/-- A scope stays tidy when a tidy inside is opened in it. -/
theorem tidy_expand (hs : s.Tidy) (hInside : c.inside.Tidy) : (s.expand c scope).Tidy where
  ids := nodup_ids_of_unique (unique_expand hUnique hc)
  ports := by
    intro n hn
    rcases (mem_expand hUnique hc).mp hn with ⟨k, hk, rfl⟩ | ⟨hn, -⟩
    · exact (hInside.ports k hk).congr (k.outline_withParent scope).symm
    · exact hs.ports n hn

/-- The ports are those of the container's inside, and of the nodes beside it. -/
theorem port?_expand (hs : s.Tidy) (hInside : c.inside.Tidy) {e : Endpoint} {p : Port} :
    (s.expand c scope).port? e = some p ↔
      c.inside.port? e = some p ∨ e.node ≠ c.core.id ∧ s.port? e = some p := by
  rw [(tidy_expand hUnique hc hs hInside).port?_eq_some_iff, hInside.port?_eq_some_iff,
    hs.port?_eq_some_iff]
  -- a child that comes out keeps its id and its ports, only its parent is another one
  constructor
  · rintro ⟨n, hn, hId, hp, hPort⟩
    rcases (mem_expand hUnique hc).mp hn with ⟨k, hk, rfl⟩ | ⟨hn, hOther⟩
    · rw [Node.id_withParent] at hId
      exact .inl ⟨k, hk, hId, Node.ports_congr (k.outline_withParent scope) ▸ hp, hPort⟩
    · exact .inr ⟨hId ▸ hOther, n, hn, hId, hp, hPort⟩
  · rintro (⟨k, hk, hId, hp, hPort⟩ | ⟨hOther, n, hn, hId, hp, hPort⟩)
    · exact ⟨k.withParent scope, (mem_expand hUnique hc).mpr (.inl ⟨k, hk, rfl⟩),
        (k.id_withParent scope).trans hId,
        Node.ports_congr (k.outline_withParent scope) ▸ hp, hPort⟩
    · exact ⟨n, (mem_expand hUnique hc).mpr (.inr ⟨hn, hId ▸ hOther⟩), hId, hp, hPort⟩

end Unique

/-! ## Connections -/

/-- An end on the container goes to what is behind it, and any other stays where it is. -/
theorem throughMapping?_eq (c : Container Node) (e : Endpoint) :
    throughMapping? c e = if e.node = c.core.id then c.lead? e.port else some e :=
  rfl

/-- A connection is kept with both ends where they lead to. -/
theorem restore?_eq_some_iff {x y : Connection} :
    restore? c x = some y ↔ ∃ source target, throughMapping? c x.source = some source ∧
      throughMapping? c x.target = some target ∧ y = { x with source, target } := by
  rw [restore?]
  constructor
  · intro h
    obtain ⟨source, hSource, h⟩ := Option.bind_eq_some_iff.mp h
    obtain ⟨target, hTarget, h⟩ := Option.bind_eq_some_iff.mp h
    cases h
    exact ⟨source, target, hSource, hTarget, rfl⟩
  · rintro ⟨source, target, hSource, hTarget, rfl⟩
    rw [hSource, hTarget]
    rfl

end Scope

end FlowNest
