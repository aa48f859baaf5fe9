import FlowNest.Proofs.Walks

/-!
# FlowNest — a forest around one of its nodes

A gap is what is left of a forest when one node, at any depth, is taken out of it with all
below. It says of everything beside the node that it stays as it is: a forest that differs
from another one in that node only has the same gap, filled with another node.

* `Gap.fill`           — the forest with a node in the gap;
* `Gap.Clear`          — a search for an id comes to what fills the gap;
* `Forest.exists_gap`  — the node that is found by an id fills a gap, and replacing it
  fills the same gap with its image;
* `Gap.exists_ids`     — which ids are beside a gap does not depend on what fills it;
* `FlowGraph.update?_of_clear` — a replacement in a graph comes to a gap that is clear.
-/

namespace FlowNest

/-- A forest with a gap for a node, among its own nodes or below one of them. -/
inductive Gap where
  | here (left right : List Node)
  | inside (left : List Node) (core : NodeCore) (boundary : Boundary) (gap : Gap)
    (connections : List Connection) (right : List Node)

/-- The forest with the node in its gap. -/
def Gap.fill : Gap → Node → List Node
  | .here left right, n => left ++ n :: right
  | .inside left core boundary gap connections right, n =>
    left ++ .graph ⟨core, boundary, ⟨gap.fill n, connections⟩⟩ :: right

/-- The gap behind another node of the forest. -/
def Gap.behind (first : Node) : Gap → Gap
  | .here left right => .here (first :: left) right
  | .inside left core boundary gap connections right =>
    .inside (first :: left) core boundary gap connections right

@[simp] theorem Gap.fill_behind (first : Node) (gap : Gap) (n : Node) :
    (gap.behind first).fill n = first :: gap.fill n := by
  cases gap <;> rfl

/-! ## Search and replacement in a gap -/

/-- A search for the id comes to the gap: no node in front of it or around it has the id. -/
def Gap.Clear (id : String) : Gap → Prop
  | .here left _ => Forest.find? id left = none
  | .inside left core _ gap _ _ => Forest.find? id left = none ∧ core.id ≠ id ∧ gap.Clear id

theorem Gap.Clear.behind {id : String} {first : Node} {gap : Gap} (h : gap.Clear id)
    (hFirst : first.find? id = none) : (gap.behind first).Clear id := by
  have hLeft : ∀ left, Forest.find? id left = none → Forest.find? id (first :: left) = none := by
    intro left hNone
    rw [Forest.find?, hFirst]
    exact hNone
  cases gap with
  | here left right => exact hLeft left h
  | inside left core boundary gap connections right => exact ⟨hLeft left h.1, h.2⟩

theorem Forest.find?_append (id : String) (left right : List Node) :
    Forest.find? id (left ++ right) = (Forest.find? id left).or (Forest.find? id right) := by
  rw [find?_eq_preorder, preorder_append, List.find?_append, find?_eq_preorder, find?_eq_preorder]

theorem Forest.find?_cons_eq_none {id : String} {n : Node} {rest : List Node}
    (h : Forest.find? id (n :: rest) = none) : n.find? id = none := by
  rw [find?] at h
  split at h
  · cases h
  · assumption

theorem Forest.update?_append {id : String} {f : Node → Node} {left right : List Node}
    (h : Forest.find? id left = none) :
    Forest.update? id f (left ++ right) = (Forest.update? id f right).map (left ++ ·) := by
  induction left with
  | nil => exact Option.map_id'.symm
  | cons n rest ih =>
    have hNone := find?_cons_eq_none h
    rw [find?, hNone] at h
    rw [List.cons_append, Forest.update?, Node.update?_eq_none hNone, ih h, Option.map_map]
    rfl

/-- What is found in a node is found where the node fills a gap that is clear. -/
theorem Gap.Clear.find?_fill {id : String} {gap : Gap} (h : gap.Clear id) {n m : Node}
    (hn : n.find? id = some m) : Forest.find? id (gap.fill n) = some m := by
  induction gap with
  | here left right =>
    rw [fill, Forest.find?_append, h, Option.none_or, Forest.find?, hn]
  | inside left core boundary gap connections right ih =>
    obtain ⟨hLeft, hCore, hGap⟩ := h
    rw [fill, Forest.find?_append, hLeft, Option.none_or, Forest.find?, Node.find?_graph,
      if_neg hCore, ih hGap]

/-- An id that is nowhere in a forest is not beside its gap, and not in what fills it. -/
theorem Gap.clear_of_find?_eq_none {id : String} {gap : Gap} {n : Node}
    (h : Forest.find? id (gap.fill n) = none) : gap.Clear id ∧ n.find? id = none := by
  induction gap with
  | here left right =>
    rw [fill, Forest.find?_append, Option.or_eq_none_iff] at h
    exact ⟨h.1, Forest.find?_cons_eq_none h.2⟩
  | inside left core boundary gap connections right ih =>
    rw [fill, Forest.find?_append, Option.or_eq_none_iff] at h
    obtain ⟨hLeft, hRight⟩ := h
    -- an id found nowhere is neither that of a node above the gap nor of one left of it
    obtain ⟨hCore, hInside⟩ := Node.find?_graph_eq_none_iff.mp (Forest.find?_cons_eq_none hRight)
    obtain ⟨hGap, hn⟩ := ih hInside
    exact ⟨⟨hLeft, hCore, hGap⟩, hn⟩

/-- What is replaced in a node is replaced where the node fills a gap that is clear. -/
theorem Gap.Clear.update?_fill {id : String} {gap : Gap} (h : gap.Clear id) {f : Node → Node}
    {n n' : Node} (hn : n.update? id f = some n') :
    Forest.update? id f (gap.fill n) = some (gap.fill n') := by
  induction gap with
  | here left right =>
    rw [fill, Forest.update?_append h, Forest.update?, hn]
    rfl
  | inside left core boundary gap connections right ih =>
    -- nothing left of the path and nothing on it answers to the id
    obtain ⟨hLeft, hCore, hGap⟩ := h
    have hInside := Node.update?_inside (c := ⟨core, boundary, ⟨gap.fill n, connections⟩⟩) hCore
      (ih hGap)
    rw [fill, Forest.update?_append hLeft, Forest.update?, hInside]
    rfl

mutual

/-- A node that is found is the one that is searched, or fills a gap inside of it. -/
theorem Node.find?_cases {id : String} {n : Node} :
    ∀ m : Node, m.find? id = some n →
      m = n ∨ ∃ core boundary gap connections, core.id ≠ id ∧ Gap.Clear id gap ∧
        m = .graph ⟨core, boundary, ⟨gap.fill n, connections⟩⟩
  | .code c, h => by
    obtain ⟨-, h⟩ := Option.ite_none_right_eq_some.mp h
    exact .inl (Option.some.inj h)
  | .graph ⟨core, boundary, ⟨nodes, connections⟩⟩, h => by
    rw [Node.find?] at h
    -- the node is the one searched for, or the search goes on inside
    split at h
    · cases h
      exact .inl rfl
    · next hId =>
      obtain ⟨gap, rfl, hClear⟩ := Forest.exists_clear_gap nodes h
      exact .inr ⟨core, boundary, gap, connections, hId, hClear, rfl⟩

/-- The node that is found fills a gap that is clear. -/
theorem Forest.exists_clear_gap {id : String} {n : Node} :
    ∀ nodes : List Node, Forest.find? id nodes = some n →
      ∃ gap : Gap, nodes = gap.fill n ∧ gap.Clear id
  | [], h => by cases h
  | first :: rest, h => by
    rw [Forest.find?] at h
    split at h
    · next found hFound =>
      cases h
      -- the node is the first of the forest or below it
      rcases Node.find?_cases first hFound with
        rfl | ⟨core, boundary, gap, connections, hId, hClear, rfl⟩
      · exact ⟨.here [] rest, rfl, rfl⟩
      · exact ⟨.inside [] core boundary gap connections rest, rfl, rfl, hId, hClear⟩
    · next hNone =>
      obtain ⟨gap, rfl, hClear⟩ := Forest.exists_clear_gap rest h
      exact ⟨gap.behind first, (gap.fill_behind first n).symm, hClear.behind hNone⟩

end

theorem Forest.exists_gap {id : String} {n : Node} (nodes : List Node)
    (h : Forest.find? id nodes = some n) :
    ∃ gap : Gap, nodes = gap.fill n ∧ ∀ f, Forest.update? id f nodes = some (gap.fill (f n)) := by
  obtain ⟨gap, rfl, hClear⟩ := exists_clear_gap nodes h
  exact ⟨gap, rfl, fun f => hClear.update?_fill (Node.update?_self (id_of_find? h))⟩

/-- Beside the gap there are always the same ids. -/
theorem Gap.exists_ids (gap : Gap) : ∃ before after, ∀ n : Node,
    (Forest.preorder (gap.fill n)).map (·.id) = before ++ n.preorder.map (·.id) ++ after := by
  induction gap with
  | here left right =>
    refine ⟨(Forest.preorder left).map (·.id), (Forest.preorder right).map (·.id), ?_⟩
    intro n
    rw [fill, Forest.preorder_append, Forest.preorder, List.map_append, List.map_append,
      List.append_assoc]
  | inside left core boundary gap connections right ih =>
    -- a container adds its own id and those beside it, around what the gap below has
    obtain ⟨before, after, hIds⟩ := ih
    refine ⟨(Forest.preorder left).map (·.id) ++ core.id :: before,
      after ++ (Forest.preorder right).map (·.id), ?_⟩
    intro n
    rw [fill, Forest.preorder_append, Forest.preorder, Node.preorder_graph, List.map_append,
      List.map_append, List.map_cons, hIds]
    simp only [List.append_assoc, List.cons_append]
    rfl

namespace FlowGraph

variable {g : FlowGraph} {id : String} {n : Node} {f : Node → Node}

theorem isSome_update?_iff : (g.update? id f).isSome ↔ (g.find? id).isSome := by
  rw [update?, Option.isSome_map, Forest.isSome_update?]
  rfl

theorem update?_eq_none (h : g.find? id = none) : g.update? id f = none := by
  rw [← Option.not_isSome_iff_eq_none, isSome_update?_iff, h]
  exact Bool.false_ne_true

/-- What is found in a graph fills a gap that a search comes to. -/
theorem exists_clear_gap (h : g.find? id = some n) :
    ∃ gap : Gap, gap.Clear id ∧ g = g.withNodes (gap.fill n) := by
  obtain ⟨gap, hNodes, hClear⟩ := Forest.exists_clear_gap _ h
  exact ⟨gap, hClear, hNodes ▸ rfl⟩

/-- What is replaced in a node is replaced in a graph where the node fills a gap that a search
comes to. -/
theorem update?_of_clear {gap : Gap} {n' : Node} (hClear : gap.Clear id)
    (hn : n.update? id f = some n') (g : FlowGraph) :
    (g.withNodes (gap.fill n)).update? id f = some (g.withNodes (gap.fill n')) := by
  show (Forest.update? id f (gap.fill n)).map _ = _
  rw [hClear.update?_fill hn]
  rfl

/-- A node that is found in a graph can be replaced, and nothing beside it changes. -/
theorem exists_gap (h : g.find? id = some n) : ∃ gap : Gap, g.root.nodes = gap.fill n ∧
    ∀ f, g.update? id f = some (g.withNodes (gap.fill (f n))) := by
  obtain ⟨gap, hClear, hGraph⟩ := exists_clear_gap h
  refine ⟨gap, congrArg (·.root.nodes) hGraph, fun f => ?_⟩
  rw [hGraph]
  exact update?_of_clear hClear (Node.update?_self (Forest.id_of_find? h)) g

end FlowGraph

end FlowNest
