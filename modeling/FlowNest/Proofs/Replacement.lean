import FlowNest.Proofs.Places
import FlowNest.Proofs.Rules

/-!
# FlowNest — replacing a node

Search and replacement go through a graph each by itself, and both take the first node
with an id in pre-order, whatever ids repeat. So to replace a node is to edit what is found,
at its place, and nothing else.

Of two nodes that stand apart neither replacement notices the other one, as long as what
is put in brings no ids along that were not there before.

* `FlowGraph.isSome_find?_iff`    — search finds the ids of the graph;
* `FlowGraph.exists_update?`      — what is found is replaced at the place of the id;
* `Gap.exists_update?_beside`     — a replacement beside a gap leaves the gap;
* `FlowGraph.update?_comm`        — replacements apart from each other may be made in any order;
* `FlowGraph.update?_lawful`      — replacement as a lawful edit at the node that is found.
-/

namespace FlowNest

/-! ## Beside a gap -/

theorem Forest.find?_eq_none_iff_ids {id : String} {nodes : List Node} :
    Forest.find? id nodes = none ↔ id ∉ (Forest.preorder nodes).map (·.id) := by
  rw [find?_eq_none_iff, List.mem_map]
  simp

theorem Node.find?_eq_none_iff_ids {id : String} {n : Node} :
    n.find? id = none ↔ id ∉ n.preorder.map (·.id) := by
  rw [find?_eq_preorder, List.find?_eq_none, List.mem_map]
  simp

theorem Forest.update?_append_of_some {id : String} {f : Node → Node} {left left' : List Node}
    (h : Forest.update? id f left = some left') (right : List Node) :
    Forest.update? id f (left ++ right) = some (left' ++ right) := by
  induction left generalizing left' with
  | nil => cases h
  | cons n rest ih =>
    rw [update?] at h
    rw [List.cons_append, update?]
    -- the update goes no further than the node it hits
    split at h
    · cases h
      rfl
    · obtain ⟨rest', hRest, rfl⟩ := Option.map_eq_some_iff.mp h
      rw [ih hRest]
      rfl

section Beside

variable {a b : String} {h : Node → Node} {m : Node} {left right : List Node}

/-- An id that is nowhere in a forest is not brought in by a filling without it. -/
theorem Gap.find?_fill_eq_none {gap : Gap} {n n' : Node}
    (hNone : Forest.find? a (gap.fill n) = none) (hn' : n'.find? a = none) :
    Forest.find? a (gap.fill n') = none := by
  obtain ⟨before, after, hIds⟩ := gap.exists_ids
  rw [Node.find?_eq_none_iff_ids] at hn'
  rw [Forest.find?_eq_none_iff_ids, hIds] at hNone ⊢
  simp only [List.mem_append, not_or] at hNone ⊢
  exact ⟨⟨hNone.1.1, hn'⟩, hNone.2⟩

theorem Gap.mem_preorder_fill (gap : Gap) (n : Node) : n ∈ Forest.preorder (gap.fill n) := by
  induction gap with
  | here left right => exact Forest.mem_preorder_of_mem (List.mem_append_right _ List.mem_cons_self)
  | inside left core boundary gap connections right ih =>
    refine Forest.mem_preorder_of_tree (List.mem_append_right _ List.mem_cons_self) ?_
    rw [Node.preorder_graph]
    exact List.mem_cons_of_mem _ ih

/-- A node in front of a tree is replaced there, whatever the tree is. -/
theorem Forest.exists_update?_before (hFind : Forest.find? b left = some m) :
    ∃ left', (∀ rest, Forest.update? b h (left ++ rest) = some (left' ++ rest)) ∧
      (Forest.find? a left = none → (h m).find? a = none → Forest.find? a left' = none) := by
  obtain ⟨gap, rfl, hUpdate⟩ := exists_gap left hFind
  exact ⟨gap.fill (h m), update?_append_of_some (hUpdate h), Gap.find?_fill_eq_none⟩

/-- A node behind a tree without its id is replaced there, whatever the tree is. -/
theorem Forest.exists_update?_behind (hLeft : Forest.find? b left = none)
    (hFind : Forest.find? b right = some m) :
    ∃ right', ∀ top : Node, top.find? b = none →
      Forest.update? b h (left ++ top :: right) = some (left ++ top :: right') := by
  obtain ⟨gap, rfl, hUpdate⟩ := exists_gap right hFind
  refine ⟨gap.fill (h m), fun top hTop => ?_⟩
  rw [update?_append hLeft, update?, Node.update?_eq_none hTop, hUpdate h]
  rfl

/-- What is found among trees is in front of one of them, in it, or behind it. -/
theorem Forest.find?_middle {id : String} {top : Node}
    (hFind : Forest.find? id (left ++ top :: right) = some m) :
    Forest.find? id left = some m ∨
      Forest.find? id left = none ∧ (top.find? id = some m ∨
        top.find? id = none ∧ Forest.find? id right = some m) := by
  rw [find?_append, Option.or_eq_some_iff, find?] at hFind
  rcases hFind with hLeft | ⟨hLeft, hFind⟩
  · exact .inl hLeft
  -- the search goes on only where it has found nothing so far
  · refine .inr ⟨hLeft, ?_⟩
    split at hFind
    · next hTop => exact .inl (hTop.trans hFind)
    · next hTop => exact .inr ⟨hTop, hFind⟩

/-- A replacement beside a gap leaves the gap, for all fillings that have no node of the id.
A search for another id still comes to the gap, if what is put in has no node of that id. -/
theorem Gap.exists_update?_beside {gap : Gap} {n : Node}
    (hFind : Forest.find? b (gap.fill n) = some m) (hBelow : n.find? b = none)
    (hAround : n ∉ m.preorder) :
    ∃ gap' : Gap,
      (∀ n', n'.find? b = none → Forest.update? b h (gap.fill n') = some (gap'.fill n')) ∧
      (gap.Clear a → (h m).find? a = none → gap'.Clear a) := by
  -- at each level the node is in front of the gap, inside the tree that has it, or behind it
  induction gap with
  | here left right =>
    rcases Forest.find?_middle hFind with hLeft | ⟨hLeft, hTop | ⟨-, hRight⟩⟩
    · obtain ⟨left', hUpdate, hClear⟩ := Forest.exists_update?_before (h := h) (a := a) hLeft
      exact ⟨.here left' right, fun n' _ => hUpdate _, hClear⟩
    · -- the tree fills the gap itself, and has no node of the id
      rw [hBelow] at hTop
      cases hTop
    · obtain ⟨right', hUpdate⟩ := Forest.exists_update?_behind (h := h) hLeft hRight
      exact ⟨.here left right', hUpdate, fun hGap _ => hGap⟩
  | inside left core boundary gap connections right ih =>
    rcases Forest.find?_middle hFind with hLeft | ⟨hLeft, hTop | ⟨hTop, hRight⟩⟩
    · obtain ⟨left', hUpdate, hClear⟩ := Forest.exists_update?_before (h := h) (a := a) hLeft
      exact ⟨.inside left' core boundary gap connections right, fun n' _ => hUpdate _,
        fun hGap hm => ⟨hClear hGap.1 hm, hGap.2⟩⟩
    · rw [Node.find?_graph] at hTop
      by_cases hCore : core.id = b
      · -- the node would be the one around the gap
        rw [if_pos hCore] at hTop
        cases hTop
        refine absurd ?_ hAround
        rw [Node.preorder_graph]
        exact List.mem_cons_of_mem _ (gap.mem_preorder_fill n)
      · rw [if_neg hCore] at hTop
        obtain ⟨gap', hUpdate, hClear⟩ := ih hTop
        refine ⟨.inside left core boundary gap' connections right, fun n' hn' => ?_,
          fun hGap hm => ⟨hGap.1, hGap.2.1, hClear hGap.2.2 hm⟩⟩
        have hInside := Node.update?_inside (c := ⟨core, boundary, ⟨gap.fill n', connections⟩⟩)
          hCore (hUpdate n' hn')
        rw [fill, Forest.update?_append hLeft, Forest.update?, hInside]
        rfl
    · obtain ⟨hCore, hInside⟩ := Node.find?_graph_eq_none_iff.mp hTop
      obtain ⟨right', hUpdate⟩ := Forest.exists_update?_behind (h := h) hLeft hRight
      refine ⟨.inside left core boundary gap connections right', fun n' hn' => hUpdate _ ?_,
        fun hGap _ => hGap⟩
      exact Node.find?_graph_eq_none_iff.mpr ⟨hCore, find?_fill_eq_none hInside hn'⟩

end Beside

/-! ## In a graph -/

namespace FlowGraph

variable {g : FlowGraph} {id : String} {n : Node} {f h : Node → Node}

theorem isSome_find?_iff : (g.find? id).isSome ↔ id ∈ g.allNodes.map (·.id) := by
  rw [← not_iff_not, Option.not_isSome_iff_eq_none]
  exact Forest.find?_eq_none_iff_ids

/-- A node that is found is replaced at the place of its id. -/
theorem exists_update? (hFind : g.find? id = some n) :
    ∃ place, g.place? id = some place ∧ g.at? place = some n ∧
      ∀ f, ∃ g', g.update? id f = some g' ∧ g.ReplacedAt g' place (f n) ∧
        ((f n).id = id → g'.find? id = some (f n)) := by
  obtain ⟨gap, hClear, hGraph⟩ := exists_clear_gap hFind
  have hId : n.id = id := Forest.id_of_find? hFind
  refine ⟨gap.place, ?_, ?_, fun f => ⟨g.withNodes (gap.fill (f n)), ?_, ?_, ?_⟩⟩
  · rw [hGraph]
    exact hClear.place?_fill hId g
  · have hHere := gap.at?_fill n []
    rw [List.append_nil] at hHere
    rw [hGraph]
    exact hHere
  · rw [hGraph]
    exact update?_of_clear hClear (Node.update?_self hId) g
  · have hReplaced := gap.replacedAt g n (f n)
    rwa [← hGraph] at hReplaced
  · -- around the gap nothing stops a search, so what fills it is found if it has the id
    exact fun hKept => hClear.find?_fill (Node.find?_self hKept)

/-- Replacing a node by itself changes nothing. -/
theorem update?_self (g : FlowGraph) (id : String) :
    g.update? id (fun n => n) = (g.find? id).map fun _ => g := by
  cases hFind : g.find? id with
  | none => exact update?_eq_none hFind
  | some n =>
    obtain ⟨gap, hClear, hGraph⟩ := exists_clear_gap hFind
    rw [hGraph]
    exact update?_of_clear hClear (Node.update?_self (Forest.id_of_find? hFind)) g

/-- A replacement that keeps the id, and another one after it, are one replacement. -/
theorem update?_bind_update? (hKept : ∀ n ∈ g.find? id, (f n).id = id) :
    (g.update? id f).bind (·.update? id h) = g.update? id fun n => h (f n) := by
  cases hFind : g.find? id with
  | none => rw [update?_eq_none hFind, update?_eq_none hFind, Option.bind_none]
  | some n =>
    obtain ⟨gap, hClear, hGraph⟩ := exists_clear_gap hFind
    have hUpdate := fun f => update?_of_clear (f := f) hClear
      (Node.update?_self (Forest.id_of_find? hFind)) g
    rw [hGraph, hUpdate, hUpdate, Option.bind_some]
    exact update?_of_clear hClear (Node.update?_self (hKept n hFind)) g

/-! ## Two nodes -/

/-- Where ids are unique, a tree has no node of an id that is found outside of it. -/
theorem UniqueIds.find?_eq_none_of_apart (hUnique : g.UniqueIds) {other : String} {m : Node}
    (hn : g.find? id = some n) (hm : g.find? other = some m) (hApart : m ∉ n.preorder) :
    other ∉ n.preorder.map (·.id) := by
  intro hMem
  obtain ⟨k, hk, hId⟩ := List.mem_map.mp hMem
  obtain ⟨hnMem, -⟩ := (find?_eq_some_iff hUnique).mp hn
  obtain ⟨hmMem, hmId⟩ := (find?_eq_some_iff hUnique).mp hm
  have hkMem : k ∈ g.allNodes := (Forest.preorder_sublist _ hnMem).subset hk
  obtain rfl := hUnique.eq_of_id_eq hkMem hmMem (hId.trans hmId.symm)
  exact hApart hk

/-- Replacements of two nodes of which neither is below the other one may be made in any
order, if they bring in no ids. -/
theorem update?_comm (hUnique : g.UniqueIds) {other : String} {m : Node}
    (hn : g.find? id = some n) (hm : g.find? other = some m) (hnm : n ∉ m.preorder)
    (hmn : m ∉ n.preorder) (hf : (f n).preorder.map (·.id) ⊆ n.preorder.map (·.id))
    (hh : (h m).preorder.map (·.id) ⊆ m.preorder.map (·.id)) :
    ∃ g', (g.update? id f).bind (·.update? other h) = some g' ∧
      (g.update? other h).bind (·.update? id f) = some g' := by
  have hOther := hUnique.find?_eq_none_of_apart hn hm hmn
  have hId := hUnique.find?_eq_none_of_apart hm hn hnm
  -- neither id is below the other node, before or after it is replaced
  have hnOther : n.find? other = none := Node.find?_eq_none_iff_ids.mpr hOther
  have hfOther : (f n).find? other = none :=
    Node.find?_eq_none_iff_ids.mpr fun hMem => hOther (hf hMem)
  have hhId : (h m).find? id = none :=
    Node.find?_eq_none_iff_ids.mpr fun hMem => hId (hh hMem)
  obtain ⟨gap, hClear, hGraph⟩ := exists_clear_gap hn
  have hFirst : ∀ gap : Gap, gap.Clear id →
      (g.withNodes (gap.fill n)).update? id f = some (g.withNodes (gap.fill (f n))) :=
    fun _ hClear => update?_of_clear hClear (Node.update?_self (Forest.id_of_find? hn)) g
  rw [hGraph] at hm
  -- the second node lies beside the gap of the first, whatever fills the gap
  obtain ⟨gap', hUpdate, hClear'⟩ := Gap.exists_update?_beside (a := id) (h := h) hm hnOther hnm
  have hSecond : ∀ n', n'.find? other = none →
      (g.withNodes (gap.fill n')).update? other h = some (g.withNodes (gap'.fill n')) := by
    intro n' hn'
    show (Forest.update? other h (gap.fill n')).map _ = _
    rw [hUpdate n' hn']
    rfl
  refine ⟨g.withNodes (gap'.fill (f n)), ?_, ?_⟩
  · rw [hGraph, hFirst gap hClear]
    exact hSecond _ hfOther
  · rw [hGraph, hSecond n hnOther]
    exact hFirst gap' (hClear' hClear hhId)

/-! ## Lawful replacement -/

/-- Editing fails for the ids that no node has, and for the reason that they are not found. -/
theorem edit_eq_error_iff {e : ControlError} :
    g.edit id f = .error e ↔ e = .nodeNotFound id ∧ id ∉ g.allNodes.map (·.id) := by
  rw [← isSome_find?_iff, ← isSome_update?_iff (f := f), edit]
  cases g.update? id f with
  | none => simp [eq_comm]
  | some g' => simp

/-- Search takes the first node with an id, replacement the same one. It is there exactly if
the graph has the id. It stands at the place of the id, where its image stands after it is
replaced, beside nodes that have not changed; if the image has the id, it is what is found
then. Replacing a node by itself changes nothing, and replacing it twice is replacing it once
by both images. Where ids are unique, two nodes apart may be replaced in any order, if no
ids are brought in. So a state or a configuration is refused for ids that are not there. -/
theorem update?_lawful (g : FlowGraph) (id : String) :
    g.find? id = g.allNodes.find? (·.id = id) ∧
    ((g.find? id).isSome ↔ id ∈ g.allNodes.map (·.id)) ∧
    (∀ f, (g.update? id f).isSome ↔ (g.find? id).isSome) ∧
    (∀ n, g.find? id = some n → ∃ place, g.place? id = some place ∧ g.at? place = some n ∧
      ∀ f, ∃ g', g.update? id f = some g' ∧ g.ReplacedAt g' place (f n) ∧
        ((f n).id = id → g'.find? id = some (f n))) ∧
    (g.update? id fun n => n) = (g.find? id).map (fun _ => g) ∧
    (∀ f h, (∀ n ∈ g.find? id, (f n).id = id) →
      (g.update? id f).bind (·.update? id h) = g.update? id fun n => h (f n)) ∧
    (g.UniqueIds → ∀ other n m, g.find? id = some n → g.find? other = some m →
      n ∉ m.preorder → m ∉ n.preorder →
      ∀ f h, (f n).preorder.map (·.id) ⊆ n.preorder.map (·.id) →
        (h m).preorder.map (·.id) ⊆ m.preorder.map (·.id) →
        ∃ g', (g.update? id f).bind (·.update? other h) = some g' ∧
          (g.update? other h).bind (·.update? id f) = some g') ∧
    (∀ state e, g.setNodeState id state = .error e ↔
      e = .nodeNotFound id ∧ id ∉ g.allNodes.map (·.id)) ∧
    ∀ control e, g.setNodeControl id control = .error e ↔
      e = .nodeNotFound id ∧ id ∉ g.allNodes.map (·.id) := by
  refine ⟨Forest.find?_eq_preorder id _, isSome_find?_iff, fun _ => isSome_update?_iff,
    fun _ => exists_update?, g.update?_self id, fun _ _ => update?_bind_update?, ?_,
    fun _ _ => edit_eq_error_iff, fun _ _ => edit_eq_error_iff⟩
  -- the two updates may only be exchanged while each keeps to the ids it found
  intro hUnique other n m hn hm hnm hmn f h hf hh
  exact update?_comm hUnique hn hm hnm hmn hf hh

/-- The line runs and its source is paused, whichever is told first. -/
theorem plant_update?_lawful :
    plant.UniqueIds ∧ plant.find? "line" = some (.graph line) ∧
      plant.find? "source" = some (stage "source" none) ∧
      ∃ g', (plant.update? "line" (·.withState .running true)).bind
          (·.update? "source" (·.withState .paused true)) = some g' ∧
        (plant.update? "source" (·.withState .paused true)).bind
          (·.update? "line" (·.withState .running true)) = some g' := by
  have hUnique : plant.UniqueIds := by decide +kernel
  have hLine : plant.find? "line" = some (.graph line) := rfl
  have hSource : plant.find? "source" = some (stage "source" none) := rfl
  -- the line and the source lie apart, and a pushed state brings no new id
  have hIds : "line" ∉ (stage "source" none).preorder.map (·.id) ∧
      "source" ∉ (Node.graph line).preorder.map (·.id) := by decide +kernel
  have hLineKeeps : ((Node.graph line).withState .running true).preorder.map (·.id) ⊆
      (Node.graph line).preorder.map (·.id) := by decide +kernel
  have hSourceKeeps : ((stage "source" none).withState .paused true).preorder.map (·.id) ⊆
      (stage "source" none).preorder.map (·.id) := by decide +kernel
  obtain ⟨-, -, -, -, -, -, hComm, -⟩ := update?_lawful plant "line"
  refine ⟨hUnique, hLine, hSource, hComm hUnique "source" _ _ hLine hSource ?_ ?_ _ _ hLineKeeps
    hSourceKeeps⟩
  · exact fun hMem => hIds.1 (List.mem_map.mpr ⟨_, hMem, rfl⟩)
  · exact fun hMem => hIds.2 (List.mem_map.mpr ⟨_, hMem, rfl⟩)

/-- The drill is the second child of the second node. -/
example : plant.place? "drill" = some [1, 1] := by
  decide +kernel

end FlowGraph

end FlowNest
