import FlowNest.Proofs.Grouping.Within

/-!
# FlowNest — groupings in two scopes

A grouping changes one scope, and leaves of every other the nodes that stand there, with what a
grouping looks at. So groupings in two scopes may be made in either order, wherever the scopes
lie: side by side, or one of them inside of a node of the other, which may be one of those
grouped.

* `Node.exists_regrouped`           — where a node is when some of a container are grouped;
* `FlowGraph.container?_of_groupIn` — what a grouping leaves of a container elsewhere;
* `FlowGraph.groupIn_after`         — so another grouping there does as it did before;
* `FlowGraph.groupIn_comm`          — groupings in a scope and inside of a container commute;
* `FlowGraph.LieIn`                 — selections that stand in a scope;
* `FlowGraph.group_comm`            — their groupings commute, in any two scopes.
-/

namespace FlowNest

/-! ## Where nodes are after a grouping -/

/-- A node that is placed elsewhere takes all below it along. -/
theorem Node.exists_mem_withCore {n m : Node} {core : NodeCore} (hCore : core.id = n.id)
    (hm : m ∈ n.preorder) :
    ∃ place : NodeCore, place.id = m.id ∧ m.withCore place ∈ (n.withCore core).preorder := by
  cases n with
  | code c =>
    obtain rfl := List.mem_singleton.mp hm
    exact ⟨core, hCore, mem_preorder_self _⟩
  | graph c =>
    rw [preorder_graph] at hm
    -- only the top gets the other core; what is below is there as it was
    rcases List.mem_cons.mp hm with rfl | hm
    · exact ⟨core, hCore, mem_preorder_self _⟩
    · refine ⟨m.core, rfl, ?_⟩
      show m.withCore m.core ∈ (graph { c with core }).preorder
      rw [withCore_core, preorder_graph]
      exact List.mem_cons_of_mem _ hm

/-- The nodes of a scope and all below them are there when some of them are grouped. -/
theorem Container.Takes.exists_mem_collapse {c : Container Node} {s : Scope Node}
    {ids : List String} (h : c.Takes s ids) {m : Node} (hm : m ∈ Forest.preorder s.nodes) :
    ∃ place : NodeCore, place.id = m.id ∧
      m.withCore place ∈ Forest.preorder (s.collapse ids c).nodes := by
  obtain ⟨n, hn, hm⟩ := Forest.mem_preorder_iff.mp hm
  by_cases hIds : n.id ∈ ids
  · -- with its node it is inside of the new container
    obtain ⟨moved, hMoved, hNodes⟩ := h.nodes
    have hSelected : n ∈ s.nodes.filter (·.id ∈ ids) :=
      List.mem_filter.mpr ⟨hn, decide_eq_true hIds⟩
    obtain ⟨_, hMem, position, rfl⟩ := exists_of_mem_forall₂ hMoved.flip hSelected
    have hChild : (n.withPosition position).withParent (some c.core.id) ∈ c.inside.nodes :=
      hNodes ▸ List.mem_map_of_mem hMem
    let placed : NodeCore := { n.core with position, parent := some c.core.id }
    have hPlaced : (n.withPosition position).withParent (some c.core.id) = n.withCore placed := by
      cases n <;> rfl
    have hKeeps : placed.id = n.id := rfl
    obtain ⟨place, hPlace, hThere⟩ := Node.exists_mem_withCore hKeeps hm
    refine ⟨place, hPlace, Forest.mem_preorder_of_tree (n := .graph c) ?_ ?_⟩
    · exact (Scope.mem_collapse h.selected).mpr (.inl rfl)
    · exact Node.mem_preorder_of_child hChild (hPlaced ▸ hThere)
  · refine ⟨m.core, rfl, ?_⟩
    rw [Node.withCore_core]
    exact Forest.mem_preorder_of_tree ((Scope.mem_collapse h.selected).mpr (.inr ⟨hn, hIds⟩)) hm

section Regrouped

variable {ids : List String} {id name : String} {settings : Settings} {outer : String}

/-- When nodes are grouped inside of the one container with an id, all other nodes are there,
perhaps placed elsewhere. -/
theorem Node.exists_regrouped {n : Node}
    (h : ∀ c : Container Node, .graph c ∈ n.preorder → c.core.id = outer →
      (∃ c', c.groupInside ids id name settings = .ok c') ∧ outer ∉ c.descendantIds) {m : Node}
    (hm : m ∈ n.preorder) (hOther : m.id ≠ outer) :
    ∃ place : NodeCore, place.id = m.id ∧
      (m.regroupAt outer ids id name settings).withCore place ∈
        (n.regroupAt outer ids id name settings).preorder := by
  induction n using induct with
  | code c =>
    obtain rfl := List.mem_singleton.mp hm
    rw [regroupAt_of_ne hOther]
    exact ⟨c.core, rfl, mem_preorder_self _⟩
  | graph c ih =>
    by_cases hId : c.core.id = outer
    · obtain ⟨⟨c', hGroup⟩, hBelow⟩ := h c (mem_preorder_self _) hId
      obtain ⟨-, k, outside, -, -, rfl, -, -, hTakes, -⟩ := Container.groupInside_eq_ok hGroup
      rw [preorder_graph] at hm
      rcases List.mem_cons.mp hm with rfl | hm
      · exact absurd hId hOther
      -- the container has its id alone, so nothing is edited below it
      have hStays : m.regroupAt outer ids id name settings = m := by
        refine editAt_eq_self fun l hl hSame => hBelow (List.mem_map.mpr ⟨l, ?_, hSame⟩)
        exact (Forest.preorder_sublist _ hm).subset hl
      obtain ⟨place, hPlace, hThere⟩ := hTakes.exists_mem_collapse hm
      refine ⟨place, hPlace, ?_⟩
      rw [hStays, regroupAt_self (n := graph c) hId, regroup_of_ok hGroup, preorder_graph]
      exact List.mem_cons_of_mem _ hThere
    · rw [regroupAt_graph hId]
      rw [preorder_graph] at hm
      rcases List.mem_cons.mp hm with rfl | hm
      · refine ⟨c.core, rfl, ?_⟩
        rw [regroupAt_graph hId]
        exact mem_preorder_self _
      · obtain ⟨child, hChild, hm⟩ := Forest.mem_preorder_iff.mp hm
        obtain ⟨place, hPlace, hThere⟩ := ih child hChild
          (fun k hk => h k (mem_preorder_of_child hChild hk)) hm
        exact ⟨place, hPlace, mem_preorder_of_child (List.mem_map_of_mem hChild) hThere⟩

end Regrouped

/-! ## What a grouping leaves elsewhere -/

namespace FlowGraph

variable {g g' k : FlowGraph} {ids ids' : List String} {id id' name name' : String}
  {settings settings' : Settings} {scope : ScopeId} {b : String} {e : Container Node}

section Elsewhere

variable (hUnique : g.UniqueIds) (hNew : ∀ n ∈ g.allNodes, n.id ≠ id)
  (h : g.groupIn scope ids id name settings = .ok g') (he : g.container? b = some e)
  (hOther : scope ≠ some b)

include hUnique hNew h he hOther

/-- A container whose inside is another scope is still there, perhaps placed elsewhere. What has
changed inside of it, a later grouping does not notice. -/
theorem container?_of_groupIn {new : String} (hScope : scope ≠ some new) :
    ∃ (φ : Node → Node) (core : NodeCore), Node.Unnoticed new φ ∧ core.id = e.core.id ∧
      g'.container? b = some { e.mapInside φ with core } := by
  have hUnique' := unique_of_groupIn hUnique hNew h
  obtain ⟨hMem, rfl⟩ := (container?_eq_some_iff hUnique).mp he
  cases scope with
  | none =>
    obtain ⟨c, hGroup, h⟩ := bind_eq_ok.mp h
    cases h
    obtain ⟨-, -, -, hTakes, -⟩ := Scope.group_spec hGroup
    -- at the root the container stays, or is taken inside and gets another parent
    obtain ⟨core, hCore, hThere⟩ := hTakes.exists_mem_collapse hMem
    refine ⟨fun n => n, core, Node.unnoticed_id new, hCore,
      (container?_eq_some_iff hUnique').mpr ⟨?_, hCore⟩⟩
    show ((Node.graph e).mapInside fun n => n).withCore core ∈ _
    rw [Node.mapInside_id]
    exact hThere
  | some outer =>
    obtain ⟨o, o', ho, hGroup, rfl⟩ := exists_container?_of_groupIn hUnique h
    obtain ⟨hoMem, rfl⟩ := (container?_eq_some_iff hUnique).mp ho
    -- only one container is regrouped, and it is not inside of itself
    have hOnly : ∀ c : Container Node, .graph c ∈ g.allNodes → c.core.id = o.core.id →
        (∃ c', c.groupInside ids id name settings = .ok c') ∧ o.core.id ∉ c.descendantIds := by
      intro c hc hId
      obtain rfl := Node.graph.inj (hUnique.eq_of_id_eq hc hoMem hId)
      exact ⟨⟨o', hGroup⟩, hUnique.not_mem_descendantIds hc⟩
    have hId : e.core.id ≠ o.core.id := fun hSame => hOther (congrArg some hSame.symm)
    obtain ⟨n, hn, hMem⟩ := Forest.mem_preorder_iff.mp hMem
    obtain ⟨core, hCore, hThere⟩ := Node.exists_regrouped
      (fun c hc => hOnly c (Forest.mem_preorder_of_tree hn hc)) hMem hId
    rw [Node.regroupAt_graph hId] at hThere
    refine ⟨(·.regroupAt o.core.id ids id name settings), core,
      Node.unnoticed_regroupAt fun hSame => hScope (congrArg some hSame.symm), hCore,
      (container?_eq_some_iff hUnique').mpr ⟨?_, hCore⟩⟩
    exact Forest.mem_preorder_of_tree (List.mem_map_of_mem hn) hThere

/-- After a grouping in a scope, another one inside of a container does as it did before. -/
theorem groupIn_after (hScope : scope ≠ some id') :
    g'.groupIn (some b) ids' id' name' settings' =
      (e.groupInside ids' id' name' settings').map fun _ =>
        g'.mapRoots (·.regroupAt b ids' id' name' settings') := by
  obtain ⟨φ, core, hφ, hCore, hThere⟩ := container?_of_groupIn hUnique hNew h he hOther hScope
  rw [groupIn_of_container? (unique_of_groupIn hUnique hNew h) hThere]
  have hInside := Container.groupInside_mapInside hφ e hCore ids' name' settings'
  refine (congrArg (Except.map _) hInside).trans ?_
  cases e.groupInside ids' id' name' settings' <;> rfl

end Elsewhere

section OtherScope

variable (hUnique : g.UniqueIds) (hNew : ∀ n ∈ g.allNodes, n.id ≠ id)
  (h : g.groupIn scope ids id name settings = .ok g') {other : ScopeId} (hOther : scope ≠ other)
  {s : Scope Node} (hs : g.scope? other = some s)

include hUnique hNew h hOther hs

/-- In another scope nothing has changed that a grouping looks at. -/
theorem scope?_of_groupIn :
    ∃ φ : Node → Node, (∀ n, Node.Unseen φ n) ∧ g'.scope? other = some (s.mapNodes φ) := by
  cases other with
  | some b =>
    obtain ⟨e, he, rfl⟩ := Option.map_eq_some_iff.mp hs
    obtain ⟨φ, core, hφ, -, hThere⟩ := container?_of_groupIn hUnique hNew h he hOther hOther
    refine ⟨φ, hφ.unseen, ?_⟩
    rw [scope?, hThere]
    rfl
  | none =>
    -- the root is another scope only if the grouping is in a container
    cases hs
    cases scope with
    | none => exact absurd rfl hOther
    | some outer =>
      obtain ⟨-, -, -, -, rfl⟩ := exists_container?_of_groupIn hUnique h
      exact ⟨_, Node.unseen_regroupAt, rfl⟩

theorem scopeOf?_of_groupIn (i : String) :
    g'.scopeOf? i = some other ↔ g.scopeOf? i = some other := by
  obtain ⟨φ, hφ, hs'⟩ := scope?_of_groupIn hUnique hNew h hOther hs
  rw [scopeOf?_eq_some_iff (unique_of_groupIn hUnique hNew h), scopeOf?_eq_some_iff hUnique]
  -- the nodes of the other scope are the same ones, edited
  constructor
  · rintro ⟨t, n, ht, hn, rfl⟩
    cases hs'.symm.trans ht
    obtain ⟨m, hm, rfl⟩ := List.mem_map.mp hn
    exact ⟨s, m, hs, hm, (hφ m).id.symm⟩
  · rintro ⟨t, n, ht, hn, rfl⟩
    cases hs.symm.trans ht
    exact ⟨s.mapNodes φ, φ n, hs', List.mem_map_of_mem hn, (hφ n).id⟩

end OtherScope

/-! ## Two groupings -/

theorem mapRoots_comm {φ ψ : Node → Node} (h : ∀ n, ψ (φ n) = φ (ψ n)) (g : FlowGraph) :
    (g.mapRoots φ).mapRoots ψ = (g.mapRoots ψ).mapRoots φ := by
  show g.withNodes ((g.root.nodes.map φ).map ψ) = g.withNodes ((g.root.nodes.map ψ).map φ)
  rw [List.map_map, List.map_map]
  exact congrArg (fun f => g.withNodes (g.root.nodes.map f)) (funext h)

/-- At the root, edits that a grouping does not notice may be made before it or after it. -/
theorem groupIn_mapRoots_root {φ : Node → Node} (hφ : Node.Unnoticed id φ) (g : FlowGraph) :
    (g.mapRoots φ).groupIn none ids id name settings =
      (g.groupIn none ids id name settings).map (·.mapRoots φ) := by
  show ((g.root.mapNodes φ).group ids id name settings >>= _) =
    Except.map _ (g.root.group ids id name settings >>= _)
  rw [Scope.group_mapNodes fun n _ => hφ.unseen n]
  cases hGroup : g.root.group ids id name settings with
  | error err => rfl
  | ok c =>
    -- the container gets the edited nodes, and all others are edited around it
    have hCollapse : (g.root.mapNodes φ).collapse ids (c.mapInside φ) =
        (g.root.collapse ids c).mapNodes φ :=
      Scope.collapse_mapNodes (fun n _ => (hφ.unseen n).id) (hφ.own c (Scope.group_spec hGroup).1)
    exact congrArg (fun root => Except.ok { g with root }) hCollapse

theorem scope_ne_of_new (hUnique : g.UniqueIds) (hNew : ∀ n ∈ g.allNodes, n.id ≠ id)
    {s : Scope Node} (hs : g.scope? scope = some s) : scope ≠ some id := by
  rintro rfl
  obtain ⟨c, hc, rfl⟩ := Option.map_eq_some_iff.mp hs
  obtain ⟨hMem, hId⟩ := (container?_eq_some_iff hUnique).mp hc
  exact hNew _ hMem hId

section Commute

variable (hUnique : g.UniqueIds) (hNew : ∀ n ∈ g.allNodes, n.id ≠ id)
  (hNew' : ∀ n ∈ g.allNodes, n.id ≠ id') (he : g.container? b = some e)
  (hOther : scope ≠ some b) {s : Scope Node} (hs : g.scope? scope = some s)

include hUnique hNew hNew' he hOther hs

/-- After nodes are grouped inside of a container, a grouping in another scope does as it did
before. -/
theorem groupIn_mapRoots (hInside : g.groupIn (some b) ids' id' name' settings' = .ok g') :
    g'.groupIn scope ids id name settings =
      (g.groupIn scope ids id name settings).map
        (·.mapRoots (·.regroupAt b ids' id' name' settings')) := by
  obtain ⟨hMem, hId⟩ := (container?_eq_some_iff hUnique).mp he
  have hb : id ≠ b := hId ▸ (hNew _ hMem).symm
  cases scope with
  | none =>
    obtain ⟨-, -, -, -, rfl⟩ := exists_container?_of_groupIn hUnique hInside
    exact groupIn_mapRoots_root (Node.unnoticed_regroupAt hb) g
  | some a =>
    obtain ⟨d, hd, rfl⟩ := Option.map_eq_some_iff.mp hs
    obtain ⟨hMem', rfl⟩ := (container?_eq_some_iff hUnique).mp hd
    have hAfter : g'.groupIn (some d.core.id) ids id name settings =
        (d.groupInside ids id name settings).map fun _ =>
          g'.mapRoots (·.regroupAt d.core.id ids id name settings) :=
      groupIn_after hUnique hNew' hInside hd hOther.symm fun hb' => hb (Option.some.inj hb').symm
    rw [hAfter, groupIn_of_container? hUnique hd]
    obtain ⟨-, -, -, -, rfl⟩ := exists_container?_of_groupIn hUnique hInside
    have hOuter : d.core.id ≠ b := fun hSame => hOther (congrArg some hSame)
    cases d.groupInside ids id name settings with
    | error err => rfl
    | ok d' =>
      -- the two edits are made in the other order
      refine congrArg Except.ok (mapRoots_comm (fun n => ?_) g).symm
      exact Node.regroupAt_comm hOuter hb (hNew' _ hMem').symm n

theorem groupIn_comm :
    (∃ g', g.groupIn scope ids id name settings = .ok g' ∧
        g'.groupIn (some b) ids' id' name' settings' = .ok k) ↔
      ∃ g', g.groupIn (some b) ids' id' name' settings' = .ok g' ∧
        g'.groupIn scope ids id name settings = .ok k := by
  have hScope : scope ≠ some id' := scope_ne_of_new hUnique hNew' hs
  have hBefore : g.groupIn (some b) ids' id' name' settings' = _ :=
    groupIn_of_container? hUnique he
  constructor
  · rintro ⟨g₁, h₁, h⟩
    -- what the second grouping does is not changed by the first, so it may come before
    rw [groupIn_after hUnique hNew h₁ he hOther hScope] at h
    obtain ⟨e', hInside, rfl⟩ := map_eq_ok.mp h
    rw [hInside] at hBefore
    refine ⟨_, hBefore, ?_⟩
    rw [groupIn_mapRoots hUnique hNew hNew' he hOther hs hBefore, h₁]
    rfl
  · rintro ⟨g₂, h₂, h⟩
    rw [groupIn_mapRoots hUnique hNew hNew' he hOther hs h₂] at h
    obtain ⟨g₁, h₁, rfl⟩ := map_eq_ok.mp h
    obtain ⟨e', hInside, -⟩ := map_eq_ok.mp (hBefore.symm.trans h₂)
    refine ⟨g₁, h₁, ?_⟩
    rw [groupIn_after hUnique hNew h₁ he hOther hScope, hInside]
    rfl

end Commute

/-- Groupings in any two scopes commute. -/
theorem groupIn_groupIn_iff (hUnique : g.UniqueIds) (hNew : ∀ n ∈ g.allNodes, n.id ≠ id)
    (hNew' : ∀ n ∈ g.allNodes, n.id ≠ id') {scope scope' : ScopeId} (hApart : scope ≠ scope')
    {s s' : Scope Node} (hs : g.scope? scope = some s) (hs' : g.scope? scope' = some s') :
    (∃ g', g.groupIn scope ids id name settings = .ok g' ∧
        g'.groupIn scope' ids' id' name' settings' = .ok k) ↔
      ∃ g', g.groupIn scope' ids' id' name' settings' = .ok g' ∧
        g'.groupIn scope ids id name settings = .ok k := by
  -- one of them is not the root
  cases scope' with
  | some b =>
    obtain ⟨e, he, -⟩ := Option.map_eq_some_iff.mp hs'
    exact groupIn_comm hUnique hNew hNew' he hApart hs
  | none =>
    cases scope with
    | none => exact absurd rfl hApart
    | some a =>
      obtain ⟨e, he, -⟩ := Option.map_eq_some_iff.mp hs
      exact (groupIn_comm hUnique hNew' hNew he hApart.symm hs').symm

/-! ## Selections -/

/-- The nodes with the ids, as far as they are there, stand in the scope. -/
def LieIn (g : FlowGraph) (ids : List String) (scope : ScopeId) : Prop :=
  ∀ i ∈ ids, ∀ place ∈ g.scopeOf? i, place = scope

instance (g : FlowGraph) (ids : List String) (scope : ScopeId) : Decidable (g.LieIn ids scope) :=
  inferInstanceAs (Decidable (∀ i ∈ ids, ∀ place ∈ g.scopeOf? i, place = scope))

theorem LieIn.group_eq_ok_iff (h : g.LieIn ids scope) :
    g.group ids id name settings = .ok g' ↔
      (∃ i ∈ ids, g.scopeOf? i = some scope) ∧ g.groupIn scope ids id name settings = .ok g' := by
  constructor
  · intro hGroup
    obtain ⟨place, ⟨⟨i, hi, hPlace⟩, -⟩, hIn, -⟩ := groupIn_of_group hGroup
    obtain rfl := h i hi place hPlace
    exact ⟨⟨i, hi, hPlace⟩, hIn⟩
  · rintro ⟨hThere, hIn⟩
    rw [group_eq_groupIn hThere h, hIn]

section Selections

variable (hUnique : g.UniqueIds) (hNew : ∀ n ∈ g.allNodes, n.id ≠ id)

include hUnique hNew

/-- Only the new node was in no scope before a grouping. -/
theorem exists_scopeOf?_of_groupIn (h : g.groupIn scope ids id name settings = .ok g') {i : String}
    (hi : i ≠ id) {place : ScopeId} (hPlace : g'.scopeOf? i = some place) :
    ∃ before, g.scopeOf? i = some before := by
  obtain ⟨s, n, hs, hn, rfl⟩ :=
    (scopeOf?_eq_some_iff (unique_of_groupIn hUnique hNew h)).mp hPlace
  have hMem : n.id ∈ id :: g.allNodes.map (·.id) :=
    (ids_of_groupIn h).mem_iff.mp (List.mem_map_of_mem (mem_allNodes_of_scope? hs hn))
  obtain ⟨m, hm, hId⟩ := List.mem_map.mp ((List.mem_cons.mp hMem).resolve_left hi)
  obtain ⟨before, -, hBefore, -⟩ := exists_scope hUnique hm
  exact ⟨before, hId ▸ hBefore⟩

/-- A selection stays in its scope when nodes of another one are grouped. -/
theorem LieIn.of_groupIn {other : ScopeId} (hLie : g.LieIn ids' other) (hOut : id ∉ ids')
    (hOther : scope ≠ other) (h : g.groupIn scope ids id name settings = .ok g') :
    g'.LieIn ids' other ∧
      ∀ i ∈ ids', g'.scopeOf? i = some other ↔ g.scopeOf? i = some other := by
  have hStays : ∀ i, g.scopeOf? i = some other → g'.scopeOf? i = some other := by
    intro i hi
    obtain ⟨s, -, hs, -⟩ := (scopeOf?_eq_some_iff hUnique).mp hi
    exact (scopeOf?_of_groupIn hUnique hNew h hOther hs i).mpr hi
  -- the ids in question are not that of the new container, so they were there before
  have hStood : ∀ i ∈ ids', ∀ place, g'.scopeOf? i = some place → g.scopeOf? i = some other := by
    intro i hi place hPlace
    obtain ⟨before, hBefore⟩ :=
      exists_scopeOf?_of_groupIn hUnique hNew h (ne_of_mem_of_not_mem hi hOut) hPlace
    rwa [hLie i hi before hBefore] at hBefore
  refine ⟨fun i hi place hPlace => ?_, fun i hi => ⟨hStood i hi other, hStays i⟩⟩
  exact Option.some.inj (hPlace.symm.trans (hStays i (hStood i hi place hPlace)))

/-- Two selections are grouped, one after the other, each in its scope. -/
theorem LieIn.group_group_iff {other : ScopeId} (hLie : g.LieIn ids scope)
    (hLie' : g.LieIn ids' other) (hOut : id ∉ ids') (hOther : scope ≠ other) :
    (∃ g', g.group ids id name settings = .ok g' ∧
        g'.group ids' id' name' settings' = .ok k) ↔
      (∃ i ∈ ids, g.scopeOf? i = some scope) ∧ (∃ i ∈ ids', g.scopeOf? i = some other) ∧
        ∃ g', g.groupIn scope ids id name settings = .ok g' ∧
          g'.groupIn other ids' id' name' settings' = .ok k := by
  constructor
  · rintro ⟨g', hFirst, hSecond⟩
    obtain ⟨hThere, hFirst⟩ := hLie.group_eq_ok_iff.mp hFirst
    -- the second selection still lies where it lay
    obtain ⟨hLater, hPlaces⟩ := hLie'.of_groupIn hUnique hNew hOut hOther hFirst
    obtain ⟨⟨i, hi, hPlace⟩, hSecond⟩ := hLater.group_eq_ok_iff.mp hSecond
    exact ⟨hThere, ⟨i, hi, (hPlaces i hi).mp hPlace⟩, g', hFirst, hSecond⟩
  · rintro ⟨hThere, ⟨i, hi, hPlace⟩, g', hFirst, hSecond⟩
    obtain ⟨hLater, hPlaces⟩ := hLie'.of_groupIn hUnique hNew hOut hOther hFirst
    exact ⟨g', hLie.group_eq_ok_iff.mpr ⟨hThere, hFirst⟩,
      hLater.group_eq_ok_iff.mpr ⟨⟨i, hi, (hPlaces i hi).mpr hPlace⟩, hSecond⟩⟩

end Selections

/-- Nodes of two scopes may be grouped in either order: both orders succeed, or neither does,
and the graph is the same. The ids of the new containers are those of no node, and neither is
selected by the other grouping. -/
theorem group_comm (hUnique : g.UniqueIds) (hNew : ∀ n ∈ g.allNodes, n.id ≠ id)
    (hNew' : ∀ n ∈ g.allNodes, n.id ≠ id') (hOut : id ∉ ids') (hOut' : id' ∉ ids)
    {scope scope' : ScopeId} (hApart : scope ≠ scope') (hLie : g.LieIn ids scope)
    (hLie' : g.LieIn ids' scope') :
    (∃ g', g.group ids id name settings = .ok g' ∧
        g'.group ids' id' name' settings' = .ok k) ↔
      ∃ g', g.group ids' id' name' settings' = .ok g' ∧
        g'.group ids id name settings = .ok k := by
  -- each order comes down to grouping in the one scope and in the other
  rw [hLie.group_group_iff hUnique hNew hLie' hOut hApart,
    hLie'.group_group_iff hUnique hNew' hLie hOut' hApart.symm, and_left_comm]
  refine and_congr_right fun hThere' => and_congr_right fun hThere => ?_
  obtain ⟨i, -, hPlace⟩ := hThere
  obtain ⟨i', -, hPlace'⟩ := hThere'
  obtain ⟨s, -, hs, -⟩ := (scopeOf?_eq_some_iff hUnique).mp hPlace
  obtain ⟨s', -, hs', -⟩ := (scopeOf?_eq_some_iff hUnique).mp hPlace'
  exact groupIn_groupIn_iff hUnique hNew hNew' hApart hs hs'

/-- The line, in which nodes are grouped, is itself one of those grouped at the root. -/
theorem plant_group_comm :
    ∃ g₁ g₂ k, plant.group ["source", "line"] "intake" "Intake" .standard = .ok g₁ ∧
      g₁.group ["mill", "drill"] "cell" "Cell" .standard = .ok k ∧
      plant.group ["mill", "drill"] "cell" "Cell" .standard = .ok g₂ ∧
      g₂.group ["source", "line"] "intake" "Intake" .standard = .ok k := by
  -- one order by evaluation, the other one by the theorem
  have hBoth : (do
      let g₁ ← plant.group ["source", "line"] "intake" "Intake" .standard
      g₁.group ["mill", "drill"] "cell" "Cell" .standard).toOption.isSome = true := by
    decide +kernel
  obtain ⟨k, hBoth⟩ := exists_eq_ok hBoth
  obtain ⟨g₁, hFirst, hSecond⟩ := bind_eq_ok.mp hBoth
  have hUnique : plant.UniqueIds := by decide +kernel
  have hLie : plant.LieIn ["source", "line"] none := by decide +kernel
  have hLie' : plant.LieIn ["mill", "drill"] (some "line") := by decide +kernel
  obtain ⟨g₂, hFirst', hSecond'⟩ := (group_comm hUnique (by decide +kernel) (by decide +kernel)
    (by decide) (by decide) (Option.some_ne_none "line").symm hLie hLie').mp ⟨g₁, hFirst, hSecond⟩
  exact ⟨g₁, g₂, k, hFirst, hSecond, hFirst', hSecond'⟩

end FlowGraph

end FlowNest
