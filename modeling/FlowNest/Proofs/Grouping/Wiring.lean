import FlowNest.Proofs.Grouping.Editing

/-!
# FlowNest — grouping and ungrouping keep the wiring

Data that leaves a connection's source goes down through boundaries until it
arrives at a port that leads no further, and so it does from the target. Neither
operation changes these ends of any connection, in any scope, although both
change what the connections refer to on the way.

* `FlowGraph.group_keeps_wiring`   — for grouping, whatever the boundaries record;
* `FlowGraph.ungroup_keeps_wiring` — for ungrouping in a valid graph, which always
  succeeds.
-/

namespace FlowNest

/-- A list is split by a function that may give nothing for its elements. -/
theorem map_perm_filterMap_append {α β γ : Type} {f : α → Option β} {p : α → Bool} {h : β → γ}
    {k : α → γ} (hp : ∀ a, p a = true ↔ f a = none) (l : List α) :
    (l.map fun a => (f a).elim (k a) h).Perm
      ((l.filterMap f).map h ++ (l.filter p).map k) := by
  induction l with
  | nil => exact .refl _
  | cons a rest ih =>
    rw [List.map_cons]
    cases hf : f a with
    | none =>
      rw [List.filterMap_cons_none hf, List.filter_cons_of_pos ((hp a).mpr hf), List.map_cons]
      -- a value that is left out has to pass those that were taken
      exact (ih.cons _).trans List.perm_middle.symm
    | some b =>
      have hNot : ¬p a = true := by
        intro hTrue
        rw [(hp a).mp hTrue] at hf
        cases hf
      rw [List.filterMap_cons_some hf, List.filter_cons_of_neg hNot, List.map_cons]
      exact ih.cons _

namespace FlowGraph

/-- In `k`, the connection `y` carries what `x` carries in `g`, from where it comes
from to where it goes. -/
structure Carries (g k : FlowGraph) (x y : Connection) : Prop where
  id : y.id = x.id
  capacity : y.capacity = x.capacity
  packetType : y.packetType = x.packetType
  ends : k.ends y = g.ends x

/-- An id that no node has and nothing refers to. -/
structure Unused (g : FlowGraph) (id : String) : Prop where
  nodes : ∀ n ∈ g.allNodes, n.id ≠ id
  connections : ∀ x ∈ g.placedConnections, x.2.source.node ≠ id ∧ x.2.target.node ≠ id
  mappings : ∀ e : Container Node, .graph e ∈ g.allNodes → ∀ (key : String) (m : PortMapping),
    e.boundary.mappings[key]? = some m → m.child ≠ id

theorem unused_iff {g : FlowGraph} {id : String} :
    g.Unused id ↔ (∀ n ∈ g.allNodes, n.id ≠ id) ∧
      (∀ x ∈ g.placedConnections, x.2.source.node ≠ id ∧ x.2.target.node ≠ id) ∧
      ∀ n ∈ g.allNodes, ∀ e ∈ n.graph?, ∀ entry ∈ e.boundary.mappings.toList,
        entry.2.child ≠ id := by
  constructor
  · intro h
    refine ⟨h.nodes, h.connections, ?_⟩
    intro n hn e he entry hEntry
    -- only a container has mappings to look at
    obtain rfl : n = .graph e := by
      cases n with
      | code _ => cases he
      | graph k => cases he; rfl
    exact h.mappings e hn entry.1 entry.2 (Std.ExtTreeMap.mem_toList_iff_getElem?_eq_some.mp hEntry)
  · rintro ⟨hNodes, hConnections, hMappings⟩
    refine ⟨hNodes, hConnections, ?_⟩
    intro e he key m hm
    exact hMappings _ he e rfl (key, m) (Std.ExtTreeMap.mem_toList_iff_getElem?_eq_some.mpr hm)

instance (g : FlowGraph) (id : String) : Decidable (g.Unused id) :=
  decidable_of_iff' _ unused_iff

theorem carries_of_bottom {g k : FlowGraph} {x y : Connection} (hId : y.id = x.id)
    (hCapacity : y.capacity = x.capacity) (hType : y.packetType = x.packetType)
    (hSource : k.bottom y.source = g.bottom x.source)
    (hTarget : k.bottom y.target = g.bottom x.target) : g.Carries k x y :=
  ⟨hId, hCapacity, hType, by rw [ends_eq, ends_eq, hSource, hTarget]⟩

end FlowGraph

/-! ## Connections of a grouping -/

namespace Scope

variable {s : Scope Node} {ids : List String} {c : Container Node} {scope : ScopeId}
  {x : Connection}

/-- Where a connection of the scope is after a grouping. -/
def settle (ids : List String) (c : Container Node) (scope : ScopeId) (x : Connection) :
    ScopeId × Connection :=
  (redirect? ids c x).elim (some c.core.id, x.inScope (some c.core.id)) (scope, ·)

theorem redirect?_eq_none_iff : redirect? ids c x = none ↔ x.relation ids = .inside := by
  rw [redirect?]
  cases x.relation ids <;> simp

/-- Each connection of the scope stays or moves into the container. -/
theorem settle_perm (hTakes : c.Takes s ids) :
    (s.connections.map (settle ids c scope)).Perm
      ((s.collapse ids c).connections.map (scope, ·) ++
        c.inside.connections.map (some c.core.id, ·)) := by
  rw [hTakes.connections, List.map_map]
  exact map_perm_filterMap_append (f := redirect? ids c) (p := (·.relation ids = .inside))
    (h := (scope, ·)) (k := fun x => (some c.core.id, x.inScope (some c.core.id)))
    (fun x => by rw [decide_eq_true_eq, redirect?_eq_none_iff]) s.connections

theorem scope_settle :
    (settle ids c scope x).1 = if x.relation ids = .inside then some c.core.id else scope := by
  rw [settle]
  -- only a connection that is not redirected goes inside
  cases hRedirect : redirect? ids c x with
  | none =>
    rw [if_pos (redirect?_eq_none_iff.mp hRedirect)]
    rfl
  | some y =>
    have hNot : x.relation ids ≠ .inside := by
      intro hInside
      rw [redirect?_eq_none_iff.mpr hInside] at hRedirect
      cases hRedirect
    rw [if_neg hNot]
    rfl

end Scope

namespace Folding

variable {g g' : FlowGraph} {c : Container Node} {scope : ScopeId} {s t : Scope Node}
  {ids : List String}

/-- An endpoint seen through the boundary leads where it led. -/
theorem bottom_throughBoundary (h : Folding g g' c scope s t) (hc : c.Opens) (d : Direction)
    {e : Endpoint} (hNode : e.node ≠ c.core.id) :
    g'.bottom (Scope.throughBoundary c d e) = g.bottom e := by
  rw [Scope.throughBoundary]
  cases hPort : c.boundary.portFor? d e with
  | none => exact h.bottom hNode
  | some p =>
    exact h.bottom_own (hc.lead?_of_portFor? hPort)

theorem carries_settle (h : Folding g g' c scope s t) (hc : c.Opens) {x : Connection}
    (hSource : x.source.node ≠ c.core.id) (hTarget : x.target.node ≠ c.core.id) :
    g.Carries g' x (Scope.settle ids c scope x).2 := by
  have hThrough := fun d e (hNode : e.node ≠ c.core.id) =>
    h.bottom_throughBoundary hc d (e := e) hNode
  rw [Scope.settle, Scope.redirect?]
  -- the end on the selected side now comes to rest behind the boundary port, the other one where
  -- it did
  cases x.relation ids with
  | inside => exact FlowGraph.carries_of_bottom rfl rfl rfl (h.bottom hSource) (h.bottom hTarget)
  | outside => exact FlowGraph.carries_of_bottom rfl rfl rfl (h.bottom hSource) (h.bottom hTarget)
  | leaving =>
    exact FlowGraph.carries_of_bottom rfl rfl rfl (hThrough .output _ hSource) (h.bottom hTarget)
  | entering =>
    exact FlowGraph.carries_of_bottom rfl rfl rfl (h.bottom hSource) (hThrough .input _ hTarget)

end Folding

namespace FlowGraph

variable {g g' : FlowGraph} {ids : List String} {id name : String} {settings : Settings}

/-- Grouping keeps where each endpoint leads to and the two ends of each connection.
A connection stays in its scope, or moves into the container if it is among the
selected nodes; those of other scopes stay as they are. -/
theorem group_keeps_wiring (hUnique : g.UniqueIds) (hPorts : ∀ n ∈ g.allNodes, n.TidyPorts)
    (hUnused : g.Unused id) (h : g.group ids id name settings = .ok g') :
    (∀ n ∈ g.allNodes, ∀ portId, g'.bottom ⟨n.id, portId⟩ = g.bottom ⟨n.id, portId⟩) ∧
      ∃ scope, (∀ i ∈ ids, ∀ place, g.scopeOf? i = some place → place = scope) ∧
        ∃ φ : ScopeId × Connection → ScopeId × Connection,
          (g.placedConnections.map φ).Perm g'.placedConnections ∧
            ∀ x ∈ g.placedConnections, g.Carries g' x.2 (φ x).2 ∧ (x.1 ≠ scope → φ x = x) ∧
              (φ x).1 = if x.1 = scope ∧ x.2.relation ids = .inside then some id else x.1 := by
  obtain ⟨scope, s, c, ⟨-, hTogether⟩, hGathers, hEdits⟩ := group_spec hUnique hPorts h
  have hFolding := folding_of_group hUnique hPorts hUnused.nodes hUnused.mappings hGathers hEdits
  have hOpens := hGathers.opens (tidy_of_scope? hUnique hPorts hEdits.scope?)
  obtain ⟨rest, hBefore, hAfter, hRest⟩ := hFolding.wires
  -- a connection of the scope is settled, and any other left alone
  refine ⟨?_, scope, hTogether,
    fun x => if x.1 = scope then Scope.settle ids c scope x.2 else x, ?_, ?_⟩
  · intro n hn portId
    exact hFolding.bottom (hGathers.id ▸ hUnused.nodes n hn)
  · refine ((hBefore.map _).trans ?_).trans hAfter.symm
    -- only those of the scope and of the container differ
    have hOthers : rest.map (fun x => if x.1 = scope then Scope.settle ids c scope x.2 else x) =
        rest := by
      rw [List.map_congr_left fun x hx => if_neg (hRest x hx).1, List.map_id']
    rw [List.map_append, hOthers, List.map_map, ← List.append_assoc]
    refine List.Perm.append_right _ (.trans ?_ (Scope.settle_perm hGathers.takes))
    exact .of_eq (List.map_congr_left fun x _ => if_pos rfl)
  · intro x hx
    obtain ⟨hSource, hTarget⟩ := hUnused.connections x hx
    rw [← hGathers.id] at hSource hTarget ⊢
    beta_reduce
    by_cases hScope : x.1 = scope
    · rw [if_pos hScope, Scope.scope_settle, hScope]
      refine ⟨hFolding.carries_settle hOpens hSource hTarget, fun hOther => absurd rfl hOther, ?_⟩
      simp only [true_and]
    · rw [if_neg hScope, if_neg fun hBoth => hScope hBoth.1]
      exact ⟨carries_of_bottom rfl rfl rfl (hFolding.bottom hSource) (hFolding.bottom hTarget),
        fun _ => rfl, rfl⟩

theorem plant_group_keeps_wiring :
    ∃ g', plant.group ["mill", "drill"] "cell" "Cell" .standard = .ok g' ∧
      plant.UniqueIds ∧ plant.Unused "cell" ∧
      ∀ n ∈ plant.allNodes, ∀ portId, g'.bottom ⟨n.id, portId⟩ = plant.bottom ⟨n.id, portId⟩ := by
  have hSome : (plant.group ["mill", "drill"] "cell" "Cell" .standard).toOption.isSome = true := by
    decide +kernel
  obtain ⟨g', hGroup⟩ := exists_eq_ok hSome
  have hUnique : plant.UniqueIds := by decide +kernel
  have hUnused : plant.Unused "cell" := by decide +kernel
  exact ⟨g', hGroup, hUnique, hUnused,
    (group_keeps_wiring hUnique (by decide +kernel) hUnused hGroup).1⟩

end FlowGraph

/-! ## Connections of an ungrouping -/

namespace Scope

/-- The connection as it is after the ungrouping, if it can be restored. -/
def lift (c : Container Node) (x : Connection) : Connection :=
  (restore? c x).getD x

/-- Where a connection is after the ungrouping of a container that stands in
`scope`. -/
def unsettle (c : Container Node) (scope : ScopeId) (x : ScopeId × Connection) :
    ScopeId × Connection :=
  if x.1 = some c.core.id then (scope, x.2.inScope scope)
  else if x.1 = scope then (scope, lift c x.2) else x

theorem unsettle_of_ne {c : Container Node} {scope : ScopeId} {x : ScopeId × Connection}
    (hScope : x.1 ≠ scope) (hOwn : x.1 ≠ some c.core.id) : unsettle c scope x = x :=
  (if_neg hOwn).trans (if_neg hScope)

end Scope

namespace FlowGraph

/-- Where a connection is placed there is a scope that has it. -/
theorem exists_of_mem_placedConnections {g : FlowGraph} (hUnique : g.UniqueIds)
    {x : ScopeId × Connection} (hx : x ∈ g.placedConnections) :
    ∃ s, g.scope? x.1 = some s ∧ x.2 ∈ s.connections := by
  rcases List.mem_append.mp hx with hx | hx
  · obtain ⟨y, hy, rfl⟩ := List.mem_map.mp hx
    exact ⟨g.root, rfl, hy⟩
  · obtain ⟨n, hn, hx⟩ := List.mem_flatMap.mp hx
    -- a code node places no connection
    cases n with
    | code _ => cases hx
    | graph c =>
      obtain ⟨y, hy, rfl⟩ := List.mem_map.mp hx
      refine ⟨c.inside, ?_, hy⟩
      rw [scope?, (container?_eq_some_iff hUnique).mpr ⟨hn, rfl⟩]
      rfl

end FlowGraph

namespace Folding

variable {flat folded : FlowGraph} {c : Container Node} {scope : ScopeId} {s t : Scope Node}

/-- What an endpoint of the scope is seen from without the container leads where the
endpoint led, and there is such an endpoint. -/
theorem bottom_throughMapping? (h : Folding flat folded c scope s t) (ht : t.Tidy)
    (hc : .graph c ∈ t.nodes)
    (hLeads : ∀ own ∈ c.boundary.ports, (c.resolve? own.port.id).isSome) {e : Endpoint}
    (he : (t.port? e).isSome) :
    ∃ e', Scope.throughMapping? c e = some e' ∧ flat.bottom e' = folded.bottom e := by
  rw [Scope.throughMapping?_eq]
  -- an end on the container goes through its port, any other stays where it is
  by_cases hOwn : e.node = c.core.id
  · obtain ⟨p, hp⟩ := Option.isSome_iff_exists.mp he
    obtain ⟨own, hMem, -, rfl⟩ := Container.exists_own ht hc hOwn hp
    have hSome : (c.lead? own.port.id).isSome := by
      rw [Container.lead?, Option.isSome_map]
      exact hLeads own hMem
    obtain ⟨e', hLead⟩ := Option.isSome_iff_exists.mp hSome
    rw [if_pos rfl]
    exact ⟨e', hLead, (h.bottom_own hLead).symm⟩
  · rw [if_neg hOwn]
    exact ⟨e, rfl, (h.bottom hOwn).symm⟩

/-- A connection between two ports is restored. -/
theorem carries_lift (h : Folding flat folded c scope s t) (ht : t.Tidy) (hc : .graph c ∈ t.nodes)
    (hLeads : ∀ own ∈ c.boundary.ports, (c.resolve? own.port.id).isSome) {x : Connection}
    (hx : (t.port? x.source).isSome ∧ (t.port? x.target).isSome) :
    Scope.restore? c x = some (Scope.lift c x) ∧ folded.Carries flat x (Scope.lift c x) := by
  obtain ⟨source, hSource, hSourceBottom⟩ := h.bottom_throughMapping? ht hc hLeads hx.1
  obtain ⟨target, hTarget, hTargetBottom⟩ := h.bottom_throughMapping? ht hc hLeads hx.2
  have hRestore : Scope.restore? c x = some { x with source, target } :=
    Scope.restore?_eq_some_iff.mpr ⟨source, target, hSource, hTarget, rfl⟩
  rw [Scope.lift, hRestore]
  exact ⟨rfl, FlowGraph.carries_of_bottom rfl rfl rfl hSourceBottom hTargetBottom⟩

/-- Each connection is one after the ungrouping, and none is lost. -/
theorem unsettle_perm (h : Folding flat folded c scope (t.expand c scope) t)
    (hBeside : scope ≠ some c.core.id)
    (hRestore : ∀ x ∈ t.connections, Scope.restore? c x = some (Scope.lift c x)) :
    (folded.placedConnections.map (Scope.unsettle c scope)).Perm flat.placedConnections := by
  obtain ⟨rest, hAfter, hBefore, hRest⟩ := h.wires
  -- the connections of the scope are restored
  have hScope : (t.connections.map (scope, ·)).map (Scope.unsettle c scope) =
      (t.connections.filterMap (Scope.restore? c)).map (scope, ·) := by
    rw [List.filterMap_eq_map_iff_forall_eq_some.mpr hRestore, List.map_map, List.map_map]
    exact List.map_congr_left fun x _ => (if_neg hBeside).trans (if_pos rfl)
  -- those inside of the container move up
  have hInside : (c.inside.connections.map (some c.core.id, ·)).map (Scope.unsettle c scope) =
      (c.inside.connections.map (·.inScope scope)).map (scope, ·) := by
    rw [List.map_map, List.map_map]
    exact List.map_congr_left fun x _ => if_pos rfl
  -- and all others stay
  have hOthers : rest.map (Scope.unsettle c scope) = rest := by
    rw [List.map_congr_left fun x hx => Scope.unsettle_of_ne (hRest x hx).1 (hRest x hx).2,
      List.map_id']
  refine ((hBefore.map _).trans (.of_eq ?_)).trans hAfter.symm
  rw [List.map_append, List.map_append, hScope, hInside, hOthers, ← List.append_assoc,
    ← List.map_append]
  rfl

end Folding

namespace FlowGraph

variable {g : FlowGraph}

/-- What is connected in another scope is not the container. -/
theorem node_ne_of_port? {c : Container Node} {scope place : ScopeId} {s content : Scope Node}
    (hUnique : g.UniqueIds) (hPorts : ∀ n ∈ g.allNodes, n.TidyPorts)
    (hScope : g.scope? scope = some s) (hc : .graph c ∈ s.nodes)
    (hPlace : g.scope? place = some content) (hOther : place ≠ scope) {e : Endpoint}
    (he : (content.port? e).isSome) : e.node ≠ c.core.id := by
  obtain ⟨p, hp⟩ := Option.isSome_iff_exists.mp he
  obtain ⟨n, hn, hId, -⟩ := (tidy_of_scope? hUnique hPorts hPlace).port?_eq_some_iff.mp hp
  intro hOwn
  -- the container would be in two scopes at once
  have hHere : g.scopeOf? c.core.id = some scope :=
    (scopeOf?_eq_some_iff hUnique).mpr ⟨s, .graph c, hScope, hc, rfl⟩
  have hThere : g.scopeOf? c.core.id = some place :=
    (scopeOf?_eq_some_iff hUnique).mpr ⟨content, n, hPlace, hn, hId.trans hOwn⟩
  rw [hHere] at hThere
  exact hOther (Option.some.inj hThere).symm

/-- Ungrouping a container of a valid graph succeeds. It takes the container out and
nothing else, and keeps the two ends of each connection, in all scopes. -/
theorem ungroup_keeps_wiring {c : Container Node} (hValid : g.validate.success = true)
    (hSorts : ∀ n ∈ g.allNodes, n.SortsPorts)
    (hResolves : ∀ e : Container Node, .graph e ∈ g.allNodes → e.Resolves)
    (hc : .graph c ∈ g.allNodes) :
    ∃ g' scope, g.ungroup c.core.id = .ok g' ∧ g.scopeOf? c.core.id = some scope ∧
      g'.UniqueIds ∧ g'.find? c.core.id = none ∧
      (g.outlines.map Outline.shell).Perm
        ((Node.graph c).outline.shell :: g'.outlines.map Outline.shell) ∧
      ∃ φ : ScopeId × Connection → ScopeId × Connection,
        (g.placedConnections.map φ).Perm g'.placedConnections ∧
          ∀ x ∈ g.placedConnections, g.Carries g' x.2 (φ x).2 ∧
            (φ x).1 = if x.1 = some c.core.id then scope else x.1 := by
  have hSound := validate_success_iff.mp hValid
  have hUnique := hSound.unique
  have hPorts := hSound.tidyPorts hSorts
  obtain ⟨scope, s, hScope, hContent, hMem⟩ := exists_scope hUnique hc
  obtain ⟨g', hUngroup, hEdits⟩ := ungroup_spec hUnique hPorts hContent hMem
  have hLeads : ∀ own ∈ c.boundary.ports, (c.resolve? own.port.id).isSome := fun own hOwn =>
    (hSound.containers c hc).isSome_resolve? (hPorts _ hc) hOwn
  have hFolding := folding_of_ungroup hSound hPorts hMem hEdits
  have hBeside : scope ≠ some c.core.id := hUnique.scope_ne hContent hMem
  have hLift : ∀ x ∈ s.connections, Scope.restore? c x = some (Scope.lift c x) ∧
      g.Carries g' x (Scope.lift c x) := fun x hx =>
    hFolding.carries_lift (tidy_of_scope? hUnique hPorts hContent) hMem hLeads
      (hSound.isSome_port? hResolves hContent hx)
  refine ⟨g', scope, hUngroup, hScope, hFolding.flatIds, ?_, hFolding.shells,
    Scope.unsettle c scope, hFolding.unsettle_perm hBeside fun x hx => (hLift x hx).1, ?_⟩
  · exact find?_eq_none_iff.mpr fun n hn => hFolding.id_ne hn
  · intro x hx
    obtain ⟨content, hPlace, hIn⟩ := exists_of_mem_placedConnections hUnique hx
    rw [Scope.unsettle]
    by_cases hHere : x.1 = scope
    · rw [hHere, hContent] at hPlace
      cases hPlace
      rw [hHere, if_neg hBeside, if_pos rfl, if_neg hBeside]
      exact ⟨(hLift x.2 hIn).2, rfl⟩
    · -- in another scope both ends are at nodes that stay
      obtain ⟨hSource, hTarget⟩ := hSound.isSome_port? hResolves hPlace hIn
      have hSourceNode := node_ne_of_port? hUnique hPorts hContent hMem hPlace hHere hSource
      have hTargetNode := node_ne_of_port? hUnique hPorts hContent hMem hPlace hHere hTarget
      have hSourceEnd := (hFolding.bottom hSourceNode).symm
      have hTargetEnd := (hFolding.bottom hTargetNode).symm
      by_cases hOwn : x.1 = some c.core.id
      · rw [if_pos hOwn, if_pos hOwn]
        exact ⟨carries_of_bottom rfl rfl rfl hSourceEnd hTargetEnd, rfl⟩
      · rw [if_neg hOwn, if_neg hHere, if_neg hOwn]
        exact ⟨carries_of_bottom rfl rfl rfl hSourceEnd hTargetEnd, rfl⟩

theorem plant_ungroup_keeps_wiring :
    ∃ g' scope, plant.ungroup "line" = .ok g' ∧ plant.scopeOf? "line" = some scope ∧
      g'.find? "line" = none ∧ ∃ φ : ScopeId × Connection → ScopeId × Connection,
        (plant.placedConnections.map φ).Perm g'.placedConnections ∧
          ∀ x ∈ plant.placedConnections, plant.Carries g' x.2 (φ x).2 := by
  have hLine : .graph line ∈ plant.allNodes := List.mem_cons_of_mem _ List.mem_cons_self
  have hResolves : ∀ e : Container Node, .graph e ∈ plant.allNodes → e.Resolves :=
    forall_containers (by decide +kernel)
  obtain ⟨g', scope, hUngroup, hScope, -, hGone, -, φ, hPerm, hCarries⟩ :=
    ungroup_keeps_wiring plant_valid plant_sortsPorts hResolves hLine
  exact ⟨g', scope, hUngroup, hScope, hGone, φ, hPerm, fun x hx => (hCarries x hx).1⟩

end FlowGraph

end FlowNest
