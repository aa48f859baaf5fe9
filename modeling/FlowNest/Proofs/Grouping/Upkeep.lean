import FlowNest.Proofs.Grouping.Editing
import FlowNest.Proofs.WellMade

/-!
# FlowNest — grouping and ungrouping keep graphs well-made

Both operations touch three things: the content of a scope, the container that is
made or goes, and the container around the scope. That each is well-made again
comes down to the ports at which connections and mappings end: wherever one of
them is led elsewhere, the port there has the direction and the type of the port
that it stands for.

* `Edits.wellMade`                — what an edit of a scope has to keep;
* `FlowGraph.wellMade_of_group`   — grouping keeps it;
* `FlowGraph.wellMade_of_ungroup` — and so does ungrouping.
-/

namespace FlowNest

/-- The port may take the other's place at the end of a connection. -/
structure Port.StandsFor (p q : Port) : Prop where
  direction : p.direction = q.direction
  dataType : p.dataType = q.dataType

theorem Port.feeds_congr {p p' q q' : Port} (hp : p'.StandsFor p) (hq : q'.StandsFor q)
    (h : p.feeds q = true) : p'.feeds q' = true := by
  rw [feeds, hp.direction, hp.dataType, hq.direction, hq.dataType]
  exact h

theorem Port.StandsFor.refl (p : Port) : p.StandsFor p :=
  ⟨rfl, rfl⟩

/-- An id that begins with one that is not blank is not blank. -/
theorem Port.isBlank_idOf {owner name : String} (h : Text.isBlank owner = false) :
    Text.isBlank (Port.idOf owner name) = false := by
  rw [Text.isBlank, idOf, String.append_assoc, String.toList_append, List.all_append]
  rw [Text.isBlank] at h
  rw [h, Bool.false_and]

/-- A connection that is led elsewhere stays in its scope. -/
theorem Scope.scope_redirect {ids : List String} {c : Container Node} {x y : Connection}
    (h : redirect? ids c x = some y) : y.scope = x.scope := by
  rw [redirect?] at h
  cases hRelation : x.relation ids <;> rw [hRelation] at h <;> cases h <;> rfl

/-- A boundary is faithful to a scope if each of its ports is led to one there that
stands for the port it was led to before. -/
theorem Boundary.Rerouted.faithful
    {Led : BoundaryPort → Option PortMapping → Option PortMapping → BoundaryPort → Prop}
    {b b' : Boundary} {s t : Scope Node} (h : Boundary.Rerouted Led b b') (hb : b.Faithful s)
    (hLeads : ∀ p p' q after, s.port? p.inner = some q → q.direction = p.port.direction →
      Led p (some ⟨p.inner.node, q.name⟩) after p' →
        ∃ q', t.port? p'.inner = some q' ∧ q'.StandsFor q ∧
          after = some ⟨p'.inner.node, q'.name⟩) :
    b'.Faithful t where
  keys := by
    intro name m hm
    rw [h.names]
    -- names that no port has are mapped as before, which is not at all
    by_contra hName
    rw [h.others name hName] at hm
    exact hName (hb.keys name m hm)
  leads := by
    intro p' hp'
    obtain ⟨p, hp, hPort, hLed⟩ := exists_of_mem_forall₂ h.ports hp'
    obtain ⟨q, hq, hDirection, hType, hMapping⟩ := hb.leads p hp
    rw [hMapping] at hLed
    obtain ⟨q', hq', hStands, hAfter⟩ := hLeads p p' q _ hq hDirection hLed
    rw [hPort]
    exact ⟨q', hq', hStands.direction.trans hDirection, hStands.dataType.trans hType, hAfter⟩

namespace FlowGraph

variable {g g' : FlowGraph} {scope : ScopeId} {s t : Scope Node}

/-- What stands in a scope at any depth is in the graph. -/
theorem mem_outlines_of_mem_below (hUnique : g.UniqueIds) (hScope : g.scope? scope = some s)
    {o : Outline} (ho : o ∈ Forest.outlines s.nodes) : o ∈ g.outlines := by
  obtain ⟨n, hn, rfl⟩ := List.mem_map.mp ho
  refine mem_outlines ?_
  cases scope with
  | none =>
    cases hScope
    exact hn
  | some id =>
    obtain ⟨c, hc, rfl⟩ := Option.map_eq_some_iff.mp hScope
    have hMem := ((container?_eq_some_iff hUnique).mp hc).1
    -- what lies inside a container of the graph is below that container
    have hBelow : n ∈ (Node.graph c).preorder := by
      rw [Node.preorder_graph]
      exact List.mem_cons_of_mem _ hn
    exact (Forest.preorder_sublist _ hMem).subset hBelow

/-- An edit keeps a graph well-made if the new content is, with all containers below
it, and the boundary around it leads there. -/
theorem Edits.wellMade
    {Led : BoundaryPort → Option PortMapping → Option PortMapping → BoundaryPort → Prop}
    (h : g.Edits Led g' scope s t) (hg : g.WellMade) (hUnique : g'.UniqueIds)
    (hNodes : ∀ n ∈ g'.allNodes, n.WellMade) (hContent : t.WellMade scope)
    (hScopes : scope = none → ∀ x ∈ t.connections, x.scope = none) (hChildren : t.nodes ≠ [])
    (hBelow : ∀ k : Container Node, (Node.graph k).outline ∈ Forest.outlines t.nodes → k.WellMade)
    (hBoundary : ∀ (e : Container Node) (outside : Boundary), g.container? e.core.id = some e →
      s = e.inside → Boundary.Rerouted Led e.boundary outside → outside.Faithful t) :
    g'.WellMade := by
  cases h with
  | root =>
    refine ⟨hg.id, hg.name, hUnique, hScopes rfl, hContent, hNodes, ?_⟩
    exact fun k hk => hBelow k (mem_outlines hk)
  | @inside e outside t g' hFind hOutside hPut =>
    obtain ⟨nodes, rest, hPut', hFaces, hBefore, hAfter⟩ :=
      putContainer?_outlines hFind (face_of_rerouted hOutside t)
    rw [hPut] at hPut'
    obtain rfl := Option.some.inj hPut'
    -- the root sees the faces it saw, so only containers are left to look at
    refine ⟨hg.id, hg.name, hUnique, hg.scopes, hg.root.congr hFaces.symm rfl, hNodes, ?_⟩
    intro k hk
    rcases List.mem_cons.mp (hAfter.mem_iff.mp (mem_outlines hk)) with hOwn | hOther
    · -- the container around the scope
      have hAround : ({ e with boundary := outside, inside := t } : Container Node).WellMade :=
        ⟨hChildren, hContent, hBoundary e outside hFind rfl hOutside⟩
      exact hAround.congr hOwn.symm
    · rcases List.mem_append.mp hOther with hInside | hOutside
      · exact hBelow k hInside
      · refine wellMade_of_outline hg.containers (hBefore.mem_iff.mpr ?_)
        exact List.mem_cons_of_mem _ (List.mem_append_right _ hOutside)

end FlowGraph

/-! ## Grouping -/

section Group

variable {s : Scope Node} {c : Container Node} {ids : List String} {id name : String}

/-- What a grouping in a tidy scope is known to have made, under an id that no node
of the scope has. -/
structure Container.Gathers.Fresh (c : Container Node) (s : Scope Node) (ids : List String)
    (id name : String) : Prop where
  gathers : c.Gathers s ids id name
  tidy : s.Tidy
  fresh : ∀ n ∈ s.nodes, n.id ≠ c.core.id

namespace Container.Gathers.Fresh

variable (h : Fresh c s ids id name)

include h

theorem port?_collapse {e : Endpoint} {p : Port} :
    (s.collapse ids c).port? e = some p ↔
      (e.node ∉ ids ∧ s.port? e = some p) ∨
        (e.node = c.core.id ∧ p ∈ (Node.graph c).ports ∧ p.id = e.port) :=
  h.tidy.port?_collapse h.gathers.takes (tidyPorts_of_made h.gathers.made) h.fresh

theorem port?_inside {e : Endpoint} {p : Port} :
    c.inside.port? e = some p ↔ e.node ∈ ids ∧ s.port? e = some p :=
  h.gathers.takes.port?_inside h.tidy

/-- Each port of the container is found outside of it. -/
theorem port?_own {own : BoundaryPort} (hOwn : own ∈ c.boundary.ports) :
    (s.collapse ids c).port? ⟨c.core.id, own.port.id⟩ = some own.port := by
  refine h.port?_collapse.mpr (.inr ⟨rfl, ?_, rfl⟩)
  rw [ports_graph]
  exact List.mem_map_of_mem hOwn

/-- A port of the container stands for the port at its inner end. -/
theorem own_standsFor {own : BoundaryPort} (hOwn : own ∈ c.boundary.ports) {p : Port}
    (hp : s.port? own.inner = some p) : own.port.StandsFor p := by
  obtain ⟨q, hq, hDirection, hType, -⟩ := h.gathers.faithful.leads own hOwn
  have hSame := (h.port?_inside.mp hq).2
  rw [hp] at hSame
  obtain rfl := Option.some.inj hSame
  exact ⟨hDirection.symm, hType.symm⟩

/-- Where a connection crosses the selection, a port of the container stands for the
one at its inner end. -/
theorem exists_standsFor {x : Crossing} (hx : x ∈ s.crossings ids) :
    ∃ p, (s.collapse ids c).port? (Scope.throughBoundary c x.port.direction x.inner) = some p ∧
      p.StandsFor x.port := by
  cases hPort : c.boundary.portFor? x.port.direction x.inner with
  | none =>
    -- some port serves the crossing, so one is found
    obtain ⟨own, hOwn, hInner⟩ := h.gathers.serves x hx
    have hNot := List.find?_eq_none.mp hPort own hOwn
    exact absurd (decide_eq_true hInner) hNot
  | some own =>
    obtain ⟨hOwn, hInner⟩ := Boundary.mem_of_portFor? hPort
    have hp : s.port? own.inner = some x.port := hInner ▸ Scope.port?_of_mem_crossings hx
    rw [Scope.throughBoundary, hPort]
    exact ⟨own.port, h.port?_own hOwn, h.own_standsFor hOwn hp⟩

/-- A connection that stays outside is linked there. -/
theorem links_redirect {x y : Connection} (hx : x ∈ s.connections) (hLinks : s.Links x)
    (hRedirect : Scope.redirect? ids c x = some y) : (s.collapse ids c).Links y := by
  obtain ⟨hId, p, q, hp, hq, hFeeds⟩ := hLinks
  obtain ⟨hOutput, hInput⟩ := Port.directions_of_feeds hFeeds
  -- the end that stays keeps its port
  have hStays : ∀ {e : Endpoint} {k : Port}, e.node ∉ ids → s.port? e = some k →
      (s.collapse ids c).port? e = some k := fun hNode hk => h.port?_collapse.mpr (.inl ⟨hNode, hk⟩)
  rw [Scope.redirect?] at hRedirect
  cases hRelation : x.relation ids with
  | inside =>
    rw [hRelation] at hRedirect
    cases hRedirect
  | outside =>
    rw [hRelation] at hRedirect
    cases hRedirect
    obtain ⟨hSource, hTarget⟩ := Connection.relation_eq_outside_iff.mp hRelation
    exact ⟨hId, p, q, hStays hSource hp, hStays hTarget hq, hFeeds⟩
  | leaving =>
    rw [hRelation] at hRedirect
    cases hRedirect
    obtain ⟨-, hTarget⟩ := Connection.relation_eq_leaving_iff.mp hRelation
    have hCrossing : (⟨x.id, p, x.source, x.target⟩ : Crossing) ∈ s.crossings ids :=
      Scope.mem_crossings.mpr ⟨x, hx, rfl, hp, .inl ⟨hRelation, hOutput, rfl, rfl⟩⟩
    obtain ⟨p', hp', hStands⟩ := h.exists_standsFor hCrossing
    rw [hOutput] at hp'
    exact ⟨hId, p', q, hp', hStays hTarget hq, Port.feeds_congr hStands (.refl q) hFeeds⟩
  | entering =>
    rw [hRelation] at hRedirect
    cases hRedirect
    obtain ⟨hSource, -⟩ := Connection.relation_eq_entering_iff.mp hRelation
    have hCrossing : (⟨x.id, q, x.target, x.source⟩ : Crossing) ∈ s.crossings ids :=
      Scope.mem_crossings.mpr ⟨x, hx, rfl, hq, .inr ⟨hRelation, hInput, rfl, rfl⟩⟩
    obtain ⟨q', hq', hStands⟩ := h.exists_standsFor hCrossing
    rw [hInput] at hq'
    exact ⟨hId, p, q', hStays hSource hp, hq', Port.feeds_congr (.refl p) hStands hFeeds⟩

/-- The connections inside are those of the selected nodes. -/
theorem wellMade_inside (hs : ∀ x ∈ s.connections, s.Links x) :
    c.inside.WellMade (some c.core.id) where
  parents := h.gathers.takes.parents
  links := by
    intro y hy
    rw [h.gathers.takes.connections] at hy
    obtain ⟨x, hx, rfl⟩ := List.mem_map.mp hy
    obtain ⟨hMem, hInside⟩ := List.mem_filter.mp hx
    obtain ⟨hSource, hTarget⟩ := Connection.relation_eq_inside_iff.mp (of_decide_eq_true hInside)
    obtain ⟨hId, p, q, hp, hq, hFeeds⟩ := hs x hMem
    exact ⟨hId, p, q, h.port?_inside.mpr ⟨hSource, hp⟩, h.port?_inside.mpr ⟨hTarget, hq⟩, hFeeds⟩

theorem wellMade_collapse {scope : ScopeId} (hs : s.WellMade scope) :
    (s.collapse ids c).WellMade scope where
  parents := by
    intro n hn
    rcases (Scope.mem_collapse h.gathers.takes.selected).mp hn with rfl | ⟨hMem, -⟩
    · -- the container has the parent of the nodes it takes
      obtain ⟨m, hm, hParent⟩ := h.gathers.takes.parent
      exact hParent.trans (hs.parents m hm)
    · exact hs.parents n hMem
  links := by
    intro y hy
    obtain ⟨x, hx, hRedirect⟩ := List.mem_filterMap.mp hy
    exact h.links_redirect hx (hs.links x hx) hRedirect

theorem wellMade_container (hs : ∀ x ∈ s.connections, s.Links x) : c.WellMade where
  children := by
    intro hEmpty
    obtain ⟨n, hn, hId⟩ := h.gathers.takes.selected
    obtain ⟨m, hm, -⟩ := h.gathers.takes.exists_inside hn hId
    rw [hEmpty] at hm
    cases hm
  inside := h.wellMade_inside hs
  faithful := h.gathers.faithful

/-- The container is a proper node, under a name of its own and with a port. -/
theorem wellMade_node (hId : Text.isBlank id = false) (hName : Text.isBlank name = false)
    (hPorts : c.boundary.ports ≠ []) : (Node.graph c).WellMade := by
  have hTidy := Container.tidyPorts_of_made h.gathers.made
  have hOwn : Text.isBlank c.core.id = false := h.gathers.id ▸ hId
  refine ⟨⟨hOwn, h.gathers.name ▸ hName, ?_, ?_, hTidy.owned, hTidy.names⟩,
    ⟨hTidy.inputs, hTidy.outputs, hTidy.ids⟩, ?_⟩
  · show Text.isBlank c.core.kind = false
    rw [h.gathers.kind]
    decide
  · rw [ports_graph, ne_eq, List.map_eq_nil_iff]
    exact hPorts
  -- a boundary port is named by the container, whose id is not blank
  · intro p hp
    rw [ports_graph] at hp
    obtain ⟨own, hMem, rfl⟩ := List.mem_map.mp hp
    rw [(h.gathers.made.owned own hMem).2]
    exact Port.isBlank_idOf hOwn

end Container.Gathers.Fresh

/-- The boundary around the scope leads to its ports, or by way of the container's to
what they stand for. -/
theorem Container.Gathers.Fresh.faithful_outside {e : Container Node} {outside : Boundary}
    (h : Fresh c e.inside ids id name) (he : e.boundary.Faithful e.inside)
    (hLed : Boundary.Rerouted (c.LedThrough ids c.boundary) e.boundary outside) :
    outside.Faithful (e.inside.collapse ids c) := by
  refine hLed.faithful he ?_
  intro p p' q after hq hDirection hWay
  cases hWay with
  | away hAway =>
    exact ⟨q, h.port?_collapse.mpr (.inl ⟨hAway _ rfl, hq⟩), .refl q, rfl⟩
  | @through m own _ hOwn hAim =>
    have hMem : own ∈ c.boundary.ports := Boundary.mem_ports_iff.mpr ⟨_, hOwn⟩
    -- the port leads where the container's port does
    have hSame : own.inner = p.inner := by
      have hBefore := aim?_of_takes h.tidy h.gathers.takes hAim
      rw [(aim?_eq_some_iff h.tidy).mpr ⟨q, hq, rfl, hDirection⟩] at hBefore
      exact (Option.some.inj hBefore).symm
    rw [BoundaryPort.inner_withInner]
    exact ⟨own.port, h.port?_own hMem, h.own_standsFor hMem (hSame ▸ hq), rfl⟩

namespace FlowGraph

variable {g g' : FlowGraph} {settings : Settings}

/-- Grouping under a new id and a name keeps a graph well-made, if the new container
has a port. -/
theorem wellMade_of_group (hg : g.WellMade) (hId : Text.isBlank id = false)
    (hNew : ∀ n ∈ g.allNodes, n.id ≠ id) (hName : Text.isBlank name = false)
    (h : g.group ids id name settings = .ok g')
    (hPorts : ∀ c, g'.container? id = some c → c.boundary.ports ≠ []) : g'.WellMade := by
  obtain ⟨scope, s, c, -, hGathers, hEdits⟩ := group_spec hg.unique hg.tidyPorts h
  have hUnique := unique_of_group hg.unique hNew hGathers hEdits
  have hContent := hg.scope hEdits.scope?
  have hFresh : Container.Gathers.Fresh c s ids id name := by
    refine ⟨hGathers, tidy_of_scope? hg.unique hg.tidyPorts hEdits.scope?, ?_⟩
    intro n hn
    rw [hGathers.id]
    exact hNew n (mem_allNodes_of_scope? hEdits.scope? hn)
  have hThere : .graph c ∈ (s.collapse ids c).nodes :=
    (Scope.mem_collapse hGathers.takes.selected).mpr (.inl rfl)
  -- the condition on ports is about the graph that comes out, where the container is found
  have hNode : (Node.graph c).WellMade := by
    refine hFresh.wellMade_node hId hName (hPorts c ?_)
    have hMem := mem_allNodes_of_scope? (hEdits.scope?_after hUnique) hThere
    exact (container?_eq_some_iff hUnique).mpr ⟨hMem, hGathers.id⟩
  have hFolding := folding_of_group hg.unique hg.tidyPorts hNew
    (fun e he key m hm => hg.sound.child_ne hNew he hm) hGathers hEdits
  have hNodes := hFolding.forall_folded (P := Node.WellMade)
    (fun n m hShell hn => hn.of_shell hShell) hg.nodes hNode
  refine hEdits.wellMade hg hUnique hNodes (hFresh.wellMade_collapse hContent) ?_ ?_ ?_ ?_
  · rintro rfl y hy
    cases hEdits
    obtain ⟨x, hx, hRedirect⟩ := List.mem_filterMap.mp hy
    exact (Scope.scope_redirect hRedirect).trans (hg.scopes x hx)
  · exact List.ne_nil_of_mem hThere
  · intro k hk
    have hParts := (Scope.outlines_collapse hGathers.takes).mem_iff.mp hk
    rcases List.mem_cons.mp hParts with hOwn | hBelow
    · exact (hFresh.wellMade_container hContent.links).congr hOwn.symm
    · refine wellMade_of_outline hg.containers ?_
      exact mem_outlines_of_mem_below hg.unique hEdits.scope? hBelow
  · rintro e outside hFind rfl hLed
    have he := ((container?_eq_some_iff hg.unique).mp hFind).1
    exact hFresh.faithful_outside (hg.containers e he).faithful hLed

end FlowGraph

end Group

/-! ## Ungrouping -/

section Ungroup

variable {s : Scope Node} {c : Container Node} {scope : ScopeId}

/-- A tidy scope with a container in it that is tidy and faithful inside, where no
two nodes at any depth have one id. -/
structure Scope.Holds (s : Scope Node) (c : Container Node) : Prop where
  unique : ((Forest.preorder s.nodes).map (·.id)).Nodup
  container : .graph c ∈ s.nodes
  tidy : s.Tidy
  inside : c.inside.Tidy
  faithful : c.boundary.Faithful c.inside

namespace Scope.Holds

variable (h : s.Holds c)

include h

theorem port?_expand {e : Endpoint} {p : Port} :
    (s.expand c scope).port? e = some p ↔
      c.inside.port? e = some p ∨ e.node ≠ c.core.id ∧ s.port? e = some p :=
  Scope.port?_expand h.unique h.container h.tidy h.inside

/-- A port of the container, seen from the scope around it, and found by its name. -/
theorem exists_own {e : Endpoint} {p : Port} (hNode : e.node = c.core.id)
    (hp : s.port? e = some p) :
    ∃ own ∈ c.boundary.ports, own.port = p ∧ e.port = own.port.id ∧
      c.boundary.ports.find? (·.port.name = p.name) = some own := by
  obtain ⟨own, hOwn, rfl, hEnd⟩ := Container.exists_own h.tidy h.container hNode hp
  have hPortId : e.port = own.port.id := congrArg Endpoint.port hEnd
  exact ⟨own, hOwn, rfl, hPortId, Container.find?_named (h.tidy.ports _ h.container) hOwn⟩

/-- A port of the container leads to one that stands for it there. -/
theorem exists_resolve? (scope : ScopeId) {own : BoundaryPort} (hOwn : own ∈ c.boundary.ports) :
    ∃ n q, c.resolve? own.port.id = some (n, q) ∧
      (s.expand c scope).port? ⟨n.id, q.id⟩ = some q ∧ q.StandsFor own.port := by
  obtain ⟨n, q, hResolve, hInner, hPort, hDirection, hType⟩ := Container.resolve?_of_faithful
    (h.tidy.ports _ h.container) h.inside h.faithful hOwn
  exact ⟨n, q, hResolve, h.port?_expand.mpr (.inl (hInner ▸ hPort)), hDirection, hType⟩

/-- Where an endpoint is restored there is a port that stands for the one it had. -/
theorem exists_standsFor {e e' : Endpoint} {p : Port} (hp : s.port? e = some p)
    (he : Scope.throughMapping? c e = some e') :
    ∃ p', (s.expand c scope).port? e' = some p' ∧ p'.StandsFor p := by
  rw [Scope.throughMapping?_eq] at he
  -- an end on the container moves to the port inside that its own port stands for
  by_cases hNode : e.node = c.core.id
  · obtain ⟨own, hOwn, rfl, hPortId, -⟩ := h.exists_own hNode hp
    obtain ⟨n, q, hResolve, hPort, hStands⟩ := h.exists_resolve? scope hOwn
    rw [if_pos hNode, hPortId, Container.lead?, hResolve] at he
    cases he
    exact ⟨q, hPort, hStands⟩
  · rw [if_neg hNode] at he
    cases he
    exact ⟨p, h.port?_expand.mpr (.inr ⟨hNode, hp⟩), .refl p⟩

theorem wellMade_expand (hs : s.WellMade scope)
    (hLinks : ∀ x ∈ c.inside.connections, c.inside.Links x) :
    (s.expand c scope).WellMade scope where
  parents := by
    intro n hn
    rcases (Scope.mem_expand h.unique h.container).mp hn with ⟨k, -, rfl⟩ | ⟨hMem, -⟩
    · exact k.parent_withParent scope
    · exact hs.parents n hMem
  -- a restored connection has both ends on ports that stand for the old ones, so it is as
  -- compatible
  links := by
    intro y hy
    rcases List.mem_append.mp hy with hRestored | hInner
    · obtain ⟨x, hx, hRestore⟩ := List.mem_filterMap.mp hRestored
      obtain ⟨source, target, hSource, hTarget, rfl⟩ := Scope.restore?_eq_some_iff.mp hRestore
      obtain ⟨hId, p, q, hp, hq, hFeeds⟩ := hs.links x hx
      obtain ⟨p', hp', hSourceStands⟩ := h.exists_standsFor hp hSource
      obtain ⟨q', hq', hTargetStands⟩ := h.exists_standsFor hq hTarget
      exact ⟨hId, p', q', hp', hq', Port.feeds_congr hSourceStands hTargetStands hFeeds⟩
    · obtain ⟨x, hx, rfl⟩ := List.mem_map.mp hInner
      obtain ⟨hId, p, q, hp, hq, hFeeds⟩ := hLinks x hx
      exact ⟨hId, p, q, h.port?_expand.mpr (.inl hp), h.port?_expand.mpr (.inl hq), hFeeds⟩

end Scope.Holds

/-- The boundary around the scope leads to its ports, or to what the container's led
to. -/
theorem Scope.Holds.faithful_outside {e : Container Node} {outside : Boundary}
    (h : e.inside.Holds c) (he : e.boundary.Faithful e.inside)
    (hLed : Boundary.Rerouted c.LedAround e.boundary outside) :
    outside.Faithful (e.inside.expand c scope) := by
  refine hLed.faithful he ?_
  intro p p' q after hq hDirection hWay
  cases hWay with
  | past hPast =>
    refine ⟨q, h.port?_expand.mpr (.inr ⟨?_, hq⟩), .refl q, rfl⟩
    -- a port of the container would lead further
    intro hNode
    obtain ⟨own, hOwn, -, -, hFind⟩ := h.exists_own hNode hq
    obtain ⟨n, k, hResolve, -⟩ := h.exists_resolve? scope hOwn
    have hNone := hPast _ rfl
    rw [Container.further?_of_own hNode hFind, hResolve] at hNone
    cases hNone
  | @around m child k hFurther =>
    have hNode : p.inner.node = c.core.id := by
      by_contra hOther
      rw [Container.further?, if_neg hOther] at hFurther
      cases hFurther
    obtain ⟨own, hOwn, rfl, -, hFind⟩ := h.exists_own hNode hq
    obtain ⟨n, k, hResolve, hPort, hStands⟩ := h.exists_resolve? scope hOwn
    rw [Container.further?_of_own hNode hFind, hResolve] at hFurther
    cases hFurther
    rw [BoundaryPort.inner_withInner]
    exact ⟨k, hPort, hStands, rfl⟩

namespace FlowGraph

variable {g g' : FlowGraph}

/-- Ungrouping a container keeps a graph well-made. -/
theorem wellMade_of_ungroup (hg : g.WellMade) {id : String} (h : g.ungroup id = .ok g') :
    g'.WellMade := by
  obtain ⟨c, hc, rfl⟩ := exists_of_ungroup hg.unique h
  have hMade := hg.containers c hc
  obtain ⟨scope, s, -, hScope, hMem⟩ := exists_scope hg.unique hc
  obtain ⟨g'', hUngroup, hEdits⟩ := ungroup_spec hg.unique hg.tidyPorts hScope hMem
  rw [h] at hUngroup
  cases hUngroup
  have hContent := hg.scope hScope
  have hHolds : s.Holds c := ⟨hg.unique.scope hScope, hMem,
    tidy_of_scope? hg.unique hg.tidyPorts hScope, tidy_inside hg.unique hg.tidyPorts hc,
    hMade.faithful⟩
  have hFolding := folding_of_ungroup hg.sound hg.tidyPorts hMem hEdits
  have hNodes := hFolding.forall_flat (P := Node.WellMade)
    (fun n m hShell hn => hn.of_shell hShell) hg.nodes
  refine hEdits.wellMade hg hFolding.flatIds hNodes
    (hHolds.wellMade_expand hContent hMade.inside.links) ?_ ?_ ?_ ?_
  · rintro rfl y hy
    cases hEdits
    rcases List.mem_append.mp hy with hRestored | hInner
    · obtain ⟨x, hx, hRestore⟩ := List.mem_filterMap.mp hRestored
      obtain ⟨source, target, -, -, rfl⟩ := Scope.restore?_eq_some_iff.mp hRestore
      exact hg.scopes x hx
    · obtain ⟨x, -, rfl⟩ := List.mem_map.mp hInner
      rfl
  -- the container was not empty, and its children are there now
  · obtain ⟨k, hk⟩ := List.exists_mem_of_ne_nil _ hMade.children
    have hThere : k.withParent scope ∈ (s.expand c scope).nodes :=
      (Scope.mem_expand hHolds.unique hMem).mpr (.inl ⟨k, hk, rfl⟩)
    exact List.ne_nil_of_mem hThere
  · intro k hk
    refine wellMade_of_outline hg.containers ?_
    have hBefore := (Scope.outlines_expand hHolds.unique hMem).mem_iff.mpr
      (List.mem_cons_of_mem _ hk)
    exact mem_outlines_of_mem_below hg.unique hScope hBefore
  · rintro e outside hFind rfl hLed
    have he := ((container?_eq_some_iff hg.unique).mp hFind).1
    exact hHolds.faithful_outside (hg.containers e he).faithful hLed

end FlowGraph

end Ungroup

end FlowNest
