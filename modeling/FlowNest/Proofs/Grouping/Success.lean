import FlowNest.Proofs.Gaps
import FlowNest.Proofs.Grouping.Refusal
import FlowNest.Proofs.Grouping.Upkeep

/-!
# FlowNest — what a grouping in a good graph can fail of

In a valid graph whose ports and inner connections are in order, nothing about the graph
itself stands in the way of a grouping. It takes two nodes of one scope, and places for
them on the canvas.

* `Scope.Linked.not_refuses`       — each port that crossings need can be made;
* `PassLaw.exists_run`             — ports are led to the end if each can be led alone;
* `Container.exists_routeThrough`  — so a container can be led through a new one;
* `FlowGraph.group_outcome`        — all outcomes of a grouping, and when each comes.
-/

namespace FlowNest

/-! ## The boundary -/

namespace Scope

variable {s : Scope Node} {ids : List String} {x : Connection} {d : Direction}

/-- A tidy scope of well-made nodes, with connections from port to port only. -/
structure Linked (s : Scope Node) : Prop where
  tidy : s.Tidy
  nodes : ∀ n ∈ s.nodes, n.WellMade
  links : ∀ x ∈ s.connections, s.Links x

namespace Linked

/-- In a linked scope both ends of a connection are found. -/
theorem exists_ends (hs : s.Linked) (hx : x ∈ s.connections) (d : Direction) :
    ∃ p q, s.port? (x.innerEnd d) = some p ∧ s.port? (x.outerEnd d) = some q := by
  obtain ⟨-, p, q, hp, hq, -⟩ := hs.links x hx
  cases d with
  | input => exact ⟨q, p, hq, hp⟩
  | output => exact ⟨p, q, hp, hq⟩

/-- In a linked scope no connection blocks. -/
theorem not_blocks (hs : s.Linked) (hx : x ∈ s.connections) : ¬ s.Blocks d x := by
  rintro (hNone | ⟨p, hp, q, hq, hNot⟩)
  · obtain ⟨-, q, -, hq⟩ := hs.exists_ends hx d
    rw [hNone] at hq
    cases hq
  · obtain ⟨-, p', q', hp', hq', hFeeds⟩ := hs.links x hx
    cases hp.symm.trans hp'
    cases hq.symm.trans hq'
    rw [hFeeds] at hNot
    cases hNot

/-- Ports of different nodes can be bridged to. -/
theorem not_unbridgeable (hs : s.Linked) {e e' : Endpoint} {p q : Port} (hp : s.port? e = some p)
    (hq : s.port? e' = some q) (hApart : e'.node ≠ e.node) : ¬ e.Unbridgeable e' := by
  obtain ⟨hNode, hPort⟩ := isBlank_of_port? hs.tidy hs.nodes hp
  obtain ⟨hNode', hPort'⟩ := isBlank_of_port? hs.tidy hs.nodes hq
  simp [Endpoint.Unbridgeable, hNode, hPort, hNode', hPort', hApart]

/-- No inner end refuses a port, whatever is selected. -/
theorem not_refuses (hs : s.Linked) (ids : List String) (e : Endpoint) : ¬ s.Refuses ids e := by
  have hAt : ∀ d, ¬ s.RefusesAt ids d e := by
    rintro d (⟨x, hx, -, hBlocks⟩ | ⟨x, hFind, q, hq, hUnbridgeable⟩)
    · exact hs.not_blocks hx hBlocks
    · have hx := List.mem_of_find?_eq_some hFind
      have hEnd : s.usableEnd? ids d x = some e := of_decide_eq_true (List.find?_some hFind :)
      obtain ⟨⟨hInner, hOuter, -⟩, hEnd⟩ := Option.ite_none_right_eq_some.mp hEnd
      obtain rfl : x.innerEnd d = e := Option.some.inj hEnd
      obtain ⟨p, -, hp, -⟩ := hs.exists_ends hx d
      -- the outer port is at the outer end, which is not selected
      rw [hs.tidy.endpoint_of_port? hq] at hUnbridgeable
      exact hs.not_unbridgeable hp hq (fun hSame => hOuter (hSame ▸ hInner)) hUnbridgeable
  rintro (h | h)
  · exact hAt _ h
  · exact hAt _ h

end Linked

end Scope

/-! ## Places -/

/-- A position is refused for being one, and for nothing else. -/
theorem Position.of_eq_error {x y : Float} {err : ConstructionError}
    (h : Position.of x y = .error err) : ∃ x y, err = .invalidPosition x y := by
  rw [Position.of] at h
  split at h
  · cases h
  · cases h
    exact ⟨x, y, rfl⟩

namespace Scope

variable {s : Scope Node} {ids : List String} (id name : String) (settings : Settings)

/-- Only a place outside of the canvas keeps nodes from being laid out. -/
theorem layout_eq_error {margin : Float} {err : ConstructionError}
    (h : s.layout ids margin = .error err) : ∃ x y, err = .invalidPosition x y := by
  rcases bind_eq_error.mp h with hPosition | ⟨position, -, h⟩
  · exact Position.of_eq_error hPosition
  · rcases bind_eq_error.mp h with hMoved | ⟨moved, -, h⟩
    · obtain ⟨n, -, hPlace⟩ := exists_of_mapM_error hMoved
      rcases bind_eq_error.mp hPlace with hPlace | ⟨place, -, h⟩
      · exact Position.of_eq_error hPlace
      · cases h
    · cases h

/-- Of less than two nodes no container is made. -/
theorem group_of_few (h : (s.nodes.filter (·.id ∈ ids)).length < 2) :
    s.group ids id name settings =
      .error (.tooFewNodes ids.eraseDups.length (s.nodes.filter (·.id ∈ ids)).length) := by
  rw [group]
  split
  · next hSelected => rw [hSelected]; rfl
  · next hSelected => rw [hSelected]; rfl
  · next rest hMore hSelected =>
    rw [hSelected, List.length_cons] at h
    exact absurd (List.eq_nil_of_length_eq_zero (by omega)) hMore

/-- Where the nodes cannot be placed no container is made. -/
theorem group_of_layout_error (hTwo : 2 ≤ (s.nodes.filter (·.id ∈ ids)).length)
    {err : ConstructionError} (h : s.layout ids settings.margin = .error err) :
    s.group ids id name settings = .error (.construction err) := by
  obtain ⟨make, hGroup⟩ := exists_group_eq id name settings hTwo
  rw [hGroup, h]
  rfl

/-- The result is there if there are places for the selected nodes, and otherwise it is the
error that one place is outside of the canvas. -/
def DependsOnPlaces {α : Type} (s : Scope Node) (ids : List String) (margin : Float)
    (result : Except GroupingError α) : Prop :=
  ((∃ places, s.layout ids margin = .ok places) ∧ ∃ a, result = .ok a) ∨
    ∃ x y, s.layout ids margin = .error (.invalidPosition x y) ∧
      result = .error (.construction (.invalidPosition x y))

/-- Two nodes of a linked scope are grouped if there are places for them. -/
theorem Linked.group_dependsOnPlaces (hs : s.Linked)
    (hTwo : 2 ≤ (s.nodes.filter (·.id ∈ ids)).length) :
    s.DependsOnPlaces ids settings.margin (s.group ids id name settings) := by
  cases hLayout : s.layout ids settings.margin with
  | error err =>
    obtain ⟨x, y, rfl⟩ := layout_eq_error hLayout
    exact .inr ⟨x, y, hLayout, group_of_layout_error id name settings hTwo hLayout⟩
  | ok places =>
    refine .inl ⟨⟨places, hLayout⟩, (group_of_layout id name hTwo ⟨places, hLayout⟩).1.mpr ?_⟩
    -- a linked scope has no end to refuse, so the boundary is built
    rcases s.boundary_verdict id ids with ⟨hBuilt, -⟩ | ⟨e, fault, -, -, -, -, hRefuses, -⟩
    · exact hBuilt
    · exact absurd hRefuses (hs.not_refuses ids e)

end Scope

/-! ## The container around -/

/-- Ports with different names are all led on if each can be led with its first mapping. -/
theorem PassLaw.exists_run {σ ε : Type} {f : σ → BoundaryPort → Except ε (σ × BoundaryPort)}
    {mappings : σ → StringMap PortMapping} {Inv : σ → Prop}
    {Led : σ → BoundaryPort → Option PortMapping → Option PortMapping → BoundaryPort → Prop}
    (law : PassLaw (fun s p t p' => f s p = .ok (t, p')) mappings Inv Led) {s : σ}
    {ps : List BoundaryPort} (hs : Inv s) (hNames : (ps.map (·.port.name)).Nodup)
    (hStep : ∀ t, Inv t → ∀ p ∈ ps, (mappings t)[p.port.name]? = (mappings s)[p.port.name]? →
      ∃ r, f t p = .ok r) :
    ∃ r, passPorts f s ps = .ok r := by
  induction ps generalizing s with
  | nil => exact ⟨_, rfl⟩
  | cons p rest ih =>
    rw [List.map_cons, List.nodup_cons] at hNames
    obtain ⟨⟨t, p'⟩, hFirst⟩ := hStep s hs p List.mem_cons_self rfl
    -- the ports behind it find the mappings that were there before the step
    have hRest : ∃ r, passPorts f t rest = .ok r := by
      refine ih (law.inv hs hFirst) hNames.2 ?_
      intro u hu q hq hSame
      refine hStep u hu q (List.mem_cons_of_mem _ hq) (hSame.trans (law.others hs hFirst ?_))
      intro hName
      exact hNames.1 (hName ▸ List.mem_map_of_mem hq)
    obtain ⟨r, hRest⟩ := hRest
    exact ⟨(r.1, p' :: r.2), bind_eq_ok.mpr ⟨(t, p'), hFirst, bind_eq_ok.mpr ⟨r, hRest, rfl⟩⟩⟩

namespace Container

variable {c e : Container Node} {ids : List String} {id name : String}

/-- A port is made for any end that can be bridged to. -/
theorem exists_portTo {b : Boundary} {d : Direction} {q : Port} {outer : Endpoint}
    (h : ¬ q.endpoint.Unbridgeable outer) : ∃ r, c.portTo b d q outer = .ok r := by
  rw [portTo]
  split
  · exact ⟨_, rfl⟩
  · obtain ⟨p, hBridge⟩ := Boundary.exists_bridge_iff.mpr h
    rw [hBridge]
    exact ⟨_, rfl⟩

/-- A port can be led through a container if the node it is mapped to is not inside, or has
a port there that can be bridged to. -/
theorem exists_throughStep {enclosing : String} {r : Rerouting} {p : BoundaryPort}
    (h : ∀ m, r.mappings[p.port.name]? = some m → m.child ∈ ids →
      ∃ n q, c.target? m p.port.direction = some (n, q) ∧
        ¬ q.endpoint.Unbridgeable ⟨enclosing, p.port.id⟩) :
    ∃ r', c.throughStep enclosing ids r p = .ok r' := by
  rw [throughStep]
  -- a boundary port without a mapping, or one that leads past the selection, is kept as it stands
  split
  · exact ⟨_, rfl⟩
  · next m hm =>
    split
    · exact ⟨_, rfl⟩
    · next hIds =>
      obtain ⟨n, q, hTarget, hBridges⟩ := h m hm (not_not.mp hIds)
      obtain ⟨⟨b, inner⟩, hPort⟩ := exists_portTo (c := c) (b := r.boundary)
        (d := p.port.direction) hBridges
      rw [hTarget]
      simp only [hPort]
      exact ⟨_, rfl⟩

section Around

variable (he : e.Sound) (hOwn : (Node.graph e).WellMade) (hInside : e.inside.Linked)
  (hApart : ∀ n ∈ e.inside.nodes, n.id ≠ e.core.id) (hGathers : c.Gathers e.inside ids id name)

include he hOwn hInside hApart hGathers

/-- A boundary port that leads to a selected node leads to a port inside of the new
container, between which and itself another port may stand. -/
theorem exists_target?_of_gathers {p : BoundaryPort} (hp : p ∈ e.boundary.ports) {m : PortMapping}
    (hm : e.boundary.mappings[p.port.name]? = some m) (hIds : m.child ∈ ids) :
    ∃ n q, c.target? m p.port.direction = some (n, q) ∧
      ¬ q.endpoint.Unbridgeable ⟨e.core.id, p.port.id⟩ := by
  have hTidy := hGathers.takes.tidy_inside hInside.tidy
  obtain ⟨x, hAim⟩ := Option.isSome_iff_exists.mp (he.isSome_aim? hOwn.tidyPorts hp hm)
  obtain ⟨q, hPort, rfl, hDirection⟩ := (aim?_eq_some_iff hInside.tidy).mp hAim
  -- the port is found inside of the new container as well
  have hPort' : c.inside.port? x = some q :=
    (hGathers.takes.port?_inside hInside.tidy).mpr ⟨hIds, hPort⟩
  have hAim' : c.aim? ⟨x.node, q.name⟩ p.port.direction = some x :=
    (aim?_eq_some_iff hTidy).mpr ⟨q, hPort', rfl, hDirection⟩
  obtain ⟨⟨n, q'⟩, hTarget, rfl⟩ := Option.map_eq_some_iff.mp hAim'
  obtain ⟨hSame, -, -⟩ := port?_of_target? hTidy hTarget
  obtain rfl : q = q' := Option.some.inj (hPort'.symm.trans hSame)
  refine ⟨n, q, hTarget, ?_⟩
  rw [hTidy.endpoint_of_port? hPort']
  obtain ⟨hNode, hPortId⟩ := Scope.isBlank_of_port? hInside.tidy hInside.nodes hPort
  have hOuterNode : Text.isBlank e.core.id = false := hOwn.proper.id
  have hOuterPort : Text.isBlank p.port.id = false := by
    refine hOwn.portIds p.port ?_
    rw [ports_graph]
    exact List.mem_map_of_mem hp
  have hOther : e.core.id ≠ n.id := by
    obtain ⟨k, hk, hId, -⟩ := hInside.tidy.port?_eq_some_iff.mp hPort
    exact fun hSame => hApart k hk (hId.trans hSame.symm)
  rintro (h | h | h | h | h)
  · rw [hNode] at h
    cases h
  · rw [hPortId] at h
    cases h
  · rw [hOuterNode] at h
    cases h
  · rw [hOuterPort] at h
    cases h
  · exact hOther h

/-- A container in order can be led through any new one that gathers nodes inside of it. -/
theorem exists_routeThrough : ∃ r, e.routeThrough c ids = .ok r := by
  have hTidy := hGathers.takes.tidy_inside hInside.tidy
  have law := throughLaw hTidy c.boundary e.core.id ids
  have hStart : c.Serves c.boundary c.boundary := ⟨hGathers.made, hGathers.faithful, .refl _⟩
  have hNames := names_nodup hOwn.tidyPorts
  rw [Boundary.names, Boundary.ports, List.map_append, List.nodup_append] at hNames
  obtain ⟨hIn, hOut, hDisjoint⟩ := hNames
  have hStep : ∀ r : Rerouting, ∀ p ∈ e.boundary.ports,
      r.mappings[p.port.name]? = e.boundary.mappings[p.port.name]? →
        ∃ r', c.throughStep e.core.id ids r p = .ok r' := by
    intro r p hp hSame
    refine exists_throughStep fun m hm hIds => ?_
    exact exists_target?_of_gathers he hOwn hInside hApart hGathers hp (hSame ▸ hm) hIds
  obtain ⟨⟨r, inputs⟩, hInputs⟩ := law.exists_run
    (s := (⟨c.boundary, e.boundary.mappings⟩ : Rerouting)) hStart hIn
    fun r _ p hp hSame => hStep r p (List.mem_append_left _ hp) hSame
  -- the outputs find their mappings as they were, since their names are none of the inputs'
  have hPass := passes_of_passPorts_eq_ok hInputs
  obtain ⟨⟨r', outputs⟩, hOutputs⟩ := law.exists_run (law.run_inv hPass hStart) hOut
    fun r' _ p hp hSame => by
      refine hStep r' p (List.mem_append_right _ hp) (hSame.trans (law.run_others hPass hStart ?_))
      intro hName
      exact hDisjoint _ hName _ (List.mem_map_of_mem hp) rfl
  refine ⟨({ c with boundary := r'.boundary }, ⟨inputs, outputs, r'.mappings⟩), ?_⟩
  exact bind_eq_ok.mpr ⟨(r, inputs), hInputs, bind_eq_ok.mpr ⟨(r', outputs), hOutputs, rfl⟩⟩

end Around

end Container

/-! ## The graph -/

namespace FlowGraph

variable {g : FlowGraph} {scope : ScopeId} {s : Scope Node} {ids : List String}
  (id name : String) (settings : Settings)

/-- The selected ids that nodes of the graph have, each once. -/
def found (g : FlowGraph) (ids : List String) : List String :=
  ids.eraseDups.filter (· ∈ g.allNodes.map (·.id))

/-- A graph that keeps all rules, whose nodes are well-made, with inner connections that
resolve. -/
structure Linked (g : FlowGraph) : Prop where
  sound : g.Sound
  nodes : ∀ n ∈ g.allNodes, n.WellMade
  resolves : ∀ c : Container Node, .graph c ∈ g.allNodes → c.Resolves

/-- Each scope of a linked graph is linked. -/
theorem Linked.linked_scope (hg : g.Linked) (hScope : g.scope? scope = some s) : s.Linked where
  tidy := tidy_of_scope? hg.sound.unique (fun n hn => (hg.nodes n hn).tidyPorts) hScope
  nodes n hn := hg.nodes n (mem_allNodes_of_scope? hScope hn)
  links := by
    -- the rules for the ends of connections are written once for the root and once for a
    -- container
    cases scope with
    | none =>
      cases hScope
      exact fun x hx => (hg.sound.connections x hx).2.links
    | some outer =>
      obtain ⟨e, he, rfl⟩ := Option.map_eq_some_iff.mp hScope
      have hMem := ((container?_eq_some_iff hg.sound.unique).mp he).1
      exact (hg.sound.containers e hMem).links (hg.resolves e hMem)

section Found

variable (hUnique : g.UniqueIds)

include hUnique

/-- An id is found if it is asked for and has a scope. -/
theorem mem_found_iff {i : String} :
    i ∈ g.found ids ↔ i ∈ ids ∧ ∃ scope, g.scopeOf? i = some scope := by
  rw [found, List.mem_filter, List.mem_eraseDups, decide_eq_true_eq, List.mem_map]
  refine and_congr_right fun _ => ?_
  constructor
  · rintro ⟨n, hn, rfl⟩
    obtain ⟨scope, -, hPlace, -⟩ := exists_scope hUnique hn
    exact ⟨scope, hPlace⟩
  · rintro ⟨scope, hPlace⟩
    obtain ⟨s, n, hScope, hn, hId⟩ := (scopeOf?_eq_some_iff hUnique).mp hPlace
    exact ⟨n, mem_allNodes_of_scope? hScope hn, hId⟩

/-- The places of the selection are the scopes of the ids that are found. -/
theorem mem_places_iff {place : ScopeId} :
    place ∈ ids.filterMap g.scopeOf? ↔ ∃ i ∈ g.found ids, g.scopeOf? i = some place := by
  rw [List.mem_filterMap]
  constructor
  · rintro ⟨i, hi, hPlace⟩
    exact ⟨i, (mem_found_iff hUnique).mpr ⟨hi, place, hPlace⟩, hPlace⟩
  · rintro ⟨i, hi, hPlace⟩
    exact ⟨i, ((mem_found_iff hUnique).mp hi).1, hPlace⟩

/-- If the selected nodes stand in one scope, all of them are nodes of it. -/
theorem length_selected (hScope : g.scope? scope = some s)
    (hAll : ∀ i ∈ g.found ids, g.scopeOf? i = some scope) :
    (s.nodes.filter (·.id ∈ ids)).length = (g.found ids).length := by
  -- ids are unique, so counting the selected nodes is counting the ids found
  have hNodup : ((s.nodes.filter (·.id ∈ ids)).map (·.id)).Nodup :=
    (hUnique.scope hScope).sublist
      ((List.filter_sublist.trans (Forest.sublist_preorder s.nodes)).map _)
  have hFound : (g.found ids).Nodup := (nodup_eraseDups ids).filter _
  have hPerm : ((s.nodes.filter (·.id ∈ ids)).map (·.id)).Perm (g.found ids) := by
    refine (List.perm_ext_iff_of_nodup hNodup hFound).mpr fun i => ?_
    rw [List.mem_map]
    constructor
    · rintro ⟨n, hn, rfl⟩
      obtain ⟨hMem, hIds⟩ := List.mem_filter.mp hn
      have hPlace := (scopeOf?_eq_some_iff hUnique).mpr ⟨s, n, hScope, hMem, rfl⟩
      exact (mem_found_iff hUnique).mpr ⟨of_decide_eq_true hIds, scope, hPlace⟩
    · intro hi
      obtain ⟨s', n, hScope', hn, rfl⟩ := (scopeOf?_eq_some_iff hUnique).mp (hAll i hi)
      cases hScope.symm.trans hScope'
      exact ⟨n, List.mem_filter.mpr ⟨hn, decide_eq_true ((mem_found_iff hUnique).mp hi).1⟩, rfl⟩
  rw [← hPerm.length_eq, List.length_map]

/-- Where nothing is found, all ids count as asked for. -/
theorem group_of_none (hNone : g.found ids = []) :
    g.group ids id name settings = .error (.tooFewNodes ids.length 0) := by
  rw [group_eq]
  split
  · rfl
  · next scope rest hPlaces =>
    have hFirst : scope ∈ ids.filterMap g.scopeOf? := hPlaces ▸ List.mem_cons_self
    obtain ⟨i, hi, -⟩ := (mem_places_iff hUnique).mp hFirst
    rw [hNone] at hi
    cases hi

/-- Where all that is found is in one scope, it is grouped there. -/
theorem group_of_scope (hSome : g.found ids ≠ [])
    (hAll : ∀ i ∈ g.found ids, g.scopeOf? i = some scope) :
    g.group ids id name settings = g.groupIn scope ids id name settings := by
  obtain ⟨i, hi⟩ := List.exists_mem_of_ne_nil _ hSome
  refine group_eq_groupIn ⟨i, ((mem_found_iff hUnique).mp hi).1, hAll i hi⟩ ?_
  intro j hj place hPlace
  have hFound : j ∈ g.found ids := (mem_found_iff hUnique).mpr ⟨hj, place, hPlace⟩
  exact Option.some.inj (hPlace.symm.trans (hAll j hFound))

/-- Where what is found is in several scopes, nothing is grouped. -/
theorem group_of_mixed (ids : List String) (id name : String) (settings : Settings)
    (hMixed : ¬∃ scope, ∀ i ∈ g.found ids, g.scopeOf? i = some scope) :
    g.group ids id name settings = .error .mixedScopes := by
  rw [group_eq]
  split
  · next hNil =>
    -- with no place at all nothing was found, and then any scope would do for all of it
    refine absurd ⟨none, fun i hi => ?_⟩ hMixed
    obtain ⟨-, place, hPlace⟩ := (mem_found_iff hUnique).mp hi
    have hThere := (mem_places_iff hUnique).mpr ⟨i, hi, hPlace⟩
    rw [hNil] at hThere
    cases hThere
  · next scope rest hPlaces =>
    split
    · rfl
    · next hRest =>
      refine absurd ⟨scope, fun i hi => ?_⟩ hMixed
      obtain ⟨hIds, place, hPlace⟩ := (mem_found_iff hUnique).mp hi
      rw [hPlace, (scope_of_places hPlaces hRest).2 i hIds place hPlace]

end Found

/-- What keeps nodes from being grouped in a scope does so in a graph. -/
theorem groupIn_of_error (hScope : g.scope? scope = some s) {err : GroupingError}
    (h : s.group ids id name settings = .error err) :
    g.groupIn scope ids id name settings = .error err := by
  cases scope with
  | none =>
    cases hScope
    exact bind_eq_error.mpr (.inl h)
  | some outer =>
    obtain ⟨e, he, rfl⟩ := Option.map_eq_some_iff.mp hScope
    simp only [groupIn, he]
    exact bind_eq_error.mpr (.inl h)

/-- What can be grouped in a scope can be grouped in a graph. -/
theorem Linked.exists_groupIn (hg : g.Linked) (hScope : g.scope? scope = some s)
    (h : ∃ c, s.group ids id name settings = .ok c) :
    ∃ g', g.groupIn scope ids id name settings = .ok g' := by
  obtain ⟨c, hGroup⟩ := h
  cases scope with
  | none =>
    cases hScope
    exact ⟨_, bind_eq_ok.mpr ⟨c, hGroup, rfl⟩⟩
  | some outer =>
    have hInside := hg.linked_scope hScope
    obtain ⟨e, he, rfl⟩ := Option.map_eq_some_iff.mp hScope
    obtain ⟨hMem, rfl⟩ := (container?_eq_some_iff hg.sound.unique).mp he
    have hApart : ∀ n ∈ e.inside.nodes, n.id ≠ e.core.id := by
      intro n hn hSame
      refine hg.sound.unique.not_mem_descendantIds hMem (hSame ▸ List.mem_map_of_mem ?_)
      exact Forest.mem_preorder_of_mem hn
    obtain ⟨⟨c', outside⟩, hRoute⟩ := Container.exists_routeThrough (hg.sound.containers e hMem)
      (hg.nodes _ hMem) hInside hApart (hInside.tidy.gathers hGroup)
    -- the container is found again where it was found before
    obtain ⟨gap, -, hUpdate⟩ := exists_gap (container?_eq_find?.mp he)
    have hPut := hUpdate fun _ =>
      .graph { e with boundary := outside, inside := e.inside.collapse ids c' }
    refine ⟨g.withNodes (gap.fill
      (.graph { e with boundary := outside, inside := e.inside.collapse ids c' })), ?_⟩
    simp only [groupIn, he]
    refine bind_eq_ok.mpr ⟨c, hGroup, bind_eq_ok.mpr ⟨(c', outside), hRoute, ?_⟩⟩
    rw [putContainer?, hPut]
    rfl

/-- Where less than two are found, nothing is grouped. -/
theorem Linked.group_of_few (hg : g.Linked) (ids : List String) (id name : String)
    (settings : Settings) (hFew : (g.found ids).length < 2) :
    g.group ids id name settings =
      .error (.tooFewNodes (if g.found ids = [] then ids.length else ids.eraseDups.length)
        (g.found ids).length) := by
  have hUnique := hg.sound.unique
  cases hFound : g.found ids with
  | nil => exact group_of_none id name settings hUnique hFound
  | cons i rest =>
    rw [hFound, List.length_cons] at hFew
    obtain rfl := List.eq_nil_of_length_eq_zero (show rest.length = 0 by omega)
    -- the only node that was found stands in a scope
    have hi : i ∈ g.found ids := hFound ▸ List.mem_cons_self
    obtain ⟨-, scope, hPlace⟩ := (mem_found_iff hUnique).mp hi
    obtain ⟨s, -, hScope, -⟩ := (scopeOf?_eq_some_iff hUnique).mp hPlace
    have hAll : ∀ j ∈ g.found ids, g.scopeOf? j = some scope := by
      intro j hj
      rw [hFound, List.mem_singleton] at hj
      rw [hj, hPlace]
    have hSelected := length_selected hUnique hScope hAll
    rw [hFound, List.length_singleton] at hSelected
    rw [group_of_scope id name settings hUnique (List.ne_nil_of_mem hi) hAll]
    have hGroup := Scope.group_of_few id name settings (hSelected.trans_lt Nat.one_lt_two)
    rw [groupIn_of_error id name settings hScope hGroup, hSelected]
    rfl

/-- Where two or more are found in one scope, only their places decide. -/
theorem Linked.group_of_shared (hg : g.Linked) (hTwo : 2 ≤ (g.found ids).length)
    (hAll : ∀ i ∈ g.found ids, g.scopeOf? i = some scope) :
    ∃ s, g.scope? scope = some s ∧
      s.DependsOnPlaces ids settings.margin (g.group ids id name settings) := by
  have hUnique := hg.sound.unique
  have hSome : g.found ids ≠ [] := List.ne_nil_of_length_pos (by omega)
  -- one of the ids is there to show that the scope exists
  obtain ⟨i, hi⟩ := List.exists_mem_of_ne_nil _ hSome
  obtain ⟨s, -, hScope, -⟩ := (scopeOf?_eq_some_iff hUnique).mp (hAll i hi)
  have hSelected := length_selected hUnique hScope hAll
  rw [group_of_scope id name settings hUnique hSome hAll]
  refine ⟨s, hScope, ?_⟩
  have hLinked := hg.linked_scope hScope
  rcases hLinked.group_dependsOnPlaces id name settings (hSelected ▸ hTwo) with
    ⟨hPlaces, hGroup⟩ | ⟨x, y, hLayout, hGroup⟩
  · exact .inl ⟨hPlaces, hg.exists_groupIn id name settings hScope hGroup⟩
  · exact .inr ⟨x, y, hLayout, groupIn_of_error id name settings hScope hGroup⟩

/-- In a valid graph with ports in their lists, under ids, and with inner connections that
resolve, a grouping fails when fewer than two of the selected nodes are there, when those
that are there stand in different scopes, or when there is no place for them on the canvas.
In all other cases it succeeds. -/
theorem group_outcome (hValid : g.validate.success = true)
    (hSorts : ∀ n ∈ g.allNodes, n.SortsPorts)
    (hPortIds : ∀ n ∈ g.allNodes, ∀ p ∈ n.ports, Text.isBlank p.id = false)
    (hResolves : ∀ c : Container Node, .graph c ∈ g.allNodes → c.Resolves)
    (ids : List String) (id name : String) (settings : Settings) :
    ((g.found ids).length < 2 → g.group ids id name settings =
        .error (.tooFewNodes (if g.found ids = [] then ids.length else ids.eraseDups.length)
          (g.found ids).length)) ∧
      (2 ≤ (g.found ids).length →
        ((¬∃ scope, ∀ i ∈ g.found ids, g.scopeOf? i = some scope) →
          g.group ids id name settings = .error .mixedScopes) ∧
        ∀ scope, (∀ i ∈ g.found ids, g.scopeOf? i = some scope) →
          ∃ s, g.scope? scope = some s ∧
            s.DependsOnPlaces ids settings.margin (g.group ids id name settings)) ∧
      ∀ err, g.group ids id name settings = .error err →
        (∃ requested resolved, err = .tooFewNodes requested resolved) ∨ err = .mixedScopes ∨
          ∃ x y, err = .construction (.invalidPosition x y) := by
  have hSound := validate_success_iff.mp hValid
  have hg : g.Linked :=
    ⟨hSound, fun n hn => ⟨hSound.nodes n hn, hSorts n hn, hPortIds n hn⟩, hResolves⟩
  have hFew := hg.group_of_few ids id name settings
  have hMixed := group_of_mixed hSound.unique ids id name settings
  refine ⟨hFew, fun hTwo => ⟨hMixed, fun _ => hg.group_of_shared id name settings hTwo⟩, ?_⟩
  -- the errors are those of the three cases above, taken apart
  intro err hErr
  by_cases hTwo : 2 ≤ (g.found ids).length
  · by_cases hShared : ∃ scope, ∀ i ∈ g.found ids, g.scopeOf? i = some scope
    · obtain ⟨scope, hAll⟩ := hShared
      obtain ⟨s, -, ⟨-, g', hOk⟩ | ⟨x, y, -, hFails⟩⟩ :=
        hg.group_of_shared id name settings hTwo hAll
      · rw [hOk] at hErr
        cases hErr
      · rw [hFails] at hErr
        cases hErr
        exact .inr (.inr ⟨x, y, rfl⟩)
    · rw [hMixed hShared] at hErr
      cases hErr
      exact .inr (.inl rfl)
  · rw [hFew (not_le.mp hTwo)] at hErr
    cases hErr
    exact .inl ⟨_, _, rfl⟩

/-- The mill and the drill stand in one line, so that they can be grouped takes places for
them only. -/
theorem plant_group_outcome :
    ∃ g', plant.group ["drill", "gauge", "mill", "drill"] "cell" "Cell" .standard = .ok g' := by
  have hOutcome := group_outcome plant_valid plant_sortsPorts plant_built.portIds
    plant_built.resolves ["drill", "gauge", "mill", "drill"] "cell" "Cell" .standard
  obtain ⟨-, hTwo, -⟩ := hOutcome
  obtain ⟨s, hScope, ⟨-, hGroup⟩ | ⟨x, y, hFails, -⟩⟩ :=
    (hTwo (by decide +kernel)).2 (some "line") (by decide +kernel)
  · exact hGroup
  -- the theorem leaves the layout open, which the places of the line settle
  · have hPlaces : (line.inside.layout ["drill", "gauge", "mill", "drill"]
        Settings.standard.margin).toOption.isSome = true := by
      decide +kernel
    have hSame : plant.scope? (some "line") = some line.inside := by
      rw [scope?, (container?_eq_some_iff (validate_success_iff.mp plant_valid).unique).mpr]
      · rfl
      · exact ⟨by simp [allNodes, plant, Forest.preorder, Node.preorder_graph], rfl⟩
    cases hSame.symm.trans hScope
    rw [hFails] at hPlaces
    cases hPlaces

end FlowGraph

end FlowNest
