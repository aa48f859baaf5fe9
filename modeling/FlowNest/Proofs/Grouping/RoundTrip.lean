import FlowNest.Proofs.Grouping.Editing

/-!
# FlowNest — grouping undone by ungrouping

A valid graph whose boundary ports record the same twice comes back from a
grouping when the new container is ungrouped. What changes in the end is the
place of the selected nodes, on the canvas and in their list, and the place of
the connections among them.

* `Boundary.Rerouted.undo`        — the enclosing boundary comes back;
* `Scope.expand_collapse`         — so does the scope, up to order and places;
* `FlowGraph.ungroup_group`       — and with them the graph.
-/

namespace FlowNest

/-- The inner end of each boundary port is where it leads. -/
def Container.Agrees (c : Container Node) : Prop :=
  ∀ p ∈ c.boundary.ports, c.lead? p.port.id = some p.inner

instance (c : Container Node) : Decidable c.Agrees :=
  inferInstanceAs (Decidable (∀ p ∈ c.boundary.ports, _))

namespace BoundaryPort

theorem withInner_withInner (p : BoundaryPort) (a b : Endpoint) :
    (p.withInner a).withInner b = p.withInner b := by
  obtain ⟨⟨_, _, direction, _⟩, _, _⟩ := p
  cases direction <;> rfl

theorem withInner_inner (p : BoundaryPort) : p.withInner p.inner = p := by
  obtain ⟨⟨_, _, direction, _⟩, _, _⟩ := p
  cases direction <;> rfl

end BoundaryPort

namespace Node

theorem withParent_withParent (n : Node) (a b : Option String) :
    (n.withParent a).withParent b = n.withParent b := by
  cases n <;> rfl

theorem withParent_parent (n : Node) : n.withParent n.core.parent = n := by
  cases n <;> rfl

theorem parent_withPosition (n : Node) (position : Position) :
    (n.withPosition position).core.parent = n.core.parent := by
  cases n <;> rfl

end Node

/-! ## The enclosing boundary -/

namespace Container

variable {c : Container Node} {ids : List String}

/-- A port of the container leads further to what it was made for. -/
theorem further?_own (hc : c.Opens) {own : BoundaryPort} (hOwn : own ∈ c.boundary.ports)
    {m : PortMapping} {d : Direction} (hAim : c.aim? m d = some own.inner) :
    ∃ n q, c.further? ⟨c.core.id, own.port.name⟩ = some (n, q) ∧ m = ⟨n.id, q.name⟩ ∧
      own.inner = ⟨n.id, q.id⟩ := by
  have hTidy := tidyPorts_of_made hc.made
  obtain ⟨n, q, hResolve, hInner, hPort, -⟩ :=
    resolve?_of_faithful hTidy hc.inside hc.faithful hOwn
  have hFurther : c.further? ⟨c.core.id, own.port.name⟩ = some (n, q) :=
    (further?_of_own rfl (find?_named hTidy hOwn)).trans hResolve
  -- the mapping names the port at the inner end, which is what is resolved to
  obtain ⟨p, hp, hm, -⟩ := (aim?_eq_some_iff hc.inside).mp hAim
  rw [hPort] at hp
  obtain rfl := Option.some.inj hp
  rw [hInner] at hm
  exact ⟨n, q, hFurther, hm, hInner⟩

/-- A port that was led through the container is led back around it. -/
theorem LedAround.undo (hc : c.Opens) {p p' p'' : BoundaryPort}
    {before mid after : Option PortMapping}
    (hOther : ∀ m, before = some m → m.child ≠ c.core.id)
    (hInner : ∀ m x, before = some m → c.aim? m p.port.direction = some x → p.inner = x)
    (hThrough : c.LedThrough ids c.boundary p before mid p')
    (hAround : c.LedAround p' mid after p'') : after = before ∧ p'' = p := by
  cases hThrough with
  | away hAway =>
    cases hAround with
    | past hPast => exact ⟨rfl, rfl⟩
    | @around m n q hFurther =>
      rw [further?, if_neg (hOther m rfl)] at hFurther
      cases hFurther
  | @through m own _ hOwn hAim =>
    have hMem := Boundary.mem_ports_iff.mpr ⟨_, hOwn⟩
    obtain ⟨n, q, hFurther, rfl, hOwnInner⟩ := further?_own hc hMem hAim
    cases hAround with
    | past hPast =>
      -- the container's port leads further, so the port is not left there
      rw [hPast _ rfl] at hFurther
      cases hFurther
    | @around _ n' q' hFurther' =>
      rw [hFurther] at hFurther'
      cases hFurther'
      -- its inner end is that of the port it was led through, where it led before
      refine ⟨rfl, ?_⟩
      rw [BoundaryPort.withInner_withInner, ← hOwnInner, ← hInner _ _ rfl hAim,
        BoundaryPort.withInner_inner]

/-- The boundary around the scope comes back, if its ports record where they lead. -/
theorem undo_rerouted {e : Container Node} {outside back : Boundary} {id name : String}
    (he : (Node.graph e).TidyPorts) (hs : e.inside.Tidy) (hGathers : c.Gathers e.inside ids id name)
    (hAgrees : e.Agrees)
    (hOther : ∀ (key : String) (m : PortMapping), e.boundary.mappings[key]? = some m →
      m.child ≠ c.core.id)
    (hThrough : Boundary.Rerouted (c.LedThrough ids c.boundary) e.boundary outside)
    (hAround : Boundary.Rerouted c.LedAround outside back) : back = e.boundary := by
  refine hThrough.undo hAround ?_
  intro p hp p' p'' mid after hPort hLedThrough hLedAround
  refine LedAround.undo (hGathers.opens hs) (fun m hm => hOther _ m hm) ?_ hLedThrough hLedAround
  -- what the port led to is its inner end, by what the boundary records
  intro m x hm hAim
  have hLead := hAgrees p hp
  rw [lead?_eq, (boundaryPort?_eq_some_iff he).mpr ⟨hp, rfl⟩, Option.bind_some, hm,
    Option.bind_some, aim?_of_takes hs hGathers.takes hAim] at hLead
  exact (Option.some.inj hLead).symm

end Container

/-! ## The scope -/

namespace Scope

variable {s : Scope Node} {ids : List String} {c : Container Node} {scope : ScopeId}

/-- The nodes of a scope with the selected ones brought together, where the first of
them stood, in the form they have in `moved`. -/
def gathered (ids : List String) (moved nodes : List Node) : List Node :=
  nodes.takeWhile (·.id ∉ ids) ++
    (moved ++ (nodes.dropWhile (·.id ∉ ids)).filter (·.id ∉ ids))

/-- The connections of a scope with those among the selected nodes brought to the
end, where they belong to the scope. -/
def rewired (ids : List String) (scope : ScopeId) (connections : List Connection) :
    List Connection :=
  connections.filter (·.relation ids ≠ .inside) ++
    (connections.filter (·.relation ids = .inside)).map (·.inScope scope)

theorem collapseNodes_eq {nodes : List Node} (h : ∃ n ∈ nodes, n.id ∈ ids) :
    collapseNodes ids c nodes = nodes.takeWhile (·.id ∉ ids) ++
      .graph c :: (nodes.dropWhile (·.id ∉ ids)).filter (·.id ∉ ids) := by
  obtain ⟨left, first, right, rfl, hLeft, hFirst, hCollapse⟩ := collapseNodes_split h
  have hLeft : ∀ n ∈ left, decide (n.id ∉ ids) = true := fun n hn => decide_eq_true (hLeft n hn)
  rw [hCollapse, List.takeWhile_append_of_pos hLeft, List.dropWhile_append_of_pos hLeft,
    List.takeWhile_cons_of_neg (by simpa using hFirst),
    List.dropWhile_cons_of_neg (by simpa using hFirst),
    List.filter_cons_of_neg (by simpa using hFirst), List.append_nil]

/-- An endpoint seen through the boundary, and back through it, is the endpoint. -/
theorem throughMapping?_throughBoundary (hc : c.Opens) (d : Direction) {e : Endpoint}
    (hNode : e.node ≠ c.core.id) :
    throughMapping? c (throughBoundary c d e) = some e := by
  rw [throughBoundary, throughMapping?_eq]
  cases hPort : c.boundary.portFor? d e with
  | none => exact if_neg hNode
  | some p => exact (if_pos rfl).trans (hc.lead?_of_portFor? hPort)

/-- A connection that stays in the scope is restored as it was. -/
theorem restore?_redirect? (hc : c.Opens) {x : Connection}
    (hSource : x.source.node ≠ c.core.id) (hTarget : x.target.node ≠ c.core.id) :
    (redirect? ids c x).bind (restore? c) = if x.relation ids ≠ .inside then some x else none := by
  -- going through the boundary and then through the mapping comes back to the same end
  have hThrough := fun d e (hNode : e.node ≠ c.core.id) =>
    throughMapping?_throughBoundary hc d (e := e) hNode
  have hStays : ∀ e : Endpoint, e.node ≠ c.core.id → throughMapping? c e = some e :=
    fun e hNode => if_neg hNode
  rw [redirect?]
  cases x.relation ids with
  | inside => rfl
  | outside =>
    exact restore?_eq_some_iff.mpr ⟨_, _, hStays _ hSource, hStays _ hTarget, rfl⟩
  | leaving =>
    exact restore?_eq_some_iff.mpr ⟨_, _, hThrough .output _ hSource, hStays _ hTarget, rfl⟩
  | entering =>
    exact restore?_eq_some_iff.mpr ⟨_, _, hStays _ hSource, hThrough .input _ hTarget, rfl⟩

/-- The connections that stay come back, and keep their order. -/
theorem filterMap_restore?_redirect? (ids : List String) (hc : c.Opens)
    {connections : List Connection}
    (hEnds : ∀ x ∈ connections, x.source.node ≠ c.core.id ∧ x.target.node ≠ c.core.id) :
    (connections.filterMap (redirect? ids c)).filterMap (restore? c) =
      connections.filter (·.relation ids ≠ .inside) := by
  rw [List.filterMap_filterMap, ← List.filterMap_eq_filter]
  refine List.filterMap_congr fun x hx => ?_
  obtain ⟨hSource, hTarget⟩ := hEnds x hx
  rw [restore?_redirect? hc hSource hTarget, Option.guard]
  simp only [decide_eq_true_eq]

/-- Nodes that were moved and taken in come out with the parent they had. -/
theorem map_withParent_moved {nodes moved : List Node}
    (hMoved : List.Forall₂ Node.Moved nodes moved)
    (hParents : ∀ n ∈ nodes, n.core.parent = scope) (inner : Option String) :
    (moved.map (·.withParent inner)).map (·.withParent scope) = moved := by
  rw [List.map_map]
  refine (List.map_congr_left fun m hm => ?_).trans (List.map_id _)
  obtain ⟨n, hn, position, rfl⟩ := exists_of_mem_forall₂ hMoved hm
  have hParent : (n.withPosition position).core.parent = scope :=
    (n.parent_withPosition position).trans (hParents n hn)
  show ((n.withPosition position).withParent inner).withParent scope = n.withPosition position
  rw [Node.withParent_withParent, ← hParent, Node.withParent_parent]

/-- A scope comes back from a grouping, but for order and places. -/
theorem expand_collapse {id name : String} (hs : s.Tidy) (hGathers : c.Gathers s ids id name)
    (hNew : ∀ n ∈ s.nodes, n.id ≠ c.core.id)
    (hEnds : ∀ x ∈ s.connections, x.source.node ≠ c.core.id ∧ x.target.node ≠ c.core.id)
    (hParents : ∀ n ∈ s.nodes, n.core.parent = scope) :
    ∃ moved, List.Forall₂ Node.Moved (s.nodes.filter (·.id ∈ ids)) moved ∧
      (s.collapse ids c).expand c scope =
        ⟨gathered ids moved s.nodes, rewired ids scope s.connections⟩ := by
  have hTidy := hs.collapse hGathers.takes (Container.tidyPorts_of_made hGathers.made) hNew
  obtain ⟨moved, hMoved, hNodes⟩ := hGathers.takes.nodes
  refine ⟨moved, hMoved, ?_⟩
  have hSplit := collapseNodes_eq (c := c) hGathers.takes.selected
  -- the nodes come out as they were taken in, but for their places
  have hBack : c.inside.nodes.map (·.withParent scope) = moved := by
    rw [hNodes]
    refine map_withParent_moved hMoved ?_ _
    exact fun n hn => hParents n (List.mem_of_mem_filter hn)
  have hStay := filterMap_restore?_redirect? ids (hGathers.opens hs) hEnds
  have hScopeNodes : ((s.collapse ids c).expand c scope).nodes =
      gathered ids moved s.nodes := by
    rw [expand_nodes hSplit hTidy.ids, hBack]
    rfl
  -- the connections that stay come first, and those from inside after them
  have hScopeConnections : ((s.collapse ids c).expand c scope).connections =
      rewired ids scope s.connections := by
    show (s.connections.filterMap (redirect? ids c)).filterMap (restore? c) ++
      c.inside.connections.map (·.inScope scope) = _
    rw [hStay, hGathers.takes.connections, List.map_map]
    rfl
  show Scope.mk ((s.collapse ids c).expand c scope).nodes
    ((s.collapse ids c).expand c scope).connections = _
  rw [hScopeNodes, hScopeConnections]

end Scope

/-! ## The graph -/

namespace FlowGraph

variable {g g' : FlowGraph} {ids : List String} {id name : String} {settings : Settings}

/-- Ungrouping takes a grouping back. Of the whole graph only the content of the edited
scope is not what it was: the selected nodes stand together, perhaps at other places
on the canvas, and the connections among them come last. -/
theorem ungroup_group (hValid : g.validate.success = true)
    (hSorts : ∀ n ∈ g.allNodes, n.SortsPorts)
    (hAgrees : ∀ e : Container Node, .graph e ∈ g.allNodes → e.Agrees)
    (hNew : ∀ n ∈ g.allNodes, n.id ≠ id) (h : g.group ids id name settings = .ok g') :
    ∃ scope s moved g'', ((∃ i ∈ ids, g.scopeOf? i = some scope) ∧
        ∀ i ∈ ids, ∀ place, g.scopeOf? i = some place → place = scope) ∧
      g.scope? scope = some s ∧
      List.Forall₂ Node.Moved (s.nodes.filter (·.id ∈ ids)) moved ∧
      g'.ungroup id = .ok g'' ∧
      g.withScope? scope ⟨Scope.gathered ids moved s.nodes,
        Scope.rewired ids scope s.connections⟩ = some g'' := by
  have hSound := validate_success_iff.mp hValid
  have hUnique := hSound.unique
  have hPorts := hSound.tidyPorts hSorts
  obtain ⟨scope, s, c, hPlaces, hGathers, hEdits⟩ := group_spec hUnique hPorts h
  obtain rfl := hGathers.id
  have hScope := hEdits.scope?
  have hTidy := tidy_of_scope? hUnique hPorts hScope
  have hFolding := folding_of_group hUnique hPorts hNew
    (fun e he key m hm => hSound.child_ne hNew he hm) hGathers hEdits
  obtain ⟨moved, hMoved, hBack⟩ := Scope.expand_collapse hTidy hGathers
    (fun n hn => hNew n (mem_allNodes_of_scope? hScope hn))
    (fun x hx => hSound.ends_ne hNew hScope hx) (hSound.parent_eq hScope)
  -- in the grouped graph the container stands in the scope, and is found there
  have hUnique' := hFolding.foldedIds
  have hPorts' := hFolding.forall_folded (fun n m hShell hn => hn.of_shell hShell) hPorts
    (Container.tidyPorts_of_made hGathers.made)
  have hScope' := hEdits.scope?_after hUnique'
  have hMem' : .graph c ∈ (s.collapse ids c).nodes :=
    (Scope.mem_collapse hGathers.takes.selected).mpr (.inl rfl)
  obtain ⟨g'', hUngroup, hEdits'⟩ := ungroup_spec hUnique' hPorts' hScope' hMem'
  rw [hBack] at hEdits'
  refine ⟨scope, s, moved, g'', hPlaces, hScope, hMoved, hUngroup, ?_⟩
  refine hEdits.undo hEdits' hUnique' ?_
  rintro e outside back hFind rfl hThrough hAround
  have he := ((container?_eq_some_iff hUnique).mp hFind).1
  exact Container.undo_rerouted (hPorts _ he) hTidy hGathers (hAgrees e he)
    (fun key m hm => hSound.child_ne hNew he hm) hThrough hAround

theorem plant_ungroup_group :
    ∃ g' scope s moved g'', plant.group ["drill", "pack"] "cell" "Cell" .standard = .ok g' ∧
      plant.scope? scope = some s ∧ g'.ungroup "cell" = .ok g'' ∧
      plant.withScope? scope ⟨Scope.gathered ["drill", "pack"] moved s.nodes,
        Scope.rewired ["drill", "pack"] scope s.connections⟩ = some g'' := by
  have hSome : (plant.group ["drill", "pack"] "cell" "Cell" .standard).toOption.isSome = true := by
    decide +kernel
  obtain ⟨g', hGroup⟩ := exists_eq_ok hSome
  -- the conditions on the plant are decidable, so evaluation settles them
  have hAgrees : ∀ e : Container Node, .graph e ∈ plant.allNodes → e.Agrees :=
    forall_containers (by decide +kernel)
  have hNew : ∀ n ∈ plant.allNodes, n.id ≠ "cell" := by decide +kernel
  obtain ⟨scope, s, moved, g'', -, hScope, -, hUngroup, hBack⟩ :=
    ungroup_group plant_valid plant_sortsPorts hAgrees hNew hGroup
  exact ⟨g', scope, s, moved, g'', hGroup, hScope, hUngroup, hBack⟩

end FlowGraph

end FlowNest
